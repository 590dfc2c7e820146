import CMinusFrontEnd.Tree.Basic

/-!
# Outlines

The outline of a tree shows every node on a line of its own. Siblings are indented alike, each
child slot goes one step deeper, and the first chain is already indented by one step.

An outline can end in a fault, for two reasons. The indentation of a line is a count, and adding a
step to it may leave the range of counts; and no more than `Writing.maxSpaces` spaces
may be asked for at once.
-/

namespace CMinusFrontEnd.Tree

/-- The step by which an outline is indented unless another one is asked for. -/
def defaultStep : Count := 2

/-- Writes the nodes of a tree with the first chain indented by `indent`, and then `rest`. The
indentation of the children is computed only where there are any. -/
def outlineFrom (step indent : Count) : Tree → Writing → Writing
  | absent, rest => rest
  | node label first second third next, rest =>
    .spaces indent <| .write (.text (endLine label.describe)) <|
      match Count.plus? indent step.toNat with
      | some deeper =>
        outlineFrom step deeper first <| outlineFrom step deeper second <|
          outlineFrom step deeper third <| outlineFrom step indent next rest
      | none =>
        if first.isAbsent && second.isAbsent && third.isAbsent then
          outlineFrom step indent next rest
        else
          .fault .addOverflow
termination_by structural t => t

/-- The outline of a tree whose first chain is indented one step more than `depth`. -/
def outline (step depth : Count) (t : Tree) : Writing :=
  match Count.plus? depth step.toNat with
  | some indent => outlineFrom step indent t .done
  | none => .fault .addOverflow

end CMinusFrontEnd.Tree
