import CMinusFrontEnd.Scan
import CMinusFrontEnd.Session.Basic
import CMinusFrontEnd.Tree.Outline

/-!
# Steps of a session

Each `Step` has an `Answer` and leaves the session in a new state. A step that is answered with an
error does not end the session. It can cost a tree, though: a tree that is moved has left its name
before it is linked anywhere, so where the linking fails the tree is lost.

A step that names a tree or a node that does not exist is refused and changes nothing.
-/

namespace CMinusFrontEnd

/-! ## Steps and answers -/

/-- Something that can be done in a session. -/
inductive Step where
  /-- sets the line counter -/
  | setLine (line : Count)
  /-- scans a source from the counter's line on and advances the counter -/
  | scan (source : Text)
  /-- makes a new node on the counter's line -/
  | create (name : Text) (kind : NodeKind)
  /-- changes what a node carries -/
  | setPayload (place : Place) (payload : Option Payload)
  /-- changes the type of a node -/
  | setType (place : Place) (type : ValueType)
  /-- moves a tree into a slot of a node and keeps what was there under a name, if one is given -/
  | setChild (place : Place) (index : Nat) (moved : Text) (kept : Option Text)
  /-- moves a tree to the end of the chain that starts at a node -/
  | append (place : Place) (moved : Text)
  /-- moves what a link of a node leads to out of its tree, under a name if one is given -/
  | take (place : Place) (link : Link) (kept : Option Text)
  /-- shows a node -/
  | view (place : Place)
  /-- shows the node in a slot -/
  | viewChild (place : Place) (index : Nat)
  /-- shows the nodes in the slots that are not empty -/
  | viewChildren (place : Place)
  /-- shows the nodes of the chain that starts at a node -/
  | viewSiblings (place : Place)
  /-- shows all nodes from a node on, with their paths -/
  | viewPlaces (place : Place)
  /-- wraps a tree in new nodes, each of which has it in one slot -/
  | wrap (name : Text) (kind : NodeKind) (index count : Nat)
  /-- makes new nodes at the end of the chain that starts at a node -/
  | extend (place : Place) (kind : NodeKind) (count : Nat)
  /-- writes the outline of the tree at a place, or of the absent tree, to a sink -/
  | outline (place : Option Place) (step depth : Count) (capacity : Capacity)
  /-- gives up a tree -/
  | drop (name : Text)

/-- What a step is answered with. -/
inductive Answer where
  /-- the line counter -/
  | line (line : Count)
  /-- a scan -/
  | scanned (scan : Scan)
  /-- a node -/
  | node (view : Option View)
  /-- a node after a change, and what the change put out of its place -/
  | replaced (previous node : Option View)
  /-- a node after a change, and what was taken from it -/
  | taken (taken node : Option View)
  /-- the node in a slot -/
  | child (view : Option View)
  /-- the nodes in slots -/
  | children (views : List View)
  /-- the nodes of a chain -/
  | siblings (views : List View)
  /-- nodes with their paths -/
  | places (found : List (Path × Label))
  /-- something written to a sink -/
  | written (content : Writing) (capacity : Capacity)
  /-- whether there was a tree to give up -/
  | dropped (existed : Bool)
  /-- an error -/
  | error (cause : Error)
  /-- there is no such tree or node -/
  | refused

namespace Session

/-! ## Changing a tree -/

/-- Changes the first node of the tree at a place. -/
def change (s : Session) (place : Place) (f : Tree → Tree) : Answer × Session :=
  match s.node? place with
  | some node => (.node (f node).view?, s.replace place (f node))
  | none => (.refused, s)

/-- Moves a named tree to a place. What happens there is up to `put`, in a session without the
moved tree. -/
def moveTo (s : Session) (place : Place) (moved : Text)
    (put : Session → Tree → Tree → Answer × Session) : Answer × Session :=
  match s.tree? moved, (s.release moved).node? place with
  | some t, some node => put (s.release moved) node t
  | _, _ => (.refused, s)

/-- Moves a tree into a slot. -/
def setChild (s : Session) (place : Place) (index : Nat) (moved : Text) (kept : Option Text) :
    Answer × Session :=
  s.moveTo place moved fun s node t =>
    match node.setChild index t with
    | .ok (previous, changed) =>
      (.replaced previous.view? changed.view?, (s.replace place changed).keep kept previous)
    | .error cause => (.error cause, s)

/-- Moves a tree to the end of a chain. -/
def append (s : Session) (place : Place) (moved : Text) : Answer × Session :=
  s.moveTo place moved fun s node t =>
    (.node (node.append t).view?, s.replace place (node.append t))

/-- Moves out what a link of a node leads to. -/
def take (s : Session) (place : Place) (link : Link) (kept : Option Text) : Answer × Session :=
  match s.node? place with
  | some node =>
    let taken := node.follow link
    let changed := node.redirect link .absent
    (.taken taken.view? changed.view?, (s.replace place changed).keep kept taken)
  | none => (.refused, s)

/-- Wraps a tree in `count` new nodes. The first of them already fails if there is no such slot,
and the tree is lost with it. -/
def wrap (s : Session) (name : Text) (kind : NodeKind) (index count : Nat) : Answer × Session :=
  match s.tree? name, Slot.ofIndex? index with
  | none, _ => (.refused, s)
  | some t, some slot =>
    let wrapped := t.wrapTimes (.fresh kind s.line) slot count
    (.node wrapped.view?, s.store name wrapped)
  | some t, none =>
    if count = 0 then (.node t.view?, s)
    else (.error (.childIndexOutOfRange index s.line), s.release name)

/-! ## Looking at a tree -/

/-- Answers a question about the tree at a place. -/
def ask (s : Session) (place : Place) (answer : Tree → Answer) : Answer × Session :=
  match s.node? place with
  | some node => (answer node, s)
  | none => (.refused, s)

/-- The tree whose outline is asked for. Without a place it is the absent tree. -/
def outlined? (s : Session) : Option Place → Option Tree
  | none => some .absent
  | some place => s.node? place

/-- Does a step. -/
def step (s : Session) : Step → Answer × Session
  | .setLine line => (.line line, { s with line })
  | .scan source =>
    let scan := Scan.ofSource s.line source
    (.scanned scan, { s with line := scan.line })
  | .create name kind =>
    let t := Tree.leaf (.fresh kind s.line)
    (.node t.view?, s.store name t)
  | .setPayload place payload => s.change place (.mapLabel fun label => { label with payload })
  | .setType place type => s.change place (.mapLabel fun label => { label with type })
  | .setChild place index moved kept => s.setChild place index moved kept
  | .append place moved => s.append place moved
  | .take place link kept => s.take place link kept
  | .view place => s.ask place fun t => .node t.view?
  | .viewChild place index =>
    s.ask place fun t => .child ((Slot.ofIndex? index).bind fun slot => (t.child slot).view?)
  | .viewChildren place => s.ask place fun t => .children (t.children.filterMap Tree.view?)
  | .viewSiblings place => s.ask place fun t => .siblings (t.siblings.filterMap Tree.view?)
  | .viewPlaces place => s.ask place fun t => .places t.places
  | .wrap name kind index count => s.wrap name kind index count
  | .extend place kind count =>
    s.change place fun t => t.append (.chain (.fresh kind s.line) count)
  | .outline place step depth capacity =>
    match s.outlined? place with
    | some t => (.written (t.outline step depth) capacity, s)
    | none => (.refused, s)
  | .drop name => (.dropped (s.tree? name).isSome, s.release name)

/-- Does steps one after the other, with an answer for each. -/
def run (s : Session) : List Step → List Answer × Session
  | [] => ([], s)
  | first :: rest =>
    let (answer, s) := s.step first
    let (answers, s) := s.run rest
    (answer :: answers, s)

end Session

end CMinusFrontEnd
