import CMinusFrontEnd.Proofs.Directories
import CMinusFrontEnd.Proofs.Table

/-!
# Where writing arrives

`FileSystem.write` does two things: it finds out what a path leads to, and it hands the bytes over.
The first part, `FileSystem.destination`, looks at the files only, so what has been said on the
channels makes no difference to it. The second part, `FileSystem.fill`, leaves everything but the
destination as it is, and a file that was filled is read back by the same path, if it can be read
(`FileSystem.read_put`).
-/

namespace CMinusFrontEnd

namespace FileSystem

/-! ## The table -/

/-- What was put at a location is found there, and what is at other locations is as before. The root
is not in the table. -/
theorem lookup?_put {fs : FileSystem} {l : Location} (hl : l ≠ []) (e : Entry) (l' : Location) :
    (fs.put l e).lookup? l' = if l' = l then some e else fs.lookup? l' := by
  have hput : (fs.put l e).entries.lookup l' = if l' = l then some e else fs.entries.lookup l' :=
    Table.lookup_put l' l e fs.entries
  rw [lookup?, lookup?, hput]
  by_cases hroot : l' = []
  · rw [if_pos hroot, if_pos hroot, if_neg (hroot ▸ Ne.symm hl)]
  · rw [if_neg hroot, if_neg hroot]

/-- A file takes over the limits of its location. -/
@[simp] theorem limitsAt_put (fs : FileSystem) (l l' : Location) (e : Entry) :
    (fs.put l e).limitsAt l' = fs.limitsAt l' := rfl

/-- Messages that follow each other are one message. -/
theorem send_send (fs : FileSystem) (first second : Bytes) :
    (fs.send first .messages).send second .messages = fs.send (first ++ second) .messages := by
  simp only [send, List.append_assoc]

/-! ## Saying something leaves paths alone -/

section Send

variable (fs : FileSystem) (said : Bytes) (channel : Channel)

@[simp] theorem here_send : (fs.send said channel).here = fs.here := by
  cases channel <;> rfl

@[simp] theorem find_send (l : Location) (name : Text) :
    (fs.send said channel).find l name = fs.find l name := by
  simp only [find, lookup?_send]

@[simp] theorem enter_send (l : Location) (names : List Text) :
    (fs.send said channel).enter l names = fs.enter l names := by
  induction names generalizing l with
  | nil => rfl
  | cons name rest ih => simp only [enter, find_send, limitsAt_send, ih]

@[simp] theorem target_send (path : Text) :
    (fs.send said channel).target path = fs.target path := by
  simp only [target, base, here_send, enter_send, limitsAt_send]

@[simp] theorem readAt_send (l : Location) (e : Entry) :
    (fs.send said channel).readAt l e = fs.readAt l e := by
  simp only [readAt, limitsAt_send]

@[simp] theorem read_send (path : Text) : (fs.send said channel).read path = fs.read path := by
  simp only [read, target_send, find_send, readAt_send]

@[simp] theorem destination_send (path : Text) :
    (fs.send said channel).destination path = fs.destination path := by
  simp only [destination, target_send, find_send, limitsAt_send]

/-- Messages take no room away from anything else. This is why the room of a listing does not depend
on the journal. -/
@[simp] theorem room_send_messages (d : Destination) :
    (fs.send said .messages).room d = fs.room d := by
  rcases d with l | l | (_ | _)
  · exact congrArg Limits.room (limitsAt_send fs said .messages l)
  · exact congrArg Limits.room (limitsAt_send fs said .messages l)
  · rfl
  · rfl

end Send

/-! ## Making and opening files -/

/-- Nothing is refused where there is nothing to be written. So a file that cannot be made or emptied
is one without a destination. -/
theorem write_nil_eq_error_iff {fs : FileSystem} {path : Text} {cause : SystemCause} :
    (fs.write path []).1 = .error cause ↔ fs.destination path = .error cause := by
  rw [write]
  cases fs.destination path with
  | error refusal => simp only [Except.error.injEq]
  | ok d =>
    have hroom : (fs.room d).answer [] = .ok () := by
      rw [Room.answer]
      cases (fs.room d).capacity <;> rfl
    simp only [hroom, reduceCtorEq]

/-! ## Reading back -/

/-- A file that can be written ends its path, and there is no directory in its place. It may be
missing so far. -/
theorem target_of_destination {fs : FileSystem} {path : Text} {l : Location}
    (h : fs.destination path = .ok (.file l)) :
    ∃ d name, fs.target path = .ok (.named d name) ∧ l = d ++ [name] ∧ endsInSlash path = false ∧
      name.bytes.length ≤ maxNameBytes ∧ fs.lookup? l ≠ some .directory := by
  have hopened {refusal : Option SystemCause} {d : Destination}
      (h : refusal.elim (.ok d) .error = (.ok (.file l) : Except SystemCause Destination)) :
      d = .file l := by
    cases refusal with
    | none => exact Except.ok.inj h
    | some cause => cases h
  rw [destination] at h
  split at h
  next => cases h
  next => cases h
  next d name htarget =>
    split at h
    next => cases h
    next hslash =>
      -- nothing or a file is found; both ways the destination is the name in its directory
      obtain ⟨found, hfind, hfound, rfl⟩ : ∃ found, fs.find d name = .ok found ∧
          found ≠ some .directory ∧ d ++ [name] = l := by
        simp only at h
        split at h
        next => cases h
        next hfind => exact ⟨none, hfind, by simp, Destination.file.inj (hopened h)⟩
        next => cases h
        next content hfind => exact ⟨_, hfind, by simp, Destination.file.inj (hopened h)⟩
        next => cases hopened h
        next => cases hopened h
      obtain ⟨hlength, hlookup⟩ := find_eq_ok_iff.1 hfind
      exact ⟨d, name, htarget, rfl, by simpa using hslash, hlength, hlookup ▸ hfound⟩

/-- The root is a directory, so no file is written there. -/
theorem ne_nil_of_destination {fs : FileSystem} {path : Text} {l : Location}
    (h : fs.destination path = .ok (.file l)) : l ≠ [] := by
  obtain ⟨d, name, -, rfl, -⟩ := target_of_destination h
  exact List.append_ne_nil_of_right_ne_nil d (List.cons_ne_nil name [])

/-- **Written and read back.** What was written to a file is what the path leads to afterwards, if
the file is not closed to readers. -/
theorem read_put {fs : FileSystem} {path : Text} {l : Location}
    (h : fs.destination path = .ok (.file l)) (hreading : (fs.limitsAt l).reading = none)
    (content : Bytes) : (fs.put l (.file content)).read path = .ok content := by
  have hl := ne_nil_of_destination h
  obtain ⟨d, name, htarget, rfl, hslash, hlength, hplace⟩ := target_of_destination h
  have hdirectories : ∀ l, fs.lookup? l = some .directory →
      (fs.put (d ++ [name]) (.file content)).lookup? l = some .directory := by
    intro l hdirectory
    have hne : l ≠ d ++ [name] := fun heq => hplace (heq ▸ hdirectory)
    rw [lookup?_put hl, if_neg hne, hdirectory]
  have htarget' : (fs.put (d ++ [name]) (.file content)).target path = .ok (.named d name) :=
    target_of_directories (limitsAt_put fs (d ++ [name]) · _) hdirectories rfl htarget
  have hfind : (fs.put (d ++ [name]) (.file content)).find d name = .ok (some (.file content)) :=
    find_eq_ok_iff.2 ⟨hlength, by rw [lookup?_put hl, if_pos rfl]⟩
  simp only [read, htarget', hfind, hslash, Bool.false_and, Bool.false_eq_true, if_false, readAt,
    limitsAt_put, hreading]

end FileSystem

end CMinusFrontEnd
