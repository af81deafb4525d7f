import Wordhoard.Proofs.Files.Elsewhere

/-! The place that a path leads to, and what may lie there. Main statements: a property of the file at a
place is kept by every change that writes nothing without it. -/
namespace Wordhoard.Files

/-- Follows segments as if directories were everywhere. -/
def follow (p : Place) : List String → Place
  | [] => p
  | s :: rest =>
    if s = "" ∨ s = "." then follow p rest
    else if s = ".." then follow p.dropLast rest
    else follow (p ++ [s]) rest

/-- Where a path leads from here, if the directories on its way are there. -/
def placeFrom (base : Place) (path : String) : Place :=
  follow (if isAbsolute path then [] else base) (segments path)

namespace Disk

variable {d d' : Disk} {p q base : Place} {path source target : String} {bytes content : ByteArray}
  {P : ByteArray → Prop} {n : Node}

theorem follow_of_walk (segments : List String) (h : d.walk p segments = .ok q) :
    q = follow p segments := by
  induction segments generalizing p with
  | nil => exact (Except.ok.inj h).symm
  | cons s rest ih =>
    unfold walk at h
    unfold follow
    split at h
    · cases h
    · cases h
    · split at h
      · rename_i idle
        rw [if_pos idle]
        exact ih h
      · rename_i counts
        rw [if_neg counts]
        split at h
        · rename_i up
          rw [if_pos up]
          exact ih h
        · rename_i down
          rw [if_neg down]
          exact ih h

theorem placeFrom_of_locate (h : d.locate path = .ok q) : q = placeFrom d.here path := by
  unfold locate at h
  split at h
  · cases h
  · exact follow_of_walk _ h

/-- The path is looked for from the base, and a file at its place has the property. -/
structure Keeps (base : Place) (path : String) (P : ByteArray → Prop) (d : Disk) : Prop where
  here : d.here = base
  file : ∀ bytes, d.node? (placeFrom base path) = some (.file bytes) → P bytes

theorem Keeps.of_read (h : Keeps base path P d) (stored : d.read path = .ok bytes) : P bytes := by
  obtain ⟨p, found, node⟩ := read_eq_ok stored
  rw [placeFrom_of_locate found, h.here] at node
  exact h.file bytes node

theorem Keeps.put (h : Keeps base path P d) (fits : ∀ bytes, n = .file bytes → P bytes) :
    Keeps base path P (d.put p n) where
  here := h.here
  file bytes node := by
    by_cases same : placeFrom base path = p
    · by_cases root : p = []
      · rw [same, root, node?_root] at node
        cases node
      · rw [same, node?_put root, if_pos rfl] at node
        exact fits bytes (Option.some.inj node)
    · rw [node?_put_of_ne same] at node
      exact h.file bytes node

theorem Keeps.erase (h : Keeps base path P d) : Keeps base path P (d.erase p) where
  here := h.here
  file bytes node := by
    by_cases root : placeFrom base path = []
    · rw [root, node?_root] at node
      cases node
    · rw [node?_erase root] at node
      split at node
      · cases node
      · exact h.file bytes node

theorem Keeps.write (h : Keeps base path P d) (good : P content)
    (written : d.write target content = .ok d') : Keeps base path P d' := by
  obtain ⟨q, -, -, rfl⟩ := write_eq_ok written
  refine h.put ?_
  rintro _ ⟨⟩
  exact good

theorem Keeps.createWalk (segments : List String) (h : Keeps base path P d) :
    Keeps base path P (d.createWalk p segments).2 :=
  createWalk_keeps (fun _ _ h _ => h.put nofun) segments h

theorem Keeps.createDirectories (h : Keeps base path P d) :
    Keeps base path P (d.createDirectories target).2 := by
  unfold Disk.createDirectories
  split
  · exact h
  · exact h.createWalk _

theorem Keeps.rename (h : Keeps base path P d) (stored : d.read source = .ok content)
    (good : P content) (moved : d.rename source target = .ok d') : Keeps base path P d' := by
  obtain ⟨p, from_source, node⟩ := read_eq_ok stored
  obtain ⟨p', q, bytes, found, -, node', -, rfl⟩ := rename_eq_ok moved
  obtain rfl : p = p' := Except.ok.inj (from_source.symm.trans found)
  obtain ⟨⟩ : Node.file content = .file bytes := Option.some.inj (node.symm.trans node')
  refine h.erase.put ?_
  rintro _ ⟨⟩
  exact good

end Disk

end Wordhoard.Files
