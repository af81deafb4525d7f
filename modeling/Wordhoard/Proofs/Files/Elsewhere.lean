import Wordhoard.Proofs.Files.Disk

/-! What is left at a path when another file is written. -/
namespace Wordhoard.Files.Disk

variable {d d' d'' : Disk} {p q : Place} {path output : String} {bytes content : ByteArray}

/-- The same file is read at the path, if there is one, and nothing is there if there was nothing. -/
structure SameAt (path : String) (d d' : Disk) : Prop where
  read_iff : ∀ bytes, d'.read path = .ok bytes ↔ d.read path = .ok bytes
  exists_iff : d'.exists? path = true ↔ d.exists? path = true

theorem sameAt_self : SameAt path d d := ⟨fun _ => Iff.rfl, Iff.rfl⟩

theorem read_eq_ok_iff :
    d.read path = .ok bytes ↔ ∃ p, d.locate path = .ok p ∧ d.node? p = some (.file bytes) := by
  constructor
  · exact read_eq_ok
  · rintro ⟨p, found, node⟩
    simp only [read, found, bind, Except.bind, node]

theorem exists?_iff :
    d.exists? path = true ↔ ∃ p, d.locate path = .ok p ∧ (d.node? p).isSome = true := by
  unfold exists?
  split
  · rename_i p found
    simp [found]
  · rename_i e lost
    simp [lost]

theorem locate_put_iff (h : d.node? q ≠ some .directory) :
    (d.put q (.file content)).locate path = .ok p ↔ d.locate path = .ok p := by
  constructor
  · exact locate_of_directories (fun _ => directory_of_put) rfl
  · exact locate_put h

theorem node?_put_of_ne {n : Node} (other : p ≠ q) : (d.put q n).node? p = d.node? p := by
  by_cases root : p = []
  · rw [root, node?_root, node?_root]
  · rw [node?_put root, if_neg other]

theorem sameAt_write (written : d.write output content = .ok d')
    (elsewhere : ∀ q, d.locate output = .ok q → d.locate path ≠ .ok q) : SameAt path d d' := by
  obtain ⟨q, found, file, rfl⟩ := write_eq_ok written
  have nodes {p : Place} (here : d.locate path = .ok p) :
      (d.put q (.file content)).node? p = d.node? p := by
    refine node?_put_of_ne ?_
    rintro rfl
    exact elsewhere p found here
  have places (p : Place) :
      (d.put q (.file content)).locate path = .ok p ↔ d.locate path = .ok p := locate_put_iff file
  constructor
  · intro bytes
    rw [read_eq_ok_iff, read_eq_ok_iff]
    refine exists_congr fun p => ?_
    rw [places]
    exact and_congr_right fun here => by rw [nodes here]
  · rw [exists?_iff, exists?_iff]
    refine exists_congr fun p => ?_
    rw [places]
    exact and_congr_right fun here => by rw [nodes here]

end Wordhoard.Files.Disk
