import Wordhoard.Files.Disk

/-! What a change of one file leaves as it was. Main statement: a file that was moved to a path is read
from there. -/
namespace Wordhoard.Files.Disk

variable {d d' : Disk} {p q x : Place} {n : Node} {path : String} {content : ByteArray}

theorem lookup_cons_ne {nodes : List (Place × Node)} (h : x ≠ p) :
    ((p, n) :: nodes).lookup x = nodes.lookup x := by
  rw [List.lookup_cons, beq_false_of_ne h]

theorem lookup_filter_ne (nodes : List (Place × Node)) (p x : Place) :
    (nodes.filter (·.1 ≠ p)).lookup x = if x = p then none else nodes.lookup x := by
  induction nodes with
  | nil => simp
  | cons entry rest ih =>
    obtain ⟨y, n⟩ := entry
    by_cases gone : y = p
    · subst gone
      rw [List.filter_cons_of_neg (by simp), ih]
      by_cases same : x = y
      · rw [if_pos same, if_pos same]
      · rw [if_neg same, if_neg same, lookup_cons_ne same]
    · rw [List.filter_cons_of_pos (by simpa using gone)]
      by_cases same : x = y
      · subst same
        rw [List.lookup_cons_self, List.lookup_cons_self, if_neg gone]
      · rw [lookup_cons_ne same, lookup_cons_ne same, ih]

theorem node?_erase (h : x ≠ []) : (d.erase p).node? x = if x = p then none else d.node? x := by
  rw [node?, node?, if_neg h, if_neg h]
  exact lookup_filter_ne d.nodes p x

theorem node?_put (h : x ≠ []) : (d.put p n).node? x = if x = p then some n else d.node? x := by
  rw [node?, node?, if_neg h, if_neg h, put]
  by_cases same : x = p
  · rw [same, List.lookup_cons_self, if_pos rfl]
  · have erased := lookup_filter_ne d.nodes p x
    rw [if_neg same] at erased
    rw [lookup_cons_ne same, if_neg same]
    exact erased

theorem node?_root (d : Disk) : d.node? [] = some .directory := if_pos rfl

theorem walk_of_directories (stay : ∀ x, d.node? x = some .directory → d'.node? x = some .directory)
    (segments : List String) (h : d.walk p segments = .ok q) : d'.walk p segments = .ok q := by
  induction segments generalizing p with
  | nil => exact h
  | cons s rest ih =>
    unfold walk at h ⊢
    split at h
    · cases h
    · cases h
    · rename_i directory
      rw [stay p directory]
      dsimp only
      split at h
      · rename_i idle
        rw [if_pos idle]
        exact ih h
      rename_i counts
      rw [if_neg counts]
      split at h
      · rename_i up
        rw [if_pos up]
        exact ih h
      · rename_i down
        rw [if_neg down]
        exact ih h

theorem locate_of_directories (stay : ∀ x, d.node? x = some .directory → d'.node? x = some .directory)
    (here : d'.here = d.here) (h : d.locate path = .ok q) : d'.locate path = .ok q := by
  unfold locate at h ⊢
  split at h
  · cases h
  · rename_i named
    rw [if_neg named, start, here]
    exact walk_of_directories stay _ h

theorem directories_stay (h : d.node? p ≠ some .directory)
    (same : ∀ x, x ≠ [] → x ≠ p → d'.node? x = d.node? x) (x : Place)
    (directory : d.node? x = some .directory) : d'.node? x = some .directory := by
  by_cases root : x = []
  · rw [root, node?_root]
  · have other : x ≠ p := by
      rintro rfl
      exact h directory
    rw [same x root other, directory]

theorem directory_of_put (there : (d.put p (.file content)).node? x = some .directory) :
    d.node? x = some .directory := by
  by_cases root : x = []
  · rw [root, node?_root]
  · rw [node?_put root] at there
    split at there
    · cases there
    · exact there

theorem directory_of_erase (there : (d.erase p).node? x = some .directory) :
    d.node? x = some .directory := by
  by_cases root : x = []
  · rw [root, node?_root]
  · rw [node?_erase root] at there
    split at there
    · cases there
    · exact there

theorem locate_put (h : d.node? p ≠ some .directory) (found : d.locate path = .ok q) :
    (d.put p n).locate path = .ok q := by
  refine locate_of_directories (directories_stay h fun x root other => ?_) rfl found
  rw [node?_put root, if_neg other]

theorem locate_erase (h : d.node? p ≠ some .directory) (found : d.locate path = .ok q) :
    (d.erase p).locate path = .ok q := by
  refine locate_of_directories (directories_stay h fun x root other => ?_) rfl found
  rw [node?_erase root, if_neg other]

/-- Directories are created only where nothing is. -/
theorem createWalk_keeps {P : Disk → Prop}
    (create : ∀ d p, P d → d.node? p = none → P (d.put p .directory)) (segments : List String)
    (h : P d) : P (d.createWalk p segments).2 := by
  induction segments generalizing d p with
  | nil => exact h
  | cons s rest ih =>
    unfold createWalk
    split
    · exact ih h
    · split
      · exact ih h
      · split
        · exact ih h
        · exact h
        · rename_i nothing
          exact ih (create d _ h nothing)

theorem ne_root (h : d.node? p ≠ some .directory) : p ≠ [] := by
  rintro rfl
  exact h d.node?_root

theorem read_put (h : d.locate path = .ok p) (file : d.node? p ≠ some .directory) :
    (d.put p (.file content)).read path = .ok content := by
  have found : (d.put p (.file content)).locate path = .ok p := locate_put file h
  have node : (d.put p (.file content)).node? p = some (.file content) := by
    rw [node?_put (ne_root file), if_pos rfl]
  simp only [read, found, bind, Except.bind, node]

theorem exists_of_bind_ok {ε α β : Type} {a : Except ε α} {f : α → Except ε β} {b : β}
    (h : a >>= f = .ok b) : ∃ x, a = .ok x ∧ f x = .ok b := by
  cases a with
  | error e => cases h
  | ok x => exact ⟨x, rfl, h⟩

theorem write_eq_ok (h : d.write path content = .ok d') :
    ∃ p, d.locate path = .ok p ∧ d.node? p ≠ some .directory ∧ d' = d.put p (.file content) := by
  obtain ⟨p, found, h⟩ := exists_of_bind_ok h
  refine ⟨p, found, ?_⟩
  split at h
  · cases h
  · rename_i file
    cases h
    exact ⟨fun directory => file directory, rfl⟩

theorem read_eq_ok (h : d.read path = .ok content) :
    ∃ p, d.locate path = .ok p ∧ d.node? p = some (.file content) := by
  obtain ⟨p, found, h⟩ := exists_of_bind_ok h
  refine ⟨p, found, ?_⟩
  split at h
  · rename_i node
    cases h
    exact node
  · cases h
  · cases h

theorem read_of_write (h : d.write path content = .ok d') : d'.read path = .ok content := by
  obtain ⟨p, found, file, rfl⟩ := write_eq_ok h
  exact read_put found file

theorem rename_eq_ok {source : String} (h : d.rename source path = .ok d') :
    ∃ p q content, d.locate source = .ok p ∧ d.locate path = .ok q ∧
      d.node? p = some (.file content) ∧ d.node? q ≠ some .directory ∧
      d' = (d.erase p).put q (.file content) := by
  obtain ⟨p, found, h⟩ := exists_of_bind_ok h
  obtain ⟨q, target, h⟩ := exists_of_bind_ok h
  split at h
  · cases h
  · rename_i content node file
    cases h
    exact ⟨p, q, content, found, target, node, file, rfl⟩
  · cases h
  · cases h

theorem node?_erase_ne_directory (h : d.node? q ≠ some .directory) :
    (d.erase p).node? q ≠ some .directory := by
  rw [node?_erase (ne_root h)]
  split
  · exact nofun
  · exact h

theorem read_of_rename {source : String} (stored : d.read source = .ok content)
    (h : d.rename source path = .ok d') : d'.read path = .ok content := by
  obtain ⟨p, from_source, node⟩ := read_eq_ok stored
  obtain ⟨p', q, moved, found, target, node', file, rfl⟩ := rename_eq_ok h
  obtain rfl : p = p' := Except.ok.inj (from_source.symm.trans found)
  obtain ⟨⟩ : Node.file content = .file moved := Option.some.inj (node.symm.trans node')
  have source_file : d.node? p ≠ some .directory := by
    rw [node]
    exact nofun
  exact read_put (locate_erase source_file target) (node?_erase_ne_directory file)

end Wordhoard.Files.Disk
