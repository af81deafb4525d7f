import Wordhoard.Proofs.Files.Place

/-! Files and directories while a disk changes. Directories are never lost, so paths lead where they led.
Main statements: creating directories touches no file, it works just when no file stands in its way, and
then all of them are there. -/
namespace Wordhoard.Files.Disk

variable {d d' d'' : Disk} {p q x : Place} {n : Node} {path : String} {bytes content : ByteArray}
  {names : List String}

def file? (d : Disk) (p : Place) : Option ByteArray :=
  match d.node? p with
  | some (.file bytes) => some bytes
  | _ => none

theorem file?_eq_some_iff : d.file? p = some bytes ↔ d.node? p = some (.file bytes) := by
  unfold file?
  constructor
  · intro h
    split at h
    · rename_i node
      cases h
      exact node
    · cases h
  · intro h
    rw [h]

theorem file?_congr (same : d'.node? p = d.node? p) : d'.file? p = d.file? p := by
  rw [file?, file?, same]

theorem file?_put_self (file : d.node? p ≠ some .directory) :
    (d.put p (.file content)).file? p = some content := by
  rw [file?_eq_some_iff, node?_put (ne_root file), if_pos rfl]

theorem file?_put_of_ne (other : x ≠ p) : (d.put p n).file? x = d.file? x :=
  file?_congr (node?_put_of_ne other)

theorem file?_erase_of_ne (other : x ≠ p) : (d.erase p).file? x = d.file? x := by
  apply file?_congr
  by_cases root : x = []
  · rw [root, node?_root, node?_root]
  · rw [node?_erase root, if_neg other]

theorem file?_of_locate (found : d.locate path = .ok p) :
    d.read path = .ok bytes ↔ d.file? p = some bytes := by
  rw [read_eq_ok_iff, file?_eq_some_iff]
  constructor
  · rintro ⟨q, found', node⟩
    obtain rfl : p = q := Except.ok.inj (found.symm.trans found')
    exact node
  · intro node
    exact ⟨p, found, node⟩

theorem file?_of_read (stored : d.read path = .ok bytes) :
    d.file? (placeFrom d.here path) = some bytes := by
  obtain ⟨p, found, node⟩ := read_eq_ok stored
  rw [← placeFrom_of_locate found]
  exact file?_eq_some_iff.2 node

/-- Paths are looked for from the same place, and no directory is lost. -/
structure Grows (d d' : Disk) : Prop where
  here : d'.here = d.here
  directory : ∀ p, d.node? p = some .directory → d'.node? p = some .directory

theorem grows_self : Grows d d := ⟨rfl, fun _ => id⟩

theorem Grows.trans (h : Grows d d') (h' : Grows d' d'') : Grows d d'' where
  here := h'.here.trans h.here
  directory p there := h'.directory p (h.directory p there)

theorem Grows.locate (h : Grows d d') (found : d.locate path = .ok p) : d'.locate path = .ok p :=
  locate_of_directories h.directory h.here found

theorem Grows.read (h : Grows d d') (same : ∀ x, d'.file? x = d.file? x)
    (stored : d.read path = .ok bytes) : d'.read path = .ok bytes := by
  obtain ⟨p, found, node⟩ := read_eq_ok stored
  rw [file?_of_locate (h.locate found), same]
  exact file?_eq_some_iff.2 node

theorem Grows.walk_barred (h : Grows d d') (files : ∀ x, (d.file? x).isSome → (d'.file? x).isSome)
    (segments : List String) {p : Place} (barred : d.walk p segments = .error .other) :
    d'.walk p segments = .error .other := by
  induction segments generalizing p with
  | nil => cases barred
  | cons s rest ih =>
    unfold walk at barred ⊢
    split at barred
    · cases barred
    · rename_i file
      obtain ⟨bytes, file'⟩ := Option.isSome_iff_exists.1
        (files p (Option.isSome_iff_exists.2 ⟨_, file?_eq_some_iff.2 file⟩))
      rw [file?_eq_some_iff.1 file']
    · rename_i directory
      rw [h.directory p directory]
      dsimp only
      split at barred
      · rename_i idle
        rw [if_pos idle]
        exact ih barred
      rename_i counts
      rw [if_neg counts]
      split at barred
      · rename_i up
        rw [if_pos up]
        exact ih barred
      · rename_i down
        rw [if_neg down]
        exact ih barred

theorem Grows.read_barred (h : Grows d d') (files : ∀ x, (d.file? x).isSome → (d'.file? x).isSome)
    (barred : d.read path = .error .other) : d'.read path = .error .other := by
  cases found : d.locate path with
  | ok p =>
    simp only [Disk.read, found, h.locate found, bind, Except.bind] at barred ⊢
    split at barred
    · cases barred
    · rename_i directory
      rw [h.directory p directory]
    · cases barred
  | error fault =>
    simp only [Disk.read, found, bind, Except.bind] at barred
    cases barred
    have found' : d'.locate path = .error .other := by
      unfold Disk.locate at found ⊢
      split at found
      · cases found
      · rename_i named
        rw [if_neg named, Disk.start, h.here]
        exact h.walk_barred files _ found
    simp only [Disk.read, found', bind, Except.bind]

theorem grows_put (h : d.node? p ≠ some .directory) : Grows d (d.put p n) where
  here := rfl
  directory := directories_stay h fun x root other => by rw [node?_put root, if_neg other]

theorem grows_erase (h : d.node? p ≠ some .directory) : Grows d (d.erase p) where
  here := rfl
  directory := directories_stay h fun x root other => by rw [node?_erase root, if_neg other]

theorem grows_rename {source : String} (moved : d.rename source path = .ok d') : Grows d d' := by
  obtain ⟨p, q, content, -, -, node, file, rfl⟩ := rename_eq_ok moved
  refine (grows_erase ?_).trans (grows_put (node?_erase_ne_directory file))
  rw [node]
  exact nofun

theorem write_of_locate (found : d.locate path = .ok p) (file : d.node? p ≠ some .directory) :
    d.write path content = .ok (d.put p (.file content)) := by
  simp only [write, found, bind, Except.bind]

theorem rename_of_locate {source : String} (found : d.locate source = .ok p)
    (target : d.locate path = .ok q) (node : d.node? p = some (.file content))
    (file : d.node? q ≠ some .directory) :
    d.rename source path = .ok ((d.erase p).put q (.file content)) := by
  simp only [rename, found, target, node, bind, Except.bind]

theorem exists_read_of_write {target : String} (written : d.write target content = .ok d')
    (stored : d.read path = .ok bytes) : ∃ bytes', d'.read path = .ok bytes' := by
  obtain ⟨p, -, file, rfl⟩ := write_eq_ok written
  obtain ⟨q, found, node⟩ := read_eq_ok stored
  have there : (d.put p (.file content)).locate path = .ok q := locate_put file found
  by_cases same : q = p
  · subst same
    exact ⟨content, (file?_of_locate there).2 (file?_put_self file)⟩
  · refine ⟨bytes, (file?_of_locate there).2 ?_⟩
    rw [file?_put_of_ne same]
    exact file?_eq_some_iff.2 node

theorem grows_write (written : d.write path content = .ok d') : Grows d d' := by
  obtain ⟨p, -, file, rfl⟩ := write_eq_ok written
  exact grows_put file

theorem isSome_file?_of_write (written : d.write path content = .ok d') (x : Place)
    (there : (d.file? x).isSome) : (d'.file? x).isSome := by
  obtain ⟨p, -, file, rfl⟩ := write_eq_ok written
  by_cases same : x = p
  · rw [same, file?_put_self file]
    rfl
  · rwa [file?_put_of_ne same]

theorem exists_rename {source : String} (from_source : d.read source = .ok content)
    (stored : d.read path = .ok bytes) : ∃ d', d.rename source path = .ok d' := by
  obtain ⟨p, found, node⟩ := read_eq_ok from_source
  obtain ⟨q, there, node'⟩ := read_eq_ok stored
  have file : d.node? q ≠ some .directory := by
    rw [node']
    exact nofun
  exact ⟨_, rename_of_locate found there node file⟩

/-- The places that a walk comes to and where it creates a directory if none is there. -/
def passed (p : Place) : List String → List Place
  | [] => []
  | s :: rest =>
    if s = "" ∨ s = "." then passed p rest
    else if s = ".." then passed p.dropLast rest
    else (p ++ [s]) :: passed (p ++ [s]) rest

theorem grows_createWalk (names : List String) (d : Disk) (p : Place) :
    Grows d (d.createWalk p names).2 := by
  refine createWalk_keeps (fun d' p grows nothing => grows.trans (grows_put ?_)) names grows_self
  rw [nothing]
  exact nofun

theorem file?_put_directory (nothing : d.node? p = none) (x : Place) :
    (d.put p .directory).file? x = d.file? x := by
  by_cases same : x = p
  · have file : d.node? p ≠ some .directory := by
      rw [nothing]
      exact nofun
    have created : (d.put p .directory).node? p = some .directory := by
      rw [node?_put (ne_root file), if_pos rfl]
    rw [same, file?, file?, created, nothing]
  · exact file?_put_of_ne same

theorem file?_createWalk (names : List String) (d : Disk) (p x : Place) :
    (d.createWalk p names).2.file? x = d.file? x :=
  createWalk_keeps (P := fun d' => d'.file? x = d.file? x)
    (fun _ _ same nothing => (file?_put_directory nothing x).trans same) names rfl

theorem file?_eq_none_of_directory (h : d.node? p = some .directory) : d.file? p = none := by
  rw [file?, h]

theorem node?_createWalk (h : (d.createWalk p names).1 = .ok ()) (x : Place) :
    (d.createWalk p names).2.node? x = some .directory ↔
      d.node? x = some .directory ∨ x ∈ passed p names := by
  induction names generalizing d p with
  | nil => simp [createWalk, passed]
  | cons s rest ih =>
    unfold createWalk at h ⊢
    unfold passed
    split at h
    · rename_i idle
      simp only [if_pos idle]
      exact ih h
    rename_i counts
    simp only [if_neg counts]
    split at h
    · rename_i up
      simp only [if_pos up]
      exact ih h
    rename_i down
    simp only [if_neg down, List.mem_cons]
    split at h
    · rename_i there
      rw [ih h]
      constructor
      · rintro (old | later)
        · exact .inl old
        · exact .inr (.inr later)
      · rintro (old | rfl | later)
        · exact .inl old
        · exact .inl there
        · exact .inr later
    · cases h
    · rename_i nothing
      rw [ih h]
      by_cases same : x = p ++ [s]
      · subst same
        have created : (d.put (p ++ [s]) .directory).node? (p ++ [s]) = some .directory := by
          rw [node?_put (by simp), if_pos rfl]
        simp [created]
      · rw [node?_put_of_ne same]
        simp [same]

theorem createWalk_eq_ok_iff :
    (d.createWalk p names).1 = .ok () ↔ ∀ x ∈ passed p names, d.file? x = none := by
  induction names generalizing d p with
  | nil => simp [createWalk, passed]
  | cons s rest ih =>
    unfold createWalk passed
    split
    · exact ih
    split
    · exact ih
    rw [List.forall_mem_cons]
    split
    · rename_i there
      rw [ih]
      exact (and_iff_right (file?_eq_none_of_directory there)).symm
    · rename_i bytes there
      simp [file?_eq_some_iff.2 there]
    · rename_i nothing
      have free : d.file? (p ++ [s]) = none := by rw [file?, nothing]
      rw [ih, and_iff_right free]
      exact forall₂_congr fun x _ => by rw [file?_put_directory nothing]

def way (base : Place) (path : String) : List Place :=
  passed (if isAbsolute path then [] else base) (segments path)

theorem createDirectories_eq :
    d.createDirectories path = d.createWalk (d.start path) (segments path) := by
  unfold createDirectories
  split
  · rename_i empty
    rw [empty]
    rfl
  · rfl

theorem grows_createDirectories : Grows d (d.createDirectories path).2 := by
  rw [createDirectories_eq]
  exact grows_createWalk _ _ _

theorem file?_createDirectories (x : Place) : (d.createDirectories path).2.file? x = d.file? x := by
  rw [createDirectories_eq]
  exact file?_createWalk _ _ _ x

theorem node?_createDirectories (h : (d.createDirectories path).1 = .ok ()) (x : Place) :
    (d.createDirectories path).2.node? x = some .directory ↔
      d.node? x = some .directory ∨ x ∈ way d.here path := by
  rw [createDirectories_eq] at h ⊢
  exact node?_createWalk h x

theorem createDirectories_eq_ok_iff :
    (d.createDirectories path).1 = .ok () ↔ ∀ x ∈ way d.here path, d.file? x = none := by
  rw [createDirectories_eq]
  exact createWalk_eq_ok_iff

end Wordhoard.Files.Disk
