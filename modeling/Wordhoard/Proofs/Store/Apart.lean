import Wordhoard.Proofs.Files.Together
import Wordhoard.Proofs.Store.Atomic

/-! Saves of two collections at once. Main statement: if their temporary files are not the same, both
collections are stored, whatever the order of the requests. -/
namespace Wordhoard.Store

open Files (Disk fileName? folder outcome Place placeFrom Program Request stem)
open Files.Disk (Grows way)

variable {path name directory : String} {c : Collection} {content : ByteArray} {d d' d'' e e' : Disk}
  {base : Place} {p q n m : String} {allowed : Place → Prop}

/-- No file of one save is one of the other. -/
structure Apart (base : Place) (p q : String) : Prop where
  beside : placeFrom base (temporary p) ≠ placeFrom base (temporary q)
  left : placeFrom base (temporary p) ≠ placeFrom base q
  right : placeFrom base p ≠ placeFrom base (temporary q)
  stored : placeFrom base p ≠ placeFrom base q

theorem Apart.symm (h : Apart base p q) : Apart base q p :=
  ⟨h.beside.symm, h.right.symm, h.left.symm, h.stored.symm⟩

/-- Paths to one directory share their temporary file if the names are the same but for extensions. -/
theorem temporary_eq_iff (named : fileName? p = some n) (named' : fileName? q = some m) :
    placeFrom base (temporary p) = placeFrom base (temporary q) ↔
      folder base p = folder base q ∧ stem n = stem m := by
  rw [placeFrom_temporary named, placeFrom_temporary named']
  constructor
  · intro same
    obtain ⟨folders, names⟩ := List.append_inj' same rfl
    have chars := congrArg String.toList (List.singleton_inj.1 names)
    simp only [String.toList_append] at chars
    exact ⟨folders, String.toList_inj.1 (List.append_cancel_right chars)⟩
  · rintro ⟨folders, stems⟩
    rw [folders, stems]

theorem temporary_of_temporary (named : fileName? p = some n) (named' : fileName? q = some m)
    (same : placeFrom base q = placeFrom base (temporary p)) :
    placeFrom base (temporary q) = placeFrom base (temporary p) := by
  obtain ⟨rest, split⟩ := Files.exists_named named
  rw [Files.placeFrom_of_fileName named', placeFrom_temporary named] at same
  obtain ⟨folders, names⟩ := List.append_inj' same rfl
  have stems : stem m = stem n := by
    have again := Files.stem_stem split.counts (show '.' ∉ "tmp".toList by decide)
    rwa [joined_tmp, ← List.singleton_inj.1 names] at again
  exact (temporary_eq_iff named' named).2 ⟨folders, stems⟩

theorem apart_of_temporary (named : fileName? p = some n) (named' : fileName? q = some m)
    (h : placeFrom base (temporary p) ≠ placeFrom base (temporary q)) : Apart base p q where
  beside := h
  left same := h (temporary_of_temporary named named' same.symm).symm
  right same := h (temporary_of_temporary named' named same)
  stored same := by
    rw [Files.placeFrom_of_fileName named, Files.placeFrom_of_fileName named'] at same
    obtain ⟨folders, names⟩ := List.append_inj' same rfl
    exact h ((temporary_eq_iff named named').2 ⟨folders, congrArg stem (List.singleton_inj.1 names)⟩)

structure Ready (path : String) (d : Disk) : Prop where
  temporary : d.locate (temporary path) = .ok (placeFrom d.here (Store.temporary path))
  stored : d.locate path = .ok (placeFrom d.here path)
  free_temporary : d.node? (placeFrom d.here (Store.temporary path)) ≠ some .directory
  free_stored : d.node? (placeFrom d.here path) ≠ some .directory

theorem ready_of_steps (written : d.write (temporary path) content = .ok d')
    (moved : d'.rename (temporary path) path = .ok d'') : Ready path d := by
  obtain ⟨t, found, file, rfl⟩ := Disk.write_eq_ok written
  obtain ⟨-, q, -, -, later, -, file', -⟩ := Disk.rename_eq_ok moved
  have there := (Disk.locate_put_iff file).1 later
  have stored : d.node? q ≠ some .directory := by
    by_cases same : q = t
    · rw [same]
      exact file
    · rwa [Disk.node?_put_of_ne same] at file'
  constructor
  · rw [← Disk.placeFrom_of_locate found]
    exact found
  · rw [← Disk.placeFrom_of_locate there]
    exact there
  · rw [← Disk.placeFrom_of_locate found]
    exact file
  · rw [← Disk.placeFrom_of_locate there]
    exact stored

theorem ready_of_save (lies : Files.parent? path = some directory)
    (h : (outcome (save path c) d).1 = .ok ()) :
    (d.createDirectories directory).1 = .ok () ∧ Ready path (d.createDirectories directory).2 := by
  rw [outcome, run_save lies] at h
  simp only [Program.run, Request.answer] at h
  generalize (d.createDirectories directory).2 = d₁ at h ⊢
  cases created : (d.createDirectories directory).1 with
  | error e =>
    rw [created] at h
    cases h
  | ok =>
    rw [created] at h
    simp only [afterDirectories, Program.run, Request.answer] at h
    cases written : d₁.write (temporary path) c.text.toUTF8 with
    | error e =>
      rw [written] at h
      cases h
    | ok d₂ =>
      rw [written] at h
      simp only [Files.changed, afterWrite, Program.run, Request.answer] at h
      cases moved : d₂.rename (temporary path) path with
      | error e =>
        rw [moved] at h
        cases h
      | ok d₃ => exact ⟨rfl, ready_of_steps written moved⟩

/-- What both saves leave as it is: directories only come where directories may be, and no file is
there. -/
structure Common (d : Disk) (allowed : Place → Prop) (e : Disk) : Prop where
  grows : Grows d e
  directories : ∀ x, e.node? x = some .directory → allowed x
  files : ∀ x, allowed x → e.file? x = none

/-- What does not change for a save: the directories on its way may be created, its files lie where none
may be, and its paths lead there once its directories are created. -/
structure Clear (d : Disk) (allowed : Place → Prop) (path directory : String) : Prop where
  way : ∀ x ∈ way d.here directory, allowed x
  temporary : ¬ allowed (placeFrom d.here (Store.temporary path))
  stored : ¬ allowed (placeFrom d.here path)
  leads : ∀ e, Grows d e → (∀ x ∈ Disk.way d.here directory, e.node? x = some .directory) →
    e.locate (Store.temporary path) = .ok (placeFrom d.here (Store.temporary path)) ∧
      e.locate path = .ok (placeFrom d.here path)

/-- How far a save has come, and what it left on the disk. -/
inductive Stage (base : Place) (path directory : String) (content : ByteArray) :
    Program (Except Error Unit) → Disk → Prop where
  | fresh {e : Disk} : Stage base path directory content
      (.ask (.createDirectories directory) (afterDirectories path directory content)) e
  | made {e : Disk} (there : ∀ x ∈ way base directory, e.node? x = some .directory) :
      Stage base path directory content (.ask (.write (temporary path) content) (afterWrite path)) e
  | written {e : Disk} (there : ∀ x ∈ way base directory, e.node? x = some .directory)
      (beside : e.file? (placeFrom base (temporary path)) = some content) :
      Stage base path directory content (.ask (.rename (temporary path) path) (afterRename path)) e
  | moved {e : Disk} (there : ∀ x ∈ way base directory, e.node? x = some .directory)
      (stored : e.file? (placeFrom base path) = some content) :
      Stage base path directory content (.done (.ok ())) e

structure Touches (base : Place) (path : String) (e e' : Disk) : Prop where
  grows : Grows e e'
  others : ∀ x, x ≠ placeFrom base (temporary path) → x ≠ placeFrom base path →
    e'.file? x = e.file? x

theorem Stage.stays {program : Program (Except Error Unit)} (apart : Apart base p q)
    (touches : Touches base p e e') (h : Stage base q directory content program e) :
    Stage base q directory content program e' := by
  cases h with
  | fresh => exact .fresh
  | made there => exact .made fun x mem => touches.grows.directory x (there x mem)
  | written there beside =>
    refine .written (fun x mem => touches.grows.directory x (there x mem)) ?_
    rw [touches.others _ apart.beside.symm apart.right.symm]
    exact beside
  | moved there stored =>
    refine .moved (fun x mem => touches.grows.directory x (there x mem)) ?_
    rw [touches.others _ apart.left.symm apart.stored.symm]
    exact stored

section Steps

variable (common : Common d allowed e) (clear : Clear d allowed path directory)
include common clear

theorem step_fresh : let e' := (e.createDirectories directory).2
    (e.createDirectories directory).1 = .ok () ∧ Common d allowed e' ∧
      (∀ x ∈ way d.here directory, e'.node? x = some .directory) ∧ Touches d.here path e e' := by
  intro e'
  -- The other save puts its files where no directory may be, so none of them is on the way.
  have free : (e.createDirectories directory).1 = .ok () := by
    rw [Disk.createDirectories_eq_ok_iff, common.grows.here]
    exact fun x mem => common.files x (clear.way x mem)
  have nodes := Disk.node?_createDirectories free
  rw [common.grows.here] at nodes
  have grows : Grows e e' := Disk.grows_createDirectories
  refine ⟨free, ⟨common.grows.trans grows, ?_, ?_⟩, ?_, ⟨grows, ?_⟩⟩
  · intro x there
    rcases (nodes x).1 there with old | new
    · exact common.directories x old
    · exact clear.way x new
  · intro x may
    rw [Disk.file?_createDirectories]
    exact common.files x may
  · exact fun x mem => (nodes x).2 (.inr mem)
  · exact fun x _ _ => Disk.file?_createDirectories x

theorem step_made (content : ByteArray)
    (there : ∀ x ∈ way d.here directory, e.node? x = some .directory) :
    ∃ e', e.write (temporary path) content = .ok e' ∧ Common d allowed e' ∧
      e'.file? (placeFrom d.here (temporary path)) = some content ∧ Touches d.here path e e' := by
  have found := (clear.leads e common.grows there).1
  have file : e.node? (placeFrom d.here (temporary path)) ≠ some .directory :=
    fun directory => clear.temporary (common.directories _ directory)
  have grows : Grows e (e.put (placeFrom d.here (temporary path)) (.file content)) :=
    Disk.grows_put file
  refine ⟨_, Disk.write_of_locate found file, ⟨common.grows.trans grows, ?_, ?_⟩, ?_, ⟨grows, ?_⟩⟩
  · intro x there
    exact common.directories x (Disk.directory_of_put there)
  · intro x may
    have other : x ≠ placeFrom d.here (temporary path) := fun same => clear.temporary (same ▸ may)
    rw [Disk.file?_put_of_ne other]
    exact common.files x may
  · exact Disk.file?_put_self file
  · exact fun x other _ => Disk.file?_put_of_ne other

theorem step_written (there : ∀ x ∈ way d.here directory, e.node? x = some .directory)
    (beside : e.file? (placeFrom d.here (temporary path)) = some content) :
    ∃ e', e.rename (temporary path) path = .ok e' ∧ Common d allowed e' ∧
      e'.file? (placeFrom d.here path) = some content ∧ Touches d.here path e e' := by
  obtain ⟨found, target⟩ := clear.leads e common.grows there
  have node := Disk.file?_eq_some_iff.1 beside
  have file : e.node? (placeFrom d.here path) ≠ some .directory :=
    fun directory => clear.stored (common.directories _ directory)
  have moved := Disk.rename_of_locate found target node file
  have grows := Disk.grows_rename moved
  have erased := Disk.node?_erase_ne_directory (p := placeFrom d.here (temporary path)) file
  refine ⟨_, moved, ⟨common.grows.trans grows, ?_, ?_⟩, ?_, ⟨grows, ?_⟩⟩
  · intro x there
    exact common.directories x (Disk.directory_of_erase (Disk.directory_of_put there))
  · intro x may
    have other : x ≠ placeFrom d.here (temporary path) := fun same => clear.temporary (same ▸ may)
    have other' : x ≠ placeFrom d.here path := fun same => clear.stored (same ▸ may)
    rw [Disk.file?_put_of_ne other', Disk.file?_erase_of_ne other]
    exact common.files x may
  · exact Disk.file?_put_self erased
  · intro x other other'
    rw [Disk.file?_put_of_ne other', Disk.file?_erase_of_ne other]

end Steps

/-- Each request of a save succeeds, and leaves the stage of the other one. -/
theorem advances {directory' : String} {content' : ByteArray} (clear : Clear d allowed p directory)
    (apart : Apart d.here p q) :
    Program.Advances (Common d allowed) (Stage d.here p directory content)
      (Stage d.here q directory' content') := by
  intro r next e common stage
  cases stage with
  | fresh =>
    obtain ⟨free, common', there, touches⟩ := step_fresh common clear
    refine ⟨common', ?_, fun _ => Stage.stays apart touches⟩
    simp only [Request.answer, free]
    exact .made there
  | made there =>
    obtain ⟨e', written, common', beside, touches⟩ := step_made common clear content there
    have answered : Request.answer e (.write (temporary p) content) = (.ok (), e') := by
      simp only [Request.answer, written, Files.changed]
    rw [answered]
    refine ⟨common', ?_, fun _ => Stage.stays apart touches⟩
    exact .written (fun x mem => touches.grows.directory x (there x mem)) beside
  | written there beside =>
    obtain ⟨e', moved, common', stored, touches⟩ := step_written common clear there beside
    have answered : Request.answer e (.rename (temporary p) p) = (.ok (), e') := by
      simp only [Request.answer, moved, Files.changed]
    rw [answered]
    refine ⟨common', ?_, fun _ => Stage.stays apart touches⟩
    exact .moved (fun x mem => touches.grows.directory x (there x mem)) stored

section Alone

variable {v w : Collection} {directory' : String}

/-- Directories are where they were, or where one of the saves creates them. -/
def Between (d : Disk) (directory directory' : String) (x : Place) : Prop :=
  d.node? x = some .directory ∨ x ∈ way d.here directory ∨ x ∈ way d.here directory'

theorem between_comm : Between d directory directory' = Between d directory' directory := by
  funext x
  simp only [Between, or_comm]

theorem node?_directories (created : (d.createDirectories directory').1 = .ok ())
    (further : ((d.createDirectories directory').2.createDirectories directory).1 = .ok ())
    (x : Place) :
    ((d.createDirectories directory').2.createDirectories directory).2.node? x = some .directory ↔
      Between d directory directory' x := by
  have here : (d.createDirectories directory').2.here = d.here := Disk.grows_createDirectories.here
  rw [Disk.node?_createDirectories further, Disk.node?_createDirectories created, here, Between,
    or_assoc]
  exact or_congr_right or_comm

theorem leads_of_save (lies : Files.parent? p = some directory)
    (works : (outcome (save p v) d).1 = .ok ()) (grows : Grows d e)
    (there : ∀ x ∈ way d.here directory, e.node? x = some .directory) :
    e.locate (temporary p) = .ok (placeFrom d.here (temporary p)) ∧
      e.locate p = .ok (placeFrom d.here p) := by
  obtain ⟨created, ready⟩ := ready_of_save lies works
  obtain ⟨beside, stored, -, -⟩ := ready
  have here : (d.createDirectories directory).2.here = d.here := Disk.grows_createDirectories.here
  have stays (x : Place) (at_first : (d.createDirectories directory).2.node? x = some .directory) :
      e.node? x = some .directory := by
    rcases (Disk.node?_createDirectories created x).1 at_first with old | new
    · exact grows.directory x old
    · exact there x new
  rw [here] at beside stored
  constructor
  · exact Disk.locate_of_directories stays (grows.here.trans here.symm) beside
  · exact Disk.locate_of_directories stays (grows.here.trans here.symm) stored

theorem elsewhere_of_save (lies : Files.parent? p = some directory)
    (created : (d.createDirectories directory').1 = .ok ())
    (beside : (outcome (save p v) (d.createDirectories directory').2).1 = .ok ()) :
    ¬ Between d directory directory' (placeFrom d.here (temporary p)) ∧
      ¬ Between d directory directory' (placeFrom d.here p) := by
  obtain ⟨further, ready⟩ := ready_of_save lies beside
  have here : ((d.createDirectories directory').2.createDirectories directory).2.here = d.here :=
    Disk.grows_createDirectories.here.trans Disk.grows_createDirectories.here
  have free_temporary := ready.free_temporary
  have free_stored := ready.free_stored
  rw [here, ne_eq, node?_directories created further] at free_temporary free_stored
  exact ⟨free_temporary, free_stored⟩

theorem clear_of_saves (lies : Files.parent? p = some directory)
    (lies' : Files.parent? q = some directory') (works : (outcome (save p v) d).1 = .ok ())
    (beside : (outcome (save p v) (prepared q d)).1 = .ok ())
    (other : (outcome (save q w) d).1 = .ok ()) :
    Clear d (Between d directory directory') p directory := by
  rw [prepared_eq lies'] at beside
  obtain ⟨free_temporary, free_stored⟩ :=
    elsewhere_of_save lies (ready_of_save lies' other).1 beside
  constructor
  · exact fun x mem => .inr (.inl mem)
  · exact free_temporary
  · exact free_stored
  · exact fun e grows there => leads_of_save lies works grows there

theorem common_of_saves (lies : Files.parent? p = some directory)
    (lies' : Files.parent? q = some directory') (works : (outcome (save p v) d).1 = .ok ())
    (other : (outcome (save q w) d).1 = .ok ()) : Common d (Between d directory directory') d where
  grows := Disk.grows_self
  directories _ := .inl
  files x may := by
    rcases may with old | here | there
    · exact Disk.file?_eq_none_of_directory old
    · exact Disk.createDirectories_eq_ok_iff.1 (ready_of_save lies works).1 x here
    · exact Disk.createDirectories_eq_ok_iff.1 (ready_of_save lies' other).1 x there

theorem loaded_of_moved (clear : Clear d allowed p directory) (grows : Grows d e)
    {result : Except Error Unit}
    (stage : Stage d.here p directory v.text.toUTF8 (.done result) e) :
    result = .ok () ∧ e.read p = .ok v.text.toUTF8 ∧
      (v.Readable → v.version ≤ currentVersion → outcome (load p) e = (.ok v, e)) := by
  cases stage with
  | moved there stored =>
    have found := (clear.leads e grows there).2
    have read := (Disk.file?_of_locate found).2 stored
    exact ⟨rfl, read, load_of_read read⟩

/-- If the temporary files of two paths are not the same, and each save works alone, also where the
directories for the other one are created already, then in any order of their requests both saves
succeed, and from each path the collection is loaded that was saved there. -/
theorem both_saved {first second : Except Error Unit} (named : fileName? p = some n)
    (named' : fileName? q = some m)
    (apart : placeFrom d.here (temporary p) ≠ placeFrom d.here (temporary q))
    (works : ∀ e ∈ [d, prepared q d], (outcome (save p v) e).1 = .ok ())
    (works' : ∀ e ∈ [d, prepared p d], (outcome (save q w) e).1 = .ok ())
    (run : Program.Together (save p v).run (save q w).run d first second d') :
    (first = .ok () ∧ d'.read p = .ok v.text.toUTF8 ∧
      (v.Readable → v.version ≤ currentVersion → outcome (load p) d' = (.ok v, d'))) ∧
    second = .ok () ∧ d'.read q = .ok w.text.toUTF8 ∧
      (w.Readable → w.version ≤ currentVersion → outcome (load q) d' = (.ok w, d')) := by
  obtain ⟨directory, lies⟩ := Files.exists_parent named
  obtain ⟨directory', lies'⟩ := Files.exists_parent named'
  have alone := works d (by simp)
  have alone' := works' d (by simp)
  have clear := clear_of_saves lies lies' alone (works _ (by simp)) alone'
  have clear' := clear_of_saves lies' lies alone' (works' _ (by simp)) alone
  rw [between_comm] at clear'
  have common := common_of_saves lies lies' alone alone'
  have separate := apart_of_temporary named named' apart
  rw [run_save lies, run_save lies'] at run
  obtain ⟨common, stage, stage'⟩ :=
    run.induct (advances clear separate) (advances clear' separate.symm) common .fresh .fresh
  exact ⟨loaded_of_moved clear common.grows stage, loaded_of_moved clear' common.grows stage'⟩

/-- A save to a directory that is created and one beside it, their requests in turn. -/
theorem both_saved_in_turn :
    let v : Collection := { version := 0 }
    let w : Collection := {}
    ∃ d', Program.Together (save "a/words.json" v).run (save "words.json" w).run {}
        (.ok ()) (.ok ()) d' ∧
      d'.file? ["a", "words.tmp"] = none ∧ outcome (load "a/words.json") d' = (.ok v, d') ∧
      outcome (load "words.json") d' = (.ok w, d') := by
  intro v w
  have named : fileName? "a/words.json" = some "words.json" := by decide +kernel
  have named' : fileName? "words.json" = some "words.json" := by decide +kernel
  have apart : placeFrom [] (temporary "a/words.json") ≠ placeFrom [] (temporary "words.json") := by
    decide +kernel
  have works : ∀ e ∈ [{}, prepared "words.json" {}],
      (outcome (save "a/words.json" v) e).1 = .ok () :=
    List.forall_mem_cons.2 ⟨rfl, List.forall_mem_singleton.2 rfl⟩
  have works' : ∀ e ∈ [{}, prepared "a/words.json" {}],
      (outcome (save "words.json" w) e).1 = .ok () :=
    List.forall_mem_cons.2 ⟨rfl, List.forall_mem_singleton.2 rfl⟩
  obtain ⟨d', run, gone⟩ : ∃ d', Program.Together (save "a/words.json" v).run
      (save "words.json" w).run {} (.ok ()) (.ok ()) d' ∧ d'.file? ["a", "words.tmp"] = none :=
    Program.exists_together [true, false, true, false, true, false]
      (fun d => d.file? ["a", "words.tmp"]) (by decide +kernel)
  obtain ⟨⟨-, -, first⟩, -, -, second⟩ := both_saved named named' apart works works' run
  exact ⟨d', run, gone, first ⟨nofun, nofun⟩ (by decide), second ⟨nofun, nofun⟩ (by decide)⟩

/-- Files with the same name but for the extension share their temporary file. Saved one after the other,
one that has its extension is lost; saved in turn, one gets what was saved to the other, whose save
fails. -/
theorem lost_words_tmp :
    let v : Collection := { version := 0 }
    let w : Collection := {}
    (∃ d', Program.Together (save "words.tmp" v).run (save "words.json" w).run {}
        (.ok ()) (.ok ()) d' ∧
      (outcome (load "words.tmp") d').1 = .error (.read "words.tmp")) ∧
    ∃ d', Program.Together (save "words.json" v).run (save "words.yaml" w).run {}
        (.ok ()) (.error (.write "words.yaml")) d' ∧
      (outcome (load "words.json") d').1 = .ok w := by
  intro v w
  constructor
  · exact Program.exists_together [true, true, true, false, false, false]
      (fun d => (outcome (load "words.tmp") d).1) (by decide +kernel)
  · exact Program.exists_together [true, false, true, false, true, false]
      (fun d => (outcome (load "words.json") d).1) (by decide +kernel)

end Alone

end Wordhoard.Store
