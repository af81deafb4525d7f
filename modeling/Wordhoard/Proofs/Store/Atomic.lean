import Wordhoard.Proofs.Files.Name
import Wordhoard.Proofs.Files.Stop
import Wordhoard.Proofs.Store.Kept

/-! Saves that stop anywhere. Main statement: if the temporary file is another one, the stored file holds
what it held or the whole new collection, wherever a save stops. -/
namespace Wordhoard.Store

open Files (Disk Extends fileName? folder outcome Place placeFrom Program Request stem)
open Files.Disk (Grows)

variable {path name directory : String} {c : Collection} {content : ByteArray} {d d' d'' : Disk}
  {base : Place}

def afterRename (path : String) : Except Files.Fault Unit → Program (Except Error Unit)
  | .ok () => .done (.ok ())
  | .error _ => .done (.error (.write path))

def afterWrite (path : String) : Except Files.Fault Unit → Program (Except Error Unit)
  | .ok () => .ask (.rename (temporary path) path) (afterRename path)
  | .error _ => .done (.error (.write (temporary path)))

def afterDirectories (path directory : String) (content : ByteArray) :
    Except Files.Fault Unit → Program (Except Error Unit)
  | .ok () => .ask (.write (temporary path) content) (afterWrite path)
  | .error _ => .done (.error (.createDirectory directory))

theorem run_save (h : Files.parent? path = some directory) :
    (save path c).run =
      .ask (.createDirectories directory) (afterDirectories path directory c.text.toUTF8) := by
  unfold save
  rw [h]
  refine congrArg (Program.ask _) (funext fun reply => ?_)
  cases reply with
  | error e => rfl
  | ok =>
    refine congrArg (Program.ask _) (funext fun reply => ?_)
    cases reply with
    | error e => rfl
    | ok =>
      refine congrArg (Program.ask _) (funext fun reply => ?_)
      cases reply with
      | error e => rfl
      | ok => rfl

theorem extends_tmp : Extends "tmp" := ⟨by decide, by decide⟩

theorem joined_tmp (name : String) : name ++ "." ++ "tmp" = name ++ ".tmp" := by
  rw [String.append_assoc]
  rfl

theorem placeFrom_temporary (h : fileName? path = some name) :
    placeFrom base (temporary path) = folder base path ++ [stem name ++ ".tmp"] := by
  rw [temporary, Files.placeFrom_withExtension h extends_tmp, joined_tmp]

theorem temporary_ne (base : Place) (h : fileName? path = some name)
    (other : stem name ++ ".tmp" ≠ name) :
    placeFrom base (temporary path) ≠ placeFrom base path := by
  rw [placeFrom_temporary h, Files.placeFrom_of_fileName h]
  intro same
  exact other (List.singleton_inj.1 (List.append_cancel_left same))

/-- The file at the path holds what it held before, or the content. -/
structure Whole (path : String) (content : ByteArray) (d d' : Disk) : Prop where
  grows : Grows d d'
  file : d'.file? (placeFrom d.here path) = d.file? (placeFrom d.here path) ∨
    d'.file? (placeFrom d.here path) = some content

theorem whole_self : Whole path content d d := ⟨Disk.grows_self, .inl rfl⟩

theorem Whole.write {bytes : ByteArray} (h : Whole path content d d')
    (other : placeFrom d.here (temporary path) ≠ placeFrom d.here path)
    (written : d'.write (temporary path) bytes = .ok d'') : Whole path content d d'' := by
  obtain ⟨p, found, file, rfl⟩ := Disk.write_eq_ok written
  have place := Disk.placeFrom_of_locate found
  rw [h.grows.here] at place
  constructor
  · exact h.grows.trans (Disk.grows_put file)
  · rw [Disk.file?_put_of_ne (by rw [place]; exact other.symm)]
    exact h.file

/-- What can be read stays, or the content takes its place. -/
theorem Whole.read {bytes : ByteArray} (h : Whole path content d d') (stored : d.read path = .ok bytes) :
    d'.read path = .ok bytes ∨ d'.read path = .ok content := by
  obtain ⟨p, found, node⟩ := Disk.read_eq_ok stored
  have place := Disk.placeFrom_of_locate found
  have held := Disk.file?_eq_some_iff.2 node
  rw [Disk.file?_of_locate (h.grows.locate found), Disk.file?_of_locate (h.grows.locate found), ← held,
    place]
  exact h.file

theorem Whole.rename (h : Whole path content d d') (stored : d'.read (temporary path) = .ok content)
    (moved : d'.rename (temporary path) path = .ok d'') : Whole path content d d'' := by
  have grows := h.grows.trans (Disk.grows_rename moved)
  constructor
  · exact grows
  · right
    rw [← grows.here]
    exact Disk.file?_of_read (Disk.read_of_rename stored moved)

theorem whole_midway_directories (between : Request.Midway d (.createDirectories directory) d') :
    Whole path content d d' := by
  cases between with
  | untouched => exact whole_self
  | whole =>
    constructor
    · exact Disk.grows_createDirectories
    · exact .inl (Disk.file?_createDirectories _)
  | createDirectories count =>
    constructor
    · exact Disk.grows_createWalk _ _ _
    · exact .inl (Disk.file?_createWalk _ _ _ _)

theorem Whole.midway_write (h : Whole path content d d')
    (other : placeFrom d.here (temporary path) ≠ placeFrom d.here path)
    (between : Request.Midway d' (.write (temporary path) content) d'') :
    Whole path content d d'' := by
  cases between with
  | untouched => exact h
  | whole => exact Files.changed_cases h fun _ => h.write other
  | write length part => exact h.write other part

theorem Whole.midway_rename (h : Whole path content d d')
    (stored : d'.read (temporary path) = .ok content)
    (between : Request.Midway d' (.rename (temporary path) path) d'') : Whole path content d d'' := by
  cases between with
  | untouched => exact h
  | whole => exact Files.changed_cases h fun _ => h.rename stored

/-- A save that reports success has stored the content. -/
abbrev Honest (path : String) (content : ByteArray) (result : Except Error Unit) (d : Disk) : Prop :=
  result = .ok () → d.read path = .ok content

theorem honest_error {error : Error} : Honest path content (.error error) d := by
  intro reported
  cases reported

theorem safe_rename (h : Whole path content d d') (stored : d'.read (temporary path) = .ok content) :
    Program.Safe (Whole path content d) (Honest path content)
      (.ask (.rename (temporary path) path) (afterRename path)) d' := by
  apply Program.safe_ask
  · exact fun _ => h.midway_rename stored
  · cases moved : d'.rename (temporary path) path with
    | error e =>
      simp only [Request.answer, moved, Files.changed]
      exact Program.safe_done h honest_error
    | ok d'' =>
      simp only [Request.answer, moved, Files.changed]
      exact Program.safe_done (h.rename stored moved) fun _ => Disk.read_of_rename stored moved
  · intro e d'' between
    exact Program.safe_done (h.midway_rename stored between) honest_error

theorem safe_write (h : Whole path content d d')
    (other : placeFrom d.here (temporary path) ≠ placeFrom d.here path) :
    Program.Safe (Whole path content d) (Honest path content)
      (.ask (.write (temporary path) content) (afterWrite path)) d' := by
  apply Program.safe_ask
  · exact fun _ => h.midway_write other
  · cases written : d'.write (temporary path) content with
    | error e =>
      simp only [Request.answer, written, Files.changed]
      exact Program.safe_done h honest_error
    | ok d'' =>
      simp only [Request.answer, written, Files.changed]
      exact safe_rename (h.write other written) (Disk.read_of_write written)
  · intro e d'' between
    exact Program.safe_done (h.midway_write other between) honest_error

theorem safe_save (named : fileName? path = some name) (other : stem name ++ ".tmp" ≠ name) :
    Program.Safe (Whole path c.text.toUTF8 d) (Honest path c.text.toUTF8) (save path c).run d := by
  obtain ⟨directory, lies⟩ := Files.exists_parent named
  have other := temporary_ne d.here named other
  rw [run_save lies]
  apply Program.safe_ask
  · exact fun _ => whole_midway_directories
  · have created : Whole path c.text.toUTF8 d (d.createDirectories directory).2 :=
      whole_midway_directories (.whole _)
    cases result : (d.createDirectories directory).1 with
    | error e =>
      simp only [Request.answer, result]
      exact Program.safe_done created honest_error
    | ok =>
      simp only [Request.answer, result]
      exact safe_write created other
  · intro e d' between
    exact Program.safe_done (whole_midway_directories between) honest_error

/-- Wherever a save stops, by a failure or by its death, the file at the path holds just what it held, if
it held something, or the whole new collection. So what could be read there is read, or the new
collection is, and nothing else comes up. If the save reports success it is the new collection. -/
theorem whole_file_of_stopped_save {result : Option (Except Error Unit)}
    (named : fileName? path = some name) (other : stem name ++ ".tmp" ≠ name)
    (stops : (save path c).run.Stops d result d') :
    (d'.file? (placeFrom d.here path) = d.file? (placeFrom d.here path) ∨
      d'.file? (placeFrom d.here path) = some c.text.toUTF8) ∧
    (∀ bytes, d.read path = .ok bytes →
      d'.read path = .ok bytes ∨ d'.read path = .ok c.text.toUTF8) ∧
    (∀ bytes, d'.read path = .ok bytes →
      d.file? (placeFrom d.here path) = some bytes ∨ bytes = c.text.toUTF8) ∧
    (result = some (.ok ()) → d'.read path = .ok c.text.toUTF8) := by
  obtain ⟨whole, honest⟩ := safe_save named other result d' stops
  refine ⟨whole.file, fun _ => whole.read, ?_, fun reported => honest _ reported rfl⟩
  · intro bytes stored
    have held := Disk.file?_of_read stored
    rw [whole.grows.here] at held
    rcases whole.file with old | new
    · exact .inl (old.symm.trans held)
    · exact .inr (Option.some.inj (held.symm.trans new))

/-- A save that dies while it writes the first byte leaves the stored file. -/
theorem whole_words_json :
    let d : Disk := { nodes := [(["words.json"], .file (Collection.text {}).toUTF8)] }
    let c : Collection := { version := 0 }
    ∃ d', (save "words.json" c).run.Stops d none d' ∧ d'.file? ["words.tmp"] = some "\x7b".toUTF8 ∧
      (d'.file? (placeFrom d.here "words.json") = d.file? (placeFrom d.here "words.json") ∨
        d'.file? (placeFrom d.here "words.json") = some c.text.toUTF8) := by
  intro d c
  have named : fileName? "words.json" = some "words.json" := by decide +kernel
  have other : stem "words.json" ++ ".tmp" ≠ "words.json" := by decide +kernel
  have lies : Files.parent? "words.json" = some "" := by decide +kernel
  have cut : ∃ d', (save "words.json" c).run.Stops d none d' ∧
      d'.file? ["words.tmp"] = some "\x7b".toUTF8 := by
    rw [run_save lies]
    refine ⟨_, .answered (.cut (.write 1 rfl)), ?_⟩
    decide +kernel
  obtain ⟨d', stops, torn⟩ := cut
  exact ⟨d', stops, torn, (whole_file_of_stopped_save named other stops).1⟩

/-- The temporary file of a file with its extension is the file itself. Cut off, a save leaves a part of
it there; and if the path ends in a slash the file is written, but cannot be moved onto itself. -/
theorem torn_words_tmp :
    let d : Disk := { nodes := [(["words.tmp"], .file (Collection.text {}).toUTF8)] }
    let c : Collection := { version := 0 }
    (∃ d', (save "words.tmp" c).run.Stops d none d' ∧
      d'.file? ["words.tmp"] ≠ d.file? ["words.tmp"] ∧
      d'.file? ["words.tmp"] ≠ some c.text.toUTF8 ∧
      (outcome (load "words.tmp") d).1 = .ok {} ∧
      (outcome (load "words.tmp") d').1 = .error .malformed) ∧
    ∃ d', outcome (save "words.tmp/" c) {} = (.error (.write "words.tmp/"), d') ∧
      (outcome (loadOrEmpty "words.tmp/") {}).1 = .ok {} ∧
      (outcome (loadOrEmpty "words.tmp/") d').1 = .error (.read "words.tmp/") := by
  intro d c
  constructor
  · have lies : Files.parent? "words.tmp" = some "" := by decide +kernel
    rw [run_save lies]
    refine ⟨_, .answered (.cut (.write 1 rfl)), ?_⟩
    refine ⟨?_, ?_, ?_, ?_⟩
    · decide +kernel
    · decide +kernel
    · decide +kernel
    · decide +kernel
  · refine ⟨_, Prod.ext rfl rfl, ?_, ?_⟩
    · decide +kernel
    · decide +kernel

end Wordhoard.Store
