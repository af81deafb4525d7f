import Wordhoard.Proofs.Files.Directories
import Wordhoard.Proofs.Store.Failure

/-! Main statement: a save that fails keeps the stored file. -/
namespace Wordhoard.Store

open Files (Disk Ensures ensures_pure Leaves outcome placeFrom Program)
open Files.Disk (Grows)

variable {path : String} {c : Collection} {d d' : Disk}

def prepared (path : String) (d : Disk) : Disk := (outcome (prepare path) d).2

theorem prepared_eq {directory : String} (lies : Files.parent? path = some directory) :
    prepared path d = (d.createDirectories directory).2 := by
  rw [prepared, prepare, lies]
  dsimp only
  rw [outcome_attempt]
  rfl

structure Prepared (d d' : Disk) : Prop where
  grows : Grows d d'
  files : ∀ x, d'.file? x = d.file? x

theorem leaves_prepared : Leaves (prepare path) d (Prepared d) := by
  apply leaves_prepare
  · exact ⟨Disk.grows_self, fun _ => rfl⟩
  · exact fun _ => ⟨Disk.grows_createDirectories, Disk.file?_createDirectories⟩

/-- What is loaded after a save that failed, next to what was loaded before. Where nothing was found the
directories that were created may lead to a file that lay there all along, or a file may bar the way. -/
inductive Kept (path : String) (d d' : Disk) : Prop where
  | same (read : d'.read path = d.read path)
      (load : (outcome (loadOrEmpty path) d').1 = (outcome (loadOrEmpty path) d).1)
  | found {bytes : ByteArray} (missing : d.read path = .error .missing) (before : Loaded path d {})
      (there : d.file? (placeFrom d.here path) = some bytes) (read : d'.read path = .ok bytes)
      (after : (outcome (loadOrEmpty path) d').1 = decode path bytes)
  | barred (missing : d.read path = .error .missing) (before : Loaded path d {})
      (read : d'.read path = .error .other)
      (after : (outcome (loadOrEmpty path) d').1 = .error (.read path))

theorem kept_of_same (same : d'.read path = d.read path) : Kept path d d' := by
  refine .same same ?_
  rw [loadOrEmpty_eq, loadOrEmpty_eq, same]

theorem kept_of_reads (files : ∀ bytes, d.read path = .ok bytes → d'.read path = .ok bytes)
    (barred : d.read path = .error .other → d'.read path = .error .other)
    (there : ∀ bytes, d'.read path = .ok bytes → d.file? (placeFrom d.here path) = some bytes) :
    Kept path d d' := by
  cases before : d.read path with
  | ok bytes => exact kept_of_same ((files bytes before).trans before.symm)
  | error fault =>
    cases fault with
    | other => exact kept_of_same ((barred before).trans before.symm)
    | missing =>
      have empty : Loaded path d {} := by
        rw [Loaded, loadOrEmpty_eq, before]
      cases after : d'.read path with
      | ok bytes =>
        refine .found before empty (there bytes after) after ?_
        rw [loadOrEmpty_eq, after]
      | error fault =>
        cases fault with
        | missing => exact kept_of_same (after.trans before.symm)
        | other =>
          refine .barred before empty after ?_
          rw [loadOrEmpty_eq, after]

theorem Prepared.read (h : Prepared d d') {bytes : ByteArray} (stored : d.read path = .ok bytes) :
    d'.read path = .ok bytes :=
  h.grows.read h.files stored

theorem Prepared.read_barred (h : Prepared d d') (barred : d.read path = .error .other) :
    d'.read path = .error .other :=
  h.grows.read_barred (fun x => (h.files x).symm ▸ id) barred

theorem Prepared.kept (h : Prepared d d') : Kept path d d' := by
  refine kept_of_reads (fun _ => h.read) h.read_barred fun bytes stored => ?_
  rw [← h.files, ← h.grows.here]
  exact Disk.file?_of_read stored

/-- A save stores the collection, or it keeps what is stored. -/
theorem ensures_save_kept : Ensures (save path c) d (fun _ d' => d'.read path = .ok c.text.toUTF8)
    (fun _ => Kept path d) := by
  rw [save_eq]
  refine (leaves_prepared.mono (fun _ _ => id) fun _ _ prepared => prepared.kept).bind ?_
  intro _ d₁ prepared
  have write (e : Error) :
      Ensures (attempt (Program.request (.write (temporary path) c.text.toUTF8)) e) d₁
        (fun _ d₂ => d₁.write (temporary path) c.text.toUTF8 = .ok d₂) (fun _ => Kept path d) :=
    ensures_change rfl (fun _ => id) fun _ _ => prepared.kept
  refine (write _).bind ?_
  intro _ d₂ written
  refine ensures_change rfl ?_ ?_
  · intro d₃ moved
    exact Disk.read_of_rename (Disk.read_of_write written) moved
  · intro fault failed
    -- Nothing can be read at the path, since the new file could replace it.
    have unread : ∀ bytes, d₂.read path ≠ .ok bytes := by
      intro bytes stored
      obtain ⟨d₃, moved⟩ := Disk.exists_rename (Disk.read_of_write written) stored
      cases failed.symm.trans moved
    refine kept_of_reads ?_ ?_ fun bytes stored => absurd stored (unread bytes)
    · intro bytes stored
      obtain ⟨bytes', later⟩ := Disk.exists_read_of_write written (prepared.read stored)
      exact absurd later (unread bytes')
    · intro barred
      exact (Disk.grows_write written).read_barred (Disk.isSome_file?_of_write written)
        (prepared.read_barred barred)

theorem ensures_create_definitions (newKey : Nat → String) (definitions : List Definition) :
    Ensures (create path newKey (definitions.map Word.ofDefinition)) d
      (fun es d' => es = (definitions.map Word.ofDefinition).mapIdx (fun n w => ⟨newKey n, w⟩) ∧
        ∃ c, Loaded path d c ∧ Loaded path d' (c.add es))
      (fun _ => Kept path d) := by
  unfold create
  refine Ensures.bind (ensures_loaded.mono (fun _ _ => id) ?_) ?_
  · rintro _ _ rfl
    exact kept_of_same rfl
  rintro c d₁ ⟨rfl, loaded⟩
  obtain ⟨readable, version, -⟩ := sound_of_loadOrEmpty loaded
  have new : (Operation.create newKey definitions).effect c = .ok (c.add _) := rfl
  obtain ⟨readable, same⟩ := Operation.sound_effect readable new
  refine ensures_save_kept.bind fun _ d₂ stored => ensures_pure ⟨rfl, c, loaded, ?_⟩
  exact loadOrEmpty_of_read stored readable (same ▸ version)

end Wordhoard.Store
