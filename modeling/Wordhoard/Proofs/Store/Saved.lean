import Wordhoard.Proofs.Collection.Json
import Wordhoard.Proofs.Files.Disk
import Wordhoard.Proofs.Files.Program
import Wordhoard.Store.Query

/-! What was saved is loaded, and exported as a text that is read as what is stored. -/
namespace Wordhoard.Store

open Files (Disk Fault Program outcome)

variable {α : Type} {path : String} {c : Collection} {d d' : Disk}

theorem outcome_attempt (p : Program (Except Fault α)) (e : Error) (d : Disk) :
    outcome (attempt p e) d = ((p.run d).1.mapError fun _ => e, (p.run d).2) := by
  have next : outcome (attempt p e) d = outcome _ (p.run d).2 :=
    Files.outcome_bind_of_ok (Files.outcome_lift p d)
  rw [next]
  cases (p.run d).1 <;> rfl

theorem run_of_attempt {p : Program (Except Fault α)} {x : α} {e : Error}
    (h : outcome (attempt p e) d = (.ok x, d')) : p.run d = (.ok x, d') := by
  rw [outcome_attempt] at h
  generalize p.run d = answer at h ⊢
  rcases answer with ⟨f | y, d₁⟩
  · cases h
  · cases h
    rfl

theorem error_of_attempt {p : Program (Except Fault α)} {e e' : Error}
    (h : outcome (attempt p e) d = (.error e', d')) : e' = e := by
  rw [outcome_attempt] at h
  generalize p.run d = answer at h
  rcases answer with ⟨f | y, d₁⟩
  · cases h
    rfl
  · cases h

def prepare (path : String) : Action Unit :=
  match Files.parent? path with
  | some directory =>
    attempt (Program.request (.createDirectories directory)) (.createDirectory directory)
  | none => pure ()

theorem save_eq : save path c = (do
    prepare path
    attempt (Program.request (.write (temporary path) c.text.toUTF8)) (.write (temporary path))
    attempt (Program.request (.rename (temporary path) path)) (.write path)) := by
  unfold save prepare
  cases Files.parent? path with
  | some directory => rfl
  | none => rfl

theorem changed_eq_ok {change : Except Fault Disk} (h : Files.changed d change = (.ok (), d')) :
    change = .ok d' := by
  cases change with
  | ok d₁ =>
    cases h
    rfl
  | error e => cases h

theorem write_of_attempt {content : ByteArray} {e : Error}
    (h : outcome (attempt (Program.request (.write path content)) e) d = (.ok (), d')) :
    d.write path content = .ok d' :=
  changed_eq_ok (run_of_attempt h)

theorem rename_of_attempt {source : String} {e : Error}
    (h : outcome (attempt (Program.request (.rename source path)) e) d = (.ok (), d')) :
    d.rename source path = .ok d' :=
  changed_eq_ok (run_of_attempt h)

theorem read_of_replace {source : String} {content : ByteArray} {e e' : Error}
    (h : outcome (do
        attempt (Program.request (.write source content)) e
        attempt (Program.request (.rename source path)) e') d = (.ok (), d')) :
    d'.read path = .ok content := by
  obtain ⟨⟨⟩, d₁, written, moved⟩ := Files.outcome_of_bind h
  exact Disk.read_of_rename (Disk.read_of_write (write_of_attempt written))
    (rename_of_attempt moved)

theorem read_of_save (h : outcome (save path c) d = (.ok (), d')) :
    d'.read path = .ok c.text.toUTF8 := by
  rw [save_eq] at h
  obtain ⟨⟨⟩, d₁, -, replaced⟩ := Files.outcome_of_bind h
  exact read_of_replace replaced

theorem fromUTF8?_toUTF8 (s : String) : String.fromUTF8? s.toUTF8 = some s := by
  simp only [String.fromUTF8?, String.toUTF8_eq_toByteArray, dif_pos s.isValidUTF8]
  rfl

theorem decode_text (h : c.Readable) (version : c.version ≤ currentVersion) :
    decode path c.text.toUTF8 = .ok c := by
  have old : ¬ currentVersion < c.version := UInt32.not_lt.2 version
  simp only [decode, fromUTF8?_toUTF8, Collection.read?_text h, if_neg old]

theorem load_of_read (stored : d.read path = .ok c.text.toUTF8) (h : c.Readable)
    (version : c.version ≤ currentVersion) : outcome (load path) d = (.ok c, d) := by
  have run : (Program.request (.read path)).run d = (.ok c.text.toUTF8, d) :=
    Prod.ext stored rfl
  have read := outcome_attempt (Program.request (.read path)) (.read path) d
  rw [run] at read
  unfold load
  rw [Files.outcome_bind_of_ok read, decode_text h version]
  rfl

theorem loadOrEmpty_eq (path : String) (d : Disk) : outcome (loadOrEmpty path) d =
    ((match d.read path with
      | .error .missing => .ok {}
      | .error .other => .error (.read path)
      | .ok bytes => decode path bytes), d) := by
  have read : outcome (ExceptT.lift (Program.request (.read path)) : Action _) d =
      (.ok (d.read path), d) := rfl
  have next : outcome (loadOrEmpty path) d = outcome _ d := Files.outcome_bind_of_ok read
  rw [next]
  cases d.read path with
  | ok bytes =>
    dsimp only
    cases decode path bytes <;> rfl
  | error e => cases e <;> rfl

theorem loadOrEmpty_of_read (stored : d.read path = .ok c.text.toUTF8) (h : c.Readable)
    (version : c.version ≤ currentVersion) : outcome (loadOrEmpty path) d = (.ok c, d) := by
  simp only [loadOrEmpty_eq, stored, decode_text h version]

theorem loadOrEmpty_of_missing (h : d.read path = .error .missing) :
    outcome (loadOrEmpty path) d = (.ok {}, d) := by
  rw [loadOrEmpty_eq, h]

theorem sound_of_decode {bytes : ByteArray} (h : decode path bytes = .ok c) :
    c.Readable ∧ c.version ≤ currentVersion := by
  unfold decode at h
  split at h
  · cases h
  split at h
  · cases h
  rename_i read
  split at h
  · cases h
  · rename_i old
    cases h
    exact ⟨Collection.readable_of_read? read, UInt32.not_lt.1 old⟩

theorem readable_empty : ({} : Collection).Readable := ⟨nofun, nofun⟩

theorem sound_of_loadOrEmpty (h : outcome (loadOrEmpty path) d = (.ok c, d')) :
    c.Readable ∧ c.version ≤ currentVersion ∧ d' = d := by
  rw [loadOrEmpty_eq] at h
  obtain ⟨result, rfl⟩ := Prod.mk.inj h
  split at result
  · cases result
    exact ⟨readable_empty, by decide, rfl⟩
  · cases result
  · obtain ⟨readable, version⟩ := sound_of_decode result
    exact ⟨readable, version, rfl⟩

end Wordhoard.Store
