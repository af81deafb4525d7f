import Wordhoard.Proofs.Files.Beside
import Wordhoard.Proofs.Files.Failing
import Wordhoard.Proofs.Store.Atomic
import Wordhoard.Proofs.Store.Play

/-! What operations answer and leave when the collection that they load is known, and when their saves may
fail. Main statement: they store just the change that they tell of, or they fail with the error of the
save, and what is stored is the old collection or the new one. -/
namespace Wordhoard.Store

open Files (always_of_looks Always Disk Fault fileName? outcome outcome_bind_of_error
  outcome_bind_of_ok placeFrom Program stem Withstands withstands_pure)
open Files.Program (Ends)

variable {α ε : Type} {path key fragment : String} {c c' : Collection} {d d' : Disk} {e : Entry}
  {w : Word} {now : Time.Instant}

theorem entryOf_eq_ok_iff : entryOf c key = .ok e ↔ c.entry? key = some e := by
  unfold entryOf
  cases c.entry? key <;> simp

theorem entry?_eq_some_iff : c.entry? key = some ⟨key, w⟩ ↔ (key, w) ∈ c.records.toList := by
  simp [Collection.entry?, KeyMap.get?_eq_some_iff]

theorem exists_entry (mem : key ∈ c.records.keys) : ∃ w, c.entry? key = some ⟨key, w⟩ := by
  obtain ⟨e, found⟩ := exists_entryOf mem
  obtain rfl := key_of_entryOf found
  exact ⟨e.word, entryOf_eq_ok_iff.1 found⟩

theorem records_put (found : entryOf c key = .ok e) (f : Word → Word) :
    (c.put key (f e.word)).records.toList =
      c.records.toList.map fun p => (p.1, if key = p.1 then f p.2 else p.2) := by
  rw [toList_put (mem_keys_of_entryOf found), withValue_eq_map found f]

theorem put_same (found : entryOf c key = .ok e) : c.put key e.word = c := by
  have records : (c.put key e.word).records.toList = c.records.toList := by
    simpa using records_put found id
  have same : c.records.insert key e.word = c.records := KeyMap.ext records
  rw [Collection.put, same]

theorem looks_loadOrEmpty (path : String) : (loadOrEmpty path).run.Looks := by
  refine Files.looks_bind ⟨rfl, fun _ => trivial⟩ fun reply => ?_
  cases reply with
  | ok bytes => exact Files.looks_except _
  | error fault => cases fault <;> trivial

theorem looks_get (path key : String) : (get path key).run.Looks :=
  Files.looks_bind (looks_loadOrEmpty path) fun _ => Files.looks_except _

theorem looks_resolve (path fragment : String) : (resolve path fragment).run.Looks := by
  refine Files.looks_bind (looks_loadOrEmpty path) fun c => ?_
  cases c.resolve fragment <;> trivial

theorem always_load (loaded : Loaded path d c) : Always (loadOrEmpty path) d (.ok c) d :=
  always_of_looks (looks_loadOrEmpty path) loaded

theorem always_entryOf (found : entryOf c key = .ok e) :
    Always (liftM (entryOf c key) : Action Entry) d (.ok e) d := by
  rw [found]
  exact always_of_looks (Files.looks_except _) rfl

/-- The temporary file of a save is another one than the stored file. -/
def SavesBeside (path : String) : Prop := ∃ name, fileName? path = some name ∧ stem name ++ ".tmp" ≠ name

theorem withstands_attempt {p : Program (Except Fault Unit)} {error : Error} {ok : Unit → Disk → Prop}
    (saving : error.ofSave = true) (each : ∀ failed reply d', Ends p d failed reply d' →
      failed = false ∧ reply = .ok () ∧ ok () d' ∨ failed = true ∧ ∃ fault, reply = .error fault) :
    Withstands (attempt p error) d ok fun e _ => e.ofSave = true := by
  intro failed answer d' ends
  obtain ⟨first, second, r, d₁, begins, goes, rfl⟩ := Ends.of_bind ends
  obtain ⟨third, fourth, reply, d₂, asks, wraps, rfl⟩ := Ends.of_bind begins
  cases wraps
  rcases each _ _ _ asks with ⟨rfl, rfl, holds⟩ | ⟨rfl, fault, rfl⟩
  · cases goes
    exact .inl ⟨(), rfl, rfl, holds⟩
  · cases goes
    exact .inr ⟨error, rfl, rfl, saving⟩

theorem withstands_prepare (path : String) (d : Disk) :
    Withstands (prepare path) d (fun _ _ => True) fun e _ => e.ofSave = true := by
  unfold prepare
  split
  · refine withstands_attempt rfl fun _ _ _ ends => ?_
    exact ends.of_createDirectories.imp_left fun ⟨fine, same⟩ => ⟨fine, same, trivial⟩
  · exact withstands_pure trivial

theorem withstands_write {target : String} {content : ByteArray} {error : Error}
    (saving : error.ofSave = true) :
    Withstands (attempt (Program.request (.write target content)) error) d
      (fun _ d' => d.write target content = .ok d') fun e _ => e.ofSave = true :=
  withstands_attempt saving fun _ _ _ ends => ends.of_write

theorem withstands_rename {source target : String} {error : Error} (saving : error.ofSave = true) :
    Withstands (attempt (Program.request (.rename source target)) error) d
      (fun _ d' => d.rename source target = .ok d') fun e _ => e.ofSave = true :=
  withstands_attempt saving fun _ _ _ ends => ends.of_rename

/-- Whatever is there and whatever fails. -/
theorem withstands_save (path : String) (c : Collection) (d : Disk) : Withstands (save path c) d
    (fun _ d' => d'.read path = .ok c.text.toUTF8)
    (fun e d' => e.ofSave = true ∧ (SavesBeside path → Whole path c.text.toUTF8 d d')) := by
  have steps : Withstands (save path c) d (fun _ d' => d'.read path = .ok c.text.toUTF8)
      (fun e _ => e.ofSave = true) := by
    rw [save_eq]
    refine (withstands_prepare path d).bind fun _ d₁ _ => ?_
    refine (withstands_write rfl).bind fun _ d₂ written => ?_
    exact (withstands_rename rfl).mono
      (fun _ d₃ => Disk.read_of_rename (Disk.read_of_write written)) fun _ _ => id
  refine steps.of_stops (P := fun d' => SavesBeside path → Whole path c.text.toUTF8 d d') ?_
  rintro answer d' stops ⟨name, named, other⟩
  exact (safe_save named other _ _ stops).1

theorem Loaded.congr (h : Loaded path d c) (same : d'.read path = d.read path) : Loaded path d' c := by
  rw [Loaded, loadOrEmpty_eq] at h ⊢
  rw [same, (Prod.mk.inj h).1]

theorem Loaded.exists_read (loaded : Loaded path d c) (mem : key ∈ c.records.keys) :
    ∃ bytes, d.read path = .ok bytes := by
  rw [Loaded, loadOrEmpty_eq] at loaded
  cases read : d.read path with
  | ok bytes => exact ⟨bytes, rfl⟩
  | error fault =>
    rw [read] at loaded
    cases fault with
    | missing =>
      cases loaded
      cases mem
    | other => cases loaded

/-- How an operation fails that cannot save. With a temporary file of its own it leaves the old
collection, or the new one if only the answer to its last request was lost. -/
def Unsaved (path : String) (c c' : Collection) (e : Error) (d' : Disk) : Prop :=
  e.ofSave = true ∧ (SavesBeside path → Loaded path d' c ∨ Loaded path d' c')

theorem withstands_save_loaded (loaded : Loaded path d c) (mem : key ∈ c.records.keys)
    (readable : c'.Readable) (same : c'.version = c.version) :
    Withstands (save path c') d (fun _ d' => Loaded path d' c') (Unsaved path c c') := by
  obtain ⟨-, version, -⟩ := sound_of_loadOrEmpty loaded
  obtain ⟨bytes, read⟩ := loaded.exists_read mem
  have later {d' : Disk} (stored : d'.read path = .ok c'.text.toUTF8) : Loaded path d' c' :=
    loadOrEmpty_of_read stored readable (same ▸ version)
  refine (withstands_save path c' d).mono (fun _ _ => later) ?_
  rintro e d' ⟨saving, whole⟩
  refine ⟨saving, fun beside => ?_⟩
  rcases (whole beside).read read with old | new
  · exact .inl (loaded.congr (old.trans read.symm))
  · exact .inr (later new)

theorem withstands_update_of_entry {definition : Definition} (loaded : Loaded path d c)
    (found : entryOf c key = .ok e) : Withstands (update path key definition) d
      (fun answer d' => answer = ⟨key, e.word.redefine definition⟩ ∧
        Loaded path d' (c.put key (e.word.redefine definition)))
      (Unsaved path c (c.put key (e.word.redefine definition))) := by
  obtain ⟨readable, -, -⟩ := sound_of_loadOrEmpty loaded
  have word : (e.word.redefine definition).Readable := readable.words _ (Operation.mem_of_entryOf found)
  refine (always_load loaded).bind_withstands ((always_entryOf found).bind_withstands ?_)
  refine (withstands_save_loaded loaded (mem_keys_of_entryOf found)
    (Operation.readable_put readable word) rfl).bind fun _ d' later => ?_
  exact withstands_pure ⟨rfl, later⟩

/-- A review that does not count saves nothing, so that nothing can fail. -/
theorem withstands_review_of_entry (valid : now.isValid) (loaded : Loaded path d c)
    (found : entryOf c key = .ok e) : Withstands (review path key now) d
      (fun answer d' => answer = (⟨key, (e.word.review now).2⟩, (e.word.review now).1) ∧
        Loaded path d' (c.put key (e.word.review now).2))
      (Unsaved path c (c.put key (e.word.review now).2)) := by
  obtain ⟨readable, -, -⟩ := sound_of_loadOrEmpty loaded
  refine (always_load loaded).bind_withstands ((always_entryOf found).bind_withstands ?_)
  cases counted : (e.word.review now).1 with
  | false =>
    have same := snd_review_of_not_counted counted
    simp only [counted, same, put_same found]
    exact withstands_pure ⟨rfl, loaded⟩
  | true =>
    have word := Operation.readable_review (readable.words _ (Operation.mem_of_entryOf found)) valid
    simp only [counted, if_true]
    refine (withstands_save_loaded loaded (mem_keys_of_entryOf found)
      (Operation.readable_put readable word) rfl).bind fun _ d' later => ?_
    exact withstands_pure ⟨rfl, later⟩

theorem withstands_remove_of_entry (loaded : Loaded path d c) (found : entryOf c key = .ok e) :
    Withstands (remove path key) d (fun answer d' => answer = e ∧ Loaded path d' (c.erase key))
      (Unsaved path c (c.erase key)) := by
  obtain ⟨readable, -, -⟩ := sound_of_loadOrEmpty loaded
  have erased : (c.erase key).Readable :=
    ⟨fun p mem => readable.words p (List.mem_filter.1 mem).1, readable.session⟩
  refine (always_load loaded).bind_withstands ((always_entryOf found).bind_withstands ?_)
  refine (withstands_save_loaded loaded (mem_keys_of_entryOf found) erased rfl).bind fun _ d' later => ?_
  exact withstands_pure ⟨rfl, later⟩

/-- A directory lies where the temporary file of a save would. -/
def Blocked (path : String) (d : Disk) : Prop :=
  d.node? (placeFrom d.here (temporary path)) = some .directory

theorem outcome_write_of_error {target : String} {content : ByteArray} {error : Error} {fault : Fault}
    (refused : d.write target content = .error fault) :
    outcome (attempt (Program.request (.write target content)) error) d =
      (.error error, d) := by
  have run : (Program.request (.write target content)).run d = (.error fault, d) :=
    congrArg (Files.changed d) refused
  rw [outcome_attempt, run]
  rfl

section Blocked

variable {bytes : ByteArray} (stored : d.read path = .ok bytes)
include stored

theorem outcome_prepare : outcome (prepare path) d = (.ok (), d) := by
  obtain ⟨p, found, -⟩ := Disk.read_eq_ok stored
  unfold prepare
  split
  · rename_i directory lies
    have made : (Program.request (.createDirectories directory)).run d = (.ok (), d) :=
      Disk.createDirectories_parent found lies
    rw [outcome_attempt, made]
    rfl
  · rfl

theorem locate_temporary : d.locate (temporary path) = .ok (placeFrom d.here (temporary path)) := by
  obtain ⟨p, found, -⟩ := Disk.read_eq_ok stored
  obtain ⟨q, beside⟩ := Disk.exists_locate_withExtension extends_tmp found
  rw [temporary, ← Disk.placeFrom_of_locate beside]
  exact beside

theorem outcome_save_of_blocked (blocked : Blocked path d) (c : Collection) :
    outcome (save path c) d = (.error (.write (temporary path)), d) := by
  have refused : d.write (temporary path) c.text.toUTF8 = .error .other := by
    simp only [Disk.write, locate_temporary stored, bind, Except.bind]
    rw [blocked]
  rw [save_eq, outcome_bind_of_ok (outcome_prepare stored),
    outcome_bind_of_error (outcome_write_of_error refused)]

end Blocked

theorem outcome_of_blocked (f : Collection → Entry → Collection) (answer : Collection → Entry → α)
    (loaded : Loaded path d c) (found : entryOf c key = .ok e) (blocked : Blocked path d) :
    outcome (do
      let c ← loadOrEmpty path
      let e ← entryOf c key
      save path (f c e)
      return answer c e) d = (.error (.write (temporary path)), d) := by
  obtain ⟨bytes, read⟩ := loaded.exists_read (mem_keys_of_entryOf found)
  rw [Operation.outcome_of_entry _ loaded found]
  exact outcome_bind_of_error (outcome_save_of_blocked read blocked _)

theorem outcome_update_of_blocked (loaded : Loaded path d c) (found : entryOf c key = .ok e)
    (definition : Definition) (blocked : Blocked path d) :
    outcome (update path key definition) d = (.error (.write (temporary path)), d) :=
  outcome_of_blocked (fun c e => c.put key (e.word.redefine definition))
    (fun _ e => (⟨key, e.word.redefine definition⟩ : Entry)) loaded found blocked

theorem outcome_remove_of_blocked (loaded : Loaded path d c) (found : entryOf c key = .ok e)
    (blocked : Blocked path d) :
    outcome (remove path key) d = (.error (.write (temporary path)), d) :=
  outcome_of_blocked (fun c _ => c.erase key) (fun _ e => e) loaded found blocked

theorem outcome_review_of_blocked (loaded : Loaded path d c) (found : entryOf c key = .ok e)
    (counted : (e.word.review now).1 = true) (blocked : Blocked path d) :
    outcome (review path key now) d = (.error (.write (temporary path)), d) := by
  obtain ⟨bytes, read⟩ := loaded.exists_read (mem_keys_of_entryOf found)
  rw [Operation.outcome_review loaded found, counted, if_pos rfl]
  exact outcome_bind_of_error (outcome_save_of_blocked read blocked _)

def blocked (c : Collection) : Disk :=
  { nodes := [(["words.json"], .file c.text.toUTF8), (["words.tmp"], .directory)] }

def sea : Collection := ({} : Collection).put "a1" { content := [.plain "sea"] }

theorem readable_sea : sea.Readable := Operation.readable_put readable_empty nofun

theorem loaded_alone_sea : Loaded "words.json" (alone sea) sea := load_alone readable_sea (by decide)

theorem outcome_of_alone (f : Collection → Entry → Collection) (answer : Collection → Entry → α)
    (loaded : Loaded "words.json" (alone c) c) (found : entryOf c key = .ok e) :
    outcome (do
      let c ← loadOrEmpty "words.json"
      let e ← entryOf c key
      save "words.json" (f c e)
      return answer c e) (alone c) = (.ok (answer c e), alone (f c e)) := by
  rw [Operation.outcome_of_entry _ loaded found]
  exact outcome_bind_of_ok (save_alone c (f c e))

theorem outcome_update_of_alone (loaded : Loaded "words.json" (alone c) c)
    (found : entryOf c key = .ok e) (definition : Definition) :
    outcome (update "words.json" key definition) (alone c) =
      (.ok ⟨key, e.word.redefine definition⟩, alone (c.put key (e.word.redefine definition))) :=
  outcome_of_alone (fun c e => c.put key (e.word.redefine definition))
    (fun _ e => (⟨key, e.word.redefine definition⟩ : Entry)) loaded found

theorem outcome_remove_of_alone (loaded : Loaded "words.json" (alone c) c)
    (found : entryOf c key = .ok e) :
    outcome (remove "words.json" key) (alone c) = (.ok e, alone (c.erase key)) :=
  outcome_of_alone (fun c _ => c.erase key) (fun _ e => e) loaded found

theorem outcome_review_of_alone (loaded : Loaded "words.json" (alone c) c)
    (found : entryOf c key = .ok e) : outcome (review "words.json" key now) (alone c) =
      (.ok (⟨key, (e.word.review now).2⟩, (e.word.review now).1),
        alone (c.put key (e.word.review now).2)) := by
  rw [Operation.outcome_review loaded found]
  cases counted : (e.word.review now).1 with
  | false => rw [if_neg Bool.false_ne_true, snd_review_of_not_counted counted, put_same found]
  | true =>
    rw [if_pos rfl]
    exact outcome_bind_of_ok (save_alone c _)

theorem loaded_blocked_sea : Loaded "words.json" (blocked sea) sea := by
  have read : (blocked sea).read "words.json" = .ok sea.text.toUTF8 := rfl
  exact loadOrEmpty_of_read read readable_sea (by decide)

theorem blocked_sea : Blocked "words.json" (blocked sea) := by
  have place : placeFrom [] (temporary "words.json") = ["words.tmp"] := by decide +kernel
  have here : (blocked sea).here = [] := rfl
  rw [Blocked, here, place]
  rfl

end Wordhoard.Store
