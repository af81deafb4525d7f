import Wordhoard.Proofs.Store.Saved

/-! The operations on the stored records as changes of the collection. Main statement: an operation
either fails and leaves what is stored, or what is loaded after it is the changed collection. -/
namespace Wordhoard.Store

open Files (Disk Program outcome)

/-- An operation with what is given to it. Words are created from definitions, so no review of them is
known yet. -/
inductive Operation where
  | create (newKey : Nat → String) (definitions : List Definition)
  | review (key : String) (now : Time.Instant) (valid : now.isValid)
  | update (key : String) (definition : Definition)
  | remove (key : String)
  | resetSession (now : Time.Instant) (valid : now.isValid)
  | list (keep : Word → Bool)
  | get (key : String)
  | size
  | resolve (fragment : String)
  | exportText

variable {path key fragment : String} {c c' : Collection} {d d' : Disk} {op : Operation}

theorem outcome_get (stored : outcome (loadOrEmpty path) d = (.ok c, d)) :
    outcome (get path key) d = (entryOf c key, d) := by
  have next : outcome (get path key) d = outcome _ d := Files.outcome_bind_of_ok stored
  rw [next]
  cases entryOf c key <;> rfl

theorem outcome_resolve (stored : outcome (loadOrEmpty path) d = (.ok c, d)) :
    outcome (resolve path fragment) d = ((c.resolve fragment).mapError .key, d) := by
  have next : outcome (resolve path fragment) d = outcome _ d := Files.outcome_bind_of_ok stored
  rw [next]
  cases c.resolve fragment <;> rfl

namespace Operation

def run (path : String) : Operation → Action Unit
  | create newKey definitions => do
    let _ ← Store.create path newKey (definitions.map Word.ofDefinition)
  | review key now _ => do let _ ← Store.review path key now
  | update key definition => do let _ ← Store.update path key definition
  | remove key => do let _ ← Store.remove path key
  | resetSession now _ => Store.resetSession path now
  | list keep => do let _ ← Store.list path keep
  | get key => do let _ ← Store.get path key
  | size => do let _ ← Store.size path
  | resolve fragment => do let _ ← Store.resolve path fragment
  | exportText => do let _ ← Store.exportText path

def effect (c : Collection) : Operation → Except Error Collection
  | create newKey definitions =>
    .ok (c.add ((definitions.map Word.ofDefinition).mapIdx fun n w => ⟨newKey n, w⟩))
  | review key now _ => (entryOf c key).map fun e =>
    if (e.word.review now).1 then c.put key (e.word.review now).2 else c
  | update key definition => (entryOf c key).map fun e => c.put key (e.word.redefine definition)
  | remove key => (entryOf c key).map fun _ => c.erase key
  | resetSession now _ => .ok (c.startSession now)
  | get key => (entryOf c key).map fun _ => c
  | resolve fragment => ((c.resolve fragment).mapError Error.key).map fun _ => c
  | list _ => .ok c
  | size => .ok c
  | exportText => .ok c

section Entries

variable {α : Type} {key : String} (g : Collection → Entry → Action α)

theorem outcome_of_no_entry (stored : outcome (loadOrEmpty path) d = (.ok c, d)) {e : Error}
    (missing : entryOf c key = .error e) :
    outcome (do let c ← loadOrEmpty path; let e ← entryOf c key; g c e) d = (.error e, d) := by
  rw [Files.outcome_bind_of_ok stored, missing]
  rfl

theorem outcome_of_entry (stored : outcome (loadOrEmpty path) d = (.ok c, d)) {e : Entry}
    (found : entryOf c key = .ok e) :
    outcome (do let c ← loadOrEmpty path; let e ← entryOf c key; g c e) d = outcome (g c e) d := by
  rw [Files.outcome_bind_of_ok stored, found]
  rfl

theorem outcome_review (stored : outcome (loadOrEmpty path) d = (.ok c, d)) {e : Entry}
    (found : entryOf c key = .ok e) (now : Time.Instant) :
    outcome (Store.review path key now) d =
      if (e.word.review now).1 then
        outcome (do
          save path (c.put key (e.word.review now).2)
          return (⟨key, (e.word.review now).2⟩, true)) d
      else (.ok (⟨key, (e.word.review now).2⟩, false), d) := by
  have goes : outcome (Store.review path key now) d = outcome _ d := outcome_of_entry _ stored found
  rw [goes]
  cases counted : (e.word.review now).1 with
  | false =>
    simp only [counted]
    rfl
  | true =>
    simp only [counted]
    rfl

end Entries

/-- Everything an operation can do: fail, leave what is stored, or save what it makes of it. -/
theorem run_cases (stored : outcome (loadOrEmpty path) d = (.ok c, d)) (op : Operation) :
    (∃ e, op.effect c = .error e ∧ outcome (op.run path) d = (.error e, d)) ∨
    (op.effect c = .ok c ∧ outcome (op.run path) d = (.ok (), d)) ∨
    ∃ c', op.effect c = .ok c' ∧ outcome (op.run path) d = outcome (save path c') d := by
  have loaded {α : Type} (f : Collection → Action α) :
      outcome (loadOrEmpty path >>= f) d = outcome (f c) d := Files.outcome_bind_of_ok stored
  cases op with
  | create newKey definitions =>
    exact .inr (.inr ⟨_, rfl, Files.outcome_ignore (loaded _)⟩)
  | review key now valid =>
    cases found : entryOf c key with
    | error e =>
      exact .inl ⟨e, by rw [effect, found]; rfl,
        Files.outcome_bind_of_error (outcome_of_no_entry _ stored found)⟩
    | ok e =>
      have goes := outcome_review stored found now
      cases counted : (e.word.review now).1 with
      | false =>
        rw [counted, if_neg Bool.false_ne_true] at goes
        refine .inr (.inl ⟨?_, Files.outcome_bind_of_ok goes⟩)
        rw [effect, found, Except.map, counted, if_neg Bool.false_ne_true]
      | true =>
        rw [counted, if_pos rfl] at goes
        refine .inr (.inr ⟨_, ?_, Files.outcome_ignore goes⟩)
        rw [effect, found, Except.map, counted, if_pos rfl]
  | update key definition =>
    cases found : entryOf c key with
    | error e =>
      exact .inl ⟨e, by rw [effect, found]; rfl,
        Files.outcome_bind_of_error (outcome_of_no_entry _ stored found)⟩
    | ok e =>
      exact .inr (.inr ⟨_, by rw [effect, found]; rfl,
        Files.outcome_ignore (outcome_of_entry _ stored found)⟩)
  | remove key =>
    cases found : entryOf c key with
    | error e =>
      exact .inl ⟨e, by rw [effect, found]; rfl,
        Files.outcome_bind_of_error (outcome_of_no_entry _ stored found)⟩
    | ok e =>
      exact .inr (.inr ⟨_, by rw [effect, found]; rfl,
        Files.outcome_ignore (outcome_of_entry _ stored found)⟩)
  | resetSession now valid => exact .inr (.inr ⟨_, rfl, loaded _⟩)
  | list keep => exact .inr (.inl ⟨rfl, Files.outcome_bind_of_ok (loaded _)⟩)
  | get key =>
    have gets : outcome (Store.get path key) d = (entryOf c key, d) := outcome_get stored
    cases found : entryOf c key with
    | error e =>
      rw [found] at gets
      exact .inl ⟨e, by rw [effect, found]; rfl, Files.outcome_bind_of_error gets⟩
    | ok e =>
      rw [found] at gets
      exact .inr (.inl ⟨by rw [effect, found]; rfl, Files.outcome_bind_of_ok gets⟩)
  | size => exact .inr (.inl ⟨rfl, Files.outcome_bind_of_ok (loaded _)⟩)
  | resolve fragment =>
    have resolves : outcome (Store.resolve path fragment) d =
        ((c.resolve fragment).mapError .key, d) := outcome_resolve stored
    cases found : c.resolve fragment with
    | error e =>
      rw [found] at resolves
      exact .inl ⟨.key e, by rw [effect, found]; rfl, Files.outcome_bind_of_error resolves⟩
    | ok key =>
      rw [found] at resolves
      exact .inr (.inl ⟨by rw [effect, found]; rfl, Files.outcome_bind_of_ok resolves⟩)
  | exportText => exact .inr (.inl ⟨rfl, Files.outcome_bind_of_ok (loaded _)⟩)

theorem readable_put {key : String} {w : Word} (h : c.Readable) (readable : w.Readable) :
    (c.put key w).Readable where
  words p mem := by
    rcases mem_of_mem_putOrdered mem with rfl | old
    · exact readable
    · exact h.words p old
  session := h.session

theorem sound_add {entries : List Entry} (h : c.Readable)
    (each : ∀ e ∈ entries, e.word.Readable) :
    (c.add entries).Readable ∧ (c.add entries).version = c.version := by
  induction entries generalizing c with
  | nil => exact ⟨h, rfl⟩
  | cons e others ih =>
    obtain ⟨first, further⟩ := List.forall_mem_cons.1 each
    exact ih (readable_put h first) further

theorem mem_of_entryOf {key : String} {e : Entry} (found : entryOf c key = .ok e) :
    (key, e.word) ∈ c.records.toList := by
  unfold entryOf at found
  split at found
  · rename_i e' here
    cases found
    obtain ⟨w, get, rfl⟩ := Option.map_eq_some_iff.1 here
    exact KeyMap.get?_eq_some_iff.1 get
  · cases found

theorem exists_of_map_eq_ok {ε α β : Type} {x : Except ε α} {f : α → β} {b : β}
    (h : x.map f = .ok b) : ∃ a, x = .ok a ∧ f a = b := by
  cases x with
  | error e => cases h
  | ok a => exact ⟨a, rfl, Except.ok.inj h⟩

theorem readable_review {w : Word} (h : w.Readable) {now : Time.Instant} (valid : now.isValid) :
    (w.review now).2.Readable := by
  unfold Word.review
  split
  · exact h
  · intro t last
    cases last
    exact Time.Instant.exists_read?_iff.2 valid

theorem sound_effect (h : c.Readable) (changes : op.effect c = .ok c') :
    c'.Readable ∧ c'.version = c.version := by
  cases op with
  | create newKey definitions =>
    cases changes
    refine sound_add h fun e mem => ?_
    obtain ⟨n, inside, rfl⟩ := List.exists_of_mem_mapIdx mem
    rw [List.getElem_map]
    exact nofun
  | review key now valid =>
    obtain ⟨e, found, rfl⟩ := exists_of_map_eq_ok changes
    split
    · have old := h.words _ (mem_of_entryOf found)
      exact ⟨readable_put h (readable_review old valid), rfl⟩
    · exact ⟨h, rfl⟩
  | update key definition =>
    obtain ⟨e, found, rfl⟩ := exists_of_map_eq_ok changes
    exact ⟨readable_put h (h.words _ (mem_of_entryOf found)), rfl⟩
  | remove key =>
    obtain ⟨e, found, rfl⟩ := exists_of_map_eq_ok changes
    exact ⟨⟨fun p mem => h.words p (List.mem_filter.1 mem).1, h.session⟩, rfl⟩
  | resetSession now valid =>
    cases changes
    refine ⟨⟨fun p mem => ?_, fun t started => ?_⟩, rfl⟩
    · obtain ⟨q, old, rfl⟩ := List.mem_map.1 mem
      exact h.words q old
    · cases started
      exact Time.Instant.exists_read?_iff.2 valid
  | list keep =>
    cases changes
    exact ⟨h, rfl⟩
  | get key =>
    obtain ⟨e, -, rfl⟩ := exists_of_map_eq_ok changes
    exact ⟨h, rfl⟩
  | size =>
    cases changes
    exact ⟨h, rfl⟩
  | resolve fragment =>
    obtain ⟨key, -, rfl⟩ := exists_of_map_eq_ok changes
    exact ⟨h, rfl⟩
  | exportText =>
    cases changes
    exact ⟨h, rfl⟩

end Operation

def Error.ofSave : Error → Bool
  | write _ => true
  | createDirectory _ => true
  | _ => false

theorem error_of_prepare {e : Error} (h : outcome (prepare path) d = (.error e, d')) :
    e.ofSave = true := by
  unfold prepare at h
  split at h
  · rw [error_of_attempt h]
    rfl
  · cases h

theorem error_of_save {e : Error} (h : outcome (save path c) d = (.error e, d')) :
    e.ofSave = true := by
  rw [save_eq] at h
  rcases Files.outcome_error_of_bind h with here | ⟨⟨⟩, d₁, -, h⟩
  · exact error_of_prepare here
  rcases Files.outcome_error_of_bind h with here | ⟨⟨⟩, d₂, -, later⟩
  · rw [error_of_attempt here]
    rfl
  · rw [error_of_attempt later]
    rfl

theorem run_step {result : Except Error Unit} (stored : outcome (loadOrEmpty path) d = (.ok c, d))
    (run : outcome (op.run path) d = (result, d'))
    (saves : ∀ e, result = .error e → e.ofSave = false) :
    (∃ e, op.effect c = .error e ∧ result = .error e ∧ d' = d) ∨
    ∃ c', op.effect c = .ok c' ∧ result = .ok () ∧ outcome (loadOrEmpty path) d' = (.ok c', d') := by
  obtain ⟨readable, version, -⟩ := sound_of_loadOrEmpty stored
  rcases op.run_cases stored with ⟨e, fails, same⟩ | ⟨idle, same⟩ | ⟨c', changes, same⟩
  · cases run.symm.trans same
    exact .inl ⟨e, fails, rfl, rfl⟩
  · cases run.symm.trans same
    exact .inr ⟨c, idle, rfl, stored⟩
  · have saved := same.symm.trans run
    cases result with
    | error e => exact absurd (error_of_save saved) (by rw [saves e rfl]; exact Bool.false_ne_true)
    | ok =>
      obtain ⟨readable', version'⟩ := Operation.sound_effect readable changes
      exact .inr ⟨c', changes, rfl,
        loadOrEmpty_of_read (read_of_save saved) readable' (version' ▸ version)⟩

end Wordhoard.Store
