import Wordhoard.Proofs.Files.Ensures
import Wordhoard.Proofs.Store.Operation

/-! What operations on the stored records leave behind when they fail. Main statement: an operation that
fails could not save, or it left the disk as it was. -/
namespace Wordhoard.Store

open Files (Disk Ensures ensures_except ensures_of_error ensures_of_ok ensures_of_outcome ensures_pure
  ensures_throw Leaves outcome Program Undone)

variable {α : Type} {path key fragment : String} {c c' : Collection} {d d' : Disk} {now : Time.Instant}
  {f : Collection → Action α} {ok : α → Disk → Prop} {fail : Error → Disk → Prop}

def Loaded (path : String) (d : Disk) (c : Collection) : Prop :=
  outcome (loadOrEmpty path) d = (.ok c, d)

def Unread (path : String) (d : Disk) : Prop := ∀ c, ¬ Loaded path d c

def Stored (path : String) (d : Disk) (key : String) : Prop :=
  ∃ c, Loaded path d c ∧ key ∈ c.records.keys

theorem Loaded.unique (h : Loaded path d c) (h' : Loaded path d c') : c = c' :=
  Except.ok.inj (Prod.mk.inj (h.symm.trans h')).1

theorem disk_of_load {result : Except Error Collection}
    (run : outcome (loadOrEmpty path) d = (result, d')) : d' = d := by
  rw [loadOrEmpty_eq] at run
  exact (Prod.mk.inj run).2.symm

theorem ensures_loadOrEmpty :
    Ensures (loadOrEmpty path) d (fun c d' => d' = d ∧ Loaded path d c)
      (fun _ d' => d' = d ∧ Unread path d) := by
  refine ensures_of_outcome (fun c d' run => ?_) fun e d' run => ?_
  · obtain rfl := disk_of_load run
    exact ⟨rfl, run⟩
  · obtain rfl := disk_of_load run
    refine ⟨rfl, fun c loaded => ?_⟩
    cases run.symm.trans loaded

theorem ensures_loaded :
    Ensures (loadOrEmpty path) d (fun c d' => d' = d ∧ Loaded path d c) (fun _ d' => d' = d) :=
  ensures_loadOrEmpty.mono (fun _ _ => id) fun _ _ => And.left

theorem ensures_view (g : Collection → α) :
    Ensures (do return g (← loadOrEmpty path)) d
      (fun x d' => d' = d ∧ ∃ c, Loaded path d c ∧ g c = x)
      (fun _ d' => d' = d ∧ Unread path d) := by
  refine ensures_loadOrEmpty.bind ?_
  rintro c d' ⟨rfl, loaded⟩
  exact ensures_pure ⟨rfl, c, loaded, rfl⟩

theorem ensures_list {keep : Word → Bool} :
    Ensures (list path keep) d
      (fun es d' => d' = d ∧ ∃ c, Loaded path d c ∧ c.entries.filter (fun e => keep e.word) = es)
      (fun _ d' => d' = d ∧ Unread path d) :=
  ensures_view fun c => c.entries.filter fun e : Entry => keep e.word

theorem ensures_size :
    Ensures (size path) d (fun n d' => d' = d ∧ ∃ c, Loaded path d c ∧ c.size = n)
      (fun _ d' => d' = d ∧ Unread path d) :=
  ensures_view Collection.size

theorem ensures_exportText :
    Ensures (exportText path) d (fun text d' => d' = d ∧ ∃ c, Loaded path d c ∧ c.text = text)
      (fun _ d' => d' = d ∧ Unread path d) :=
  ensures_view Collection.text

theorem ensures_entryOf :
    Ensures (liftM (entryOf c key) : Action Entry) d
      (fun e d' => d' = d ∧ entryOf c key = .ok e) (fun _ d' => d' = d) :=
  ensures_except fun _ _ => rfl

theorem ensures_get :
    Ensures (get path key) d (fun e d' => d' = d ∧ ∃ c, Loaded path d c ∧ entryOf c key = .ok e)
      (fun _ d' => d' = d) := by
  refine ensures_loaded.bind ?_
  rintro c d' ⟨rfl, loaded⟩
  exact ensures_entryOf.mono (fun e _ ⟨left, found⟩ => ⟨left, c, loaded, found⟩) fun _ _ => id

theorem ensures_resolve :
    Ensures (resolve path fragment) d
      (fun key d' => d' = d ∧ ∃ c, Loaded path d c ∧ c.resolve fragment = .ok key)
      (fun _ d' => d' = d) := by
  refine ensures_loaded.bind ?_
  rintro c d' ⟨rfl, loaded⟩
  split
  · rename_i key found
    exact ensures_pure ⟨rfl, c, loaded, found⟩
  · exact ensures_throw rfl

theorem ensures_attempt {p : Program (Except Files.Fault α)} {e : Error}
    (value : ∀ x, (p.run d).1 = .ok x → ok x (p.run d).2)
    (error : ∀ f, (p.run d).1 = .error f → fail e (p.run d).2) : Ensures (attempt p e) d ok fail := by
  have run := outcome_attempt p e d
  cases result : (p.run d).1 with
  | ok x =>
    rw [result] at run
    exact ensures_of_ok run (value x result)
  | error f =>
    rw [result] at run
    exact ensures_of_error run (error f result)

theorem ensures_change {p : Program (Except Files.Fault Unit)} {change : Except Files.Fault Disk}
    {e : Error} {ok : Unit → Disk → Prop} (answer : p.run d = Files.changed d change)
    (value : ∀ d', change = .ok d' → ok () d') (error : ∀ f, change = .error f → fail e d) :
    Ensures (attempt p e) d ok fail := by
  cases change with
  | ok d' =>
    refine ensures_attempt (fun _ _ => ?_) (by rw [answer]; exact nofun)
    rw [answer]
    exact value d' rfl
  | error f =>
    refine ensures_attempt (by rw [answer]; exact nofun) fun _ _ => ?_
    rw [answer]
    exact error f rfl

theorem leaves_prepare {P : Disk → Prop} (here : P d)
    (created : ∀ directory, P (d.createDirectories directory).2) : Leaves (prepare path) d P := by
  unfold prepare
  split
  · exact ensures_attempt (fun _ _ => created _) fun _ _ => created _
  · exact ensures_pure here

theorem ensures_save : Ensures (save path c) d (fun _ d' => d'.read path = .ok c.text.toUTF8)
    (fun e _ => e.ofSave = true) :=
  ensures_of_outcome (fun _ _ => read_of_save) fun _ _ => error_of_save

theorem outcome_run_of_unread (op : Operation) {e : Error}
    (unread : outcome (loadOrEmpty path) d = (.error e, d)) :
    outcome (op.run path) d = (.error e, d) := by
  cases op with
  | resetSession now valid => exact Files.outcome_bind_of_error unread
  | _ => exact Files.outcome_bind_of_error (Files.outcome_bind_of_error unread)

/-- Whatever is stored, an operation fails without a trace, or changes what is loaded as it should. -/
theorem ensures_run (op : Operation) :
    Ensures (op.run path) d
      (fun _ d' => ∃ c c', Loaded path d c ∧ op.effect c = .ok c' ∧ Loaded path d' c')
      (fun e d' => e.ofSave = true ∨ d' = d ∧ ∀ c, Loaded path d c → op.effect c = .error e) := by
  cases load : outcome (loadOrEmpty path) d with
  | mk result d₁ =>
    obtain rfl := disk_of_load load
    cases result with
    | error e =>
      refine ensures_of_error (outcome_run_of_unread op load) (.inr ⟨rfl, fun c loaded => ?_⟩)
      cases load.symm.trans loaded
    | ok c =>
      refine ensures_of_outcome (fun _ d' run => ?_) fun e d' run => ?_
      · rcases run_step load run nofun with ⟨e, -, failed, -⟩ | ⟨c', changes, -, later⟩
        · cases failed
        · exact ⟨c, c', load, changes, later⟩
      · cases saving : e.ofSave with
        | true => exact .inl rfl
        | false =>
          rcases run_step load run (by rintro _ ⟨⟩; exact saving) with
            ⟨e', fails, same, left⟩ | ⟨c', -, worked, -⟩
          · cases same
            exact .inr ⟨left, fun c' loaded => (Loaded.unique load loaded) ▸ fails⟩
          · cases worked

theorem ensures_create {newKey : Nat → String} {words : List Word} :
    Ensures (create path newKey words) d (fun _ _ => True) (Undone Error.ofSave d) := by
  refine ensures_loaded.undone.bind fun c d' _ => ?_
  exact (ensures_save.mono (fun _ _ _ => trivial) fun _ _ => .inl).bind fun _ _ _ => ensures_pure trivial

theorem ensures_update {definition : Definition} :
    Ensures (update path key definition) d (fun _ _ => True) (Undone Error.ofSave d) :=
  ((ensures_run (.update key definition)).mono (fun _ _ _ => trivial)
    fun _ _ => Or.imp_right And.left).of_ignored

theorem ensures_resetSession (valid : now.isValid) :
    Ensures (resetSession path now) d (fun _ d' => ∃ c, Loaded path d' c) (Undone Error.ofSave d) :=
  (ensures_run (.resetSession now valid)).mono (fun _ _ ⟨_, c, _, _, loaded⟩ => ⟨c, loaded⟩)
    fun _ _ => Or.imp_right And.left

theorem key_of_entryOf {e : Entry} (h : entryOf c key = .ok e) : e.key = key := by
  unfold entryOf at h
  split at h
  · rename_i here
    cases h
    obtain ⟨w, -, rfl⟩ := Option.map_eq_some_iff.1 here
    rfl
  · cases h

theorem exists_entryOf (h : key ∈ c.records.keys) : ∃ e, entryOf c key = .ok e := by
  obtain ⟨⟨k, w⟩, mem, rfl⟩ := List.mem_map.1 h
  have here : c.entry? k = some ⟨k, w⟩ := by
    rw [Collection.entry?, KeyMap.get?_eq_some_iff.2 mem]
    rfl
  exact ⟨⟨k, w⟩, by rw [entryOf, here]⟩

theorem mem_keys_of_resolve (h : c.resolve fragment = .ok key) : key ∈ c.records.keys := by
  unfold Collection.resolve resolveAmong at h
  split at h
  · rename_i exact_key
    cases h
    exact List.contains_iff_mem.1 exact_key
  · split at h
    · cases h
    · split at h
      · cases h
      · rename_i only
        cases h
        exact List.mem_of_mem_filter (only ▸ List.mem_singleton_self _)
      · cases h

theorem ensures_step (op : Operation) (keeps : String → Prop) (stored : Stored path d key)
    (works : ∀ c, key ∈ c.records.keys → ∃ c', op.effect c = .ok c')
    (stays : ∀ c c', op.effect c = .ok c' → ∀ k, keeps k → k ∈ c.records.keys → k ∈ c'.records.keys) :
    Ensures (op.run path) d (fun _ d' => ∀ k, keeps k → Stored path d k → Stored path d' k)
      (fun e _ => e.ofSave = true) := by
  refine (ensures_run op).mono ?_ ?_
  · rintro _ d' ⟨c, c', loaded, changes, later⟩ k kept ⟨c₁, loaded₁, mem⟩
    rw [Loaded.unique loaded₁ loaded] at mem
    exact ⟨c', later, stays c c' changes k kept mem⟩
  · rintro e d' (saving | ⟨-, fails⟩)
    · exact saving
    · obtain ⟨c, loaded, mem⟩ := stored
      obtain ⟨c', changes⟩ := works c mem
      cases (fails c loaded).symm.trans changes

theorem ensures_review (valid : now.isValid) (stored : Stored path d key) :
    Ensures (review path key now) d (fun _ d' => ∀ k, Stored path d k → Stored path d' k)
      (fun e _ => e.ofSave = true) := by
  refine Ensures.of_ignored ((ensures_step (.review key now valid) (fun _ => True) stored ?_ ?_).mono
    (fun _ _ stays k => stays k trivial) fun _ _ => id)
  · intro c mem
    obtain ⟨e, found⟩ := exists_entryOf mem
    exact ⟨_, by rw [Operation.effect, found]; rfl⟩
  · intro c c' changes k _ mem
    obtain ⟨e, -, rfl⟩ := Operation.exists_of_map_eq_ok changes
    split
    · exact mem_keys_putOrdered.2 (.inr mem)
    · exact mem

theorem ensures_remove (stored : Stored path d key) :
    Ensures (remove path key) d (fun _ d' => ∀ k, k ≠ key → Stored path d k → Stored path d' k)
      (fun e _ => e.ofSave = true) := by
  refine Ensures.of_ignored (ensures_step (.remove key) (· ≠ key) stored ?_ ?_)
  · intro c mem
    obtain ⟨e, found⟩ := exists_entryOf mem
    exact ⟨_, by rw [Operation.effect, found]; rfl⟩
  · intro c c' changes k other mem
    obtain ⟨e, -, rfl⟩ := Operation.exists_of_map_eq_ok changes
    obtain ⟨p, here, rfl⟩ := List.mem_map.1 mem
    exact List.mem_map_of_mem (List.mem_filter.2 ⟨here, by simpa using other⟩)

theorem ensures_review_again
    (reviewed : ∀ c e, Loaded path d c → entryOf c key = .ok e → e.word.reviewed = true) :
    Leaves (review path key now) d (· = d) := by
  refine ensures_loaded.bind ?_
  rintro c d' ⟨rfl, loaded⟩
  refine ensures_entryOf.bind ?_
  rintro e d' ⟨rfl, found⟩
  have same : e.word.review now = (false, e.word) := if_pos (reviewed c e loaded found)
  rw [same]
  exact ensures_pure rfl

end Wordhoard.Store
