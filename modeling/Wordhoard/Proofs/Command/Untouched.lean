import Wordhoard.Proofs.Command.Run
import Wordhoard.Proofs.Files.Elsewhere
import Wordhoard.Proofs.Store.Failure

/-! Runs that leave the collection alone: those that fail, and those that only look. Main statement: as
long as saving works, the file of the collection is after such a run what it was before it. -/
namespace Wordhoard

open Files (Disk Ensures ensures_adapt ensures_each ensures_except ensures_foldlM ensures_mapM
  ensures_pure ensures_throw Leaves leaves_write outcome Undone)
open Store (Stored)

variable {α ρ : Type} [RandomSource ρ] {path fragment markup output : String}
  {d d' : Disk} {s : Store.Surroundings} {r : ρ}

def Query.onlyLooks : Query → Bool
  | .filter _ _ => true
  | .dump => true
  | _ => false

def Store.QueryError.ofSave : QueryError → Bool
  | .store e => e.ofSave
  | _ => false

namespace Store

theorem ensures_ofStore {a : Action α} {ok : α → Disk → Prop}
    (h : Ensures a d ok (Undone Error.ofSave d)) :
    Ensures (QueryAction.ofStore a) d ok (Undone QueryError.ofSave d) := h.adapt_undone fun _ => rfl

theorem ensures_snapshot {now : Time.Instant} {q : Query} :
    Ensures (snapshot path now q) d (fun _ d' => d' = d) (Undone QueryError.ofSave d) := by
  unfold snapshot
  split
  · exact ensures_ofStore ensures_list.looks_undone
  · exact ensures_pure rfl

theorem ensures_runQuery {q : Query} (valid : s.now.isValid) :
    Ensures (runQuery path s r q) d (fun _ d' => q.onlyLooks = true → d' = d)
      (Undone QueryError.ofSave d) := by
  refine ensures_snapshot.bind ?_
  rintro entries d' rfl
  split
  · exact ensures_throw (.inr rfl)
  · rename_i result r' evaluated
    cases result with
    | inserted words =>
      refine (ensures_ofStore ensures_create).bind fun _ _ _ => ensures_pure ?_
      intro looks
      cases q <;> simp [Query.evaluate, Query.onlyLooks] at evaluated looks
    | listed entries => exact ensures_pure fun _ => rfl
    | sessionReset =>
      refine (ensures_ofStore (ensures_resetSession valid)).bind fun _ d₁ ⟨c, loaded⟩ => ?_
      -- What was saved can be listed.
      refine (ensures_adapt (ensures_list.mono (fun _ _ => id) fun _ _ h => ?_)).bind ?_
      · exact absurd loaded (h.2 c)
      · refine fun _ _ _ => ensures_pure ?_
        intro looks
        cases q <;> simp [Query.evaluate, Query.onlyLooks] at evaluated looks
    | dumpRequested =>
      refine (ensures_ofStore ensures_exportText.looks_undone).bind ?_
      rintro text d' rfl
      exact ensures_pure fun _ => rfl

theorem ensures_query {text : String} (valid : s.now.isValid) :
    Ensures (query path s r text) d
      (fun _ d' => ∀ q, Query.parse text = .ok q → q.onlyLooks = true → d' = d)
      (Undone QueryError.ofSave d) := by
  unfold query
  split
  · exact ensures_throw (.inr rfl)
  · rename_i q parsed
    refine (ensures_runQuery valid).mono (fun _ d' looking q' parsed' looks => ?_) fun _ _ => id
    cases parsed.symm.trans parsed'
    exact looking looks

end Store

namespace Command

def Error.ofSave : Error → Bool
  | .store e => e.ofSave
  | _ => false

variable {fragments : List String} {change : Edit}

theorem ensures_ofStore {a : Store.Action α} {ok : α → Disk → Prop}
    (h : Ensures a d ok (Undone Store.Error.ofSave d)) :
    Ensures (Action.ofStore a) d ok (Undone Error.ofSave d) := h.adapt_undone fun _ => rfl

theorem ensures_ofQuery {a : Store.QueryAction α} {ok : α → Disk → Prop} (text : String)
    (h : Ensures a d ok (Undone Store.QueryError.ofSave d)) :
    Ensures (Action.ofQuery text a) d ok (Undone Error.ofSave d) := by
  refine h.adapt_undone fun e => ?_
  cases e <;> rfl

theorem ensures_add {description : Option String} {tags : List String} :
    Ensures (add path s markup description tags) d (fun _ _ => True) (Undone Error.ofSave d) := by
  refine (ensures_except fun _ _ => .inr rfl).bind ?_
  rintro words d' ⟨rfl, -⟩
  exact ensures_ofStore Store.ensures_create

theorem ensures_resolveKey :
    Ensures (Action.ofStore (Store.resolve path fragment)) d
      (fun key d' => d' = d ∧ ∃ c, Store.Loaded path d c ∧ c.resolve fragment = .ok key)
      (Undone Error.ofSave d) :=
  ensures_ofStore Store.ensures_resolve.undone

theorem ensures_edit : Ensures (edit path fragment change) d
    (fun _ d' => change = {} → d' = d) (Undone Error.ofSave d) := by
  refine ensures_resolveKey.bind ?_
  rintro key d' ⟨rfl, -⟩
  split
  · exact ensures_pure fun _ => rfl
  · rename_i changes
    refine (ensures_ofStore Store.ensures_get.undone).bind ?_
    rintro old d' ⟨rfl, -⟩
    refine (ensures_except fun _ _ => .inr rfl).bind ?_
    rintro definition d' ⟨rfl, -⟩
    refine (ensures_ofStore Store.ensures_update).bind fun _ _ _ => ensures_pure ?_
    rintro rfl
    exact absurd rfl changes

theorem ensures_list {limit : Option Nat} {unreviewed : Bool} :
    Ensures (list path limit unreviewed) d (fun _ d' => d' = d) (Undone Error.ofSave d) := by
  refine (ensures_ofStore Store.ensures_list.looks_undone).bind ?_
  rintro entries d' rfl
  exact ensures_pure rfl

def AllReviewed (path : String) (d : Disk) (fragments : List String) : Prop :=
  ∀ fragment ∈ fragments, ∀ c key e, Store.Loaded path d c → c.resolve fragment = .ok key →
    Store.entryOf c key = .ok e → e.word.reviewed = true

theorem ensures_resolveKeys :
    Ensures (fragments.mapM fun f => Action.ofStore (Store.resolve path f)) d
      (fun keys d' => d' = d ∧ ∀ key ∈ keys, ∃ f ∈ fragments, ∃ c, Store.Loaded path d c ∧
        c.resolve f = .ok key) (Undone Error.ofSave d) := by
  refine (ensures_mapM (I := fun others d' => d' = d ∧ ∀ f ∈ others, f ∈ fragments) ?_
    ⟨rfl, fun _ => id⟩).mono (fun _ _ h => ⟨h.1.1, h.2⟩) fun _ _ => id
  rintro f others d' ⟨rfl, inside⟩
  obtain ⟨here, inside⟩ := List.forall_mem_cons.1 inside
  refine ensures_resolveKey.mono ?_ fun _ _ => id
  rintro key d' ⟨rfl, c, loaded, resolved⟩
  exact ⟨⟨rfl, inside⟩, f, here, c, loaded, resolved⟩

theorem ensures_review {now : Time.Instant} (valid : now.isValid) :
    Ensures (review path fragments now) d (fun _ d' => AllReviewed path d fragments → d' = d)
      (Undone Error.ofSave d) := by
  refine ensures_resolveKeys.bind ?_
  rintro keys d' ⟨rfl, resolved⟩
  by_cases looks : AllReviewed path d' fragments
  · refine (ensures_each (I := fun others d => d = d' ∧ ∀ key ∈ others, key ∈ keys) ?_
      ⟨rfl, fun _ => id⟩).mono (fun _ _ h _ => h.1) fun _ _ => id
    rintro key others d ⟨rfl, inside⟩
    obtain ⟨here, inside⟩ := List.forall_mem_cons.1 inside
    refine (ensures_ofStore (Store.ensures_review_again ?_).undone).mono ?_ fun _ _ => id
    · intro c e loaded entry
      obtain ⟨f, given, c', loaded', found⟩ := resolved key here
      cases loaded.unique loaded'
      exact looks f given c key e loaded found entry
    · rintro _ d' rfl
      exact ⟨rfl, inside⟩
  · refine (ensures_each (I := fun others d => ∀ key ∈ others, Stored path d key) ?_ ?_).mono
      (fun _ _ _ all => absurd all looks) fun _ _ => id
    · intro key others d stored
      obtain ⟨here, further⟩ := List.forall_mem_cons.1 stored
      refine ensures_adapt ((Store.ensures_review valid here).mono ?_ fun _ _ => .inl)
      exact fun _ _ stays k mem => stays k (further k mem)
    · intro key mem
      obtain ⟨f, -, c, loaded, found⟩ := resolved key mem
      exact ⟨c, loaded, Store.mem_keys_of_resolve found⟩

theorem ensures_collect {found : List Entry} (apart : (found.map Entry.key).Nodup)
    (stored : ∀ e ∈ found, Stored path d e.key) :
    Ensures (collect path found fragment) d
      (fun found d' => d' = d ∧ (found.map Entry.key).Nodup ∧ ∀ e ∈ found, Stored path d e.key)
      (Undone Error.ofSave d) := by
  refine ensures_resolveKey.bind ?_
  rintro key d' ⟨rfl, c, loaded, resolved⟩
  split
  · exact ensures_pure ⟨rfl, apart, stored⟩
  · rename_i new
    refine (ensures_ofStore Store.ensures_get.undone).bind ?_
    rintro e d' ⟨rfl, c', -, here⟩
    obtain rfl := Store.key_of_entryOf here
    refine ensures_pure ⟨rfl, ?_, ?_⟩
    · rw [List.map_append, List.map_singleton]
      refine List.nodup_append.2 ⟨apart, by simp, ?_⟩
      simpa using new
    · intro e' mem
      rcases List.mem_append.1 mem with old | last
      · exact stored e' old
      · rw [List.mem_singleton.1 last]
        exact ⟨c, loaded, Store.mem_keys_of_resolve resolved⟩

theorem ensures_remove {entries : List Entry} (apart : (entries.map Entry.key).Nodup)
    (stored : ∀ e ∈ entries, Stored path d e.key) :
    Ensures (remove path entries) d (fun _ _ => True) (fun e _ => e.ofSave = true) := by
  refine (ensures_each (I := fun others d => (others.map Entry.key).Nodup ∧
    ∀ e ∈ others, Stored path d e.key) ?_ ⟨apart, stored⟩).mono (fun _ _ _ => trivial) fun _ _ => id
  rintro e others d ⟨apart, stored⟩
  obtain ⟨new, apart⟩ := List.nodup_cons.1 apart
  obtain ⟨here, further⟩ := List.forall_mem_cons.1 stored
  refine ensures_adapt ((Store.ensures_remove here).mono ?_ fun _ _ => id)
  intro _ d' stays
  refine ⟨apart, fun e' mem => stays e'.key ?_ (further e' mem)⟩
  intro same
  exact new (same ▸ List.mem_map_of_mem mem)

theorem ensures_delete {force : Bool} :
    Ensures (delete path fragments force) d (fun _ _ => True) (Undone Error.ofSave d) := by
  refine (ensures_foldlM (I := fun found d' => d' = d ∧ (found.map Entry.key).Nodup ∧
    ∀ e ∈ found, Stored path d e.key) ?_ fragments ⟨rfl, .nil, nofun⟩).bind ?_
  · rintro found fragment d' ⟨rfl, apart, stored⟩
    exact ensures_collect apart stored
  · rintro entries d' ⟨rfl, apart, stored⟩
    split
    · exact (ensures_remove apart stored).mono (fun _ _ _ => trivial) fun _ _ => .inl
    · exact ensures_throw (.inr rfl)

theorem ensures_startSession {now : Time.Instant} (valid : now.isValid) :
    Ensures (startSession path now) d (fun _ _ => True) (Undone Error.ofSave d) := by
  refine (ensures_ofStore (Store.ensures_resetSession valid)).bind fun _ d₁ ⟨c, loaded⟩ => ?_
  refine ensures_adapt (Store.ensures_size.mono (fun _ _ _ => trivial) fun _ _ h => ?_)
  exact absurd loaded (h.2 c)

theorem leaves_exportTo {target : String} (elsewhere : isPrinted output = false →
      ∀ q, d.locate output = .ok q → d.locate target ≠ .ok q) :
    Leaves (exportTo path output) d (d.SameAt target) := by
  refine (ensures_adapt (Store.ensures_exportText.mono (fun _ _ => And.left) ?_)).bind ?_
  · rintro _ d' ⟨rfl, -⟩
    exact Disk.sameAt_self
  rintro text d' rfl
  split
  · exact ensures_pure Disk.sameAt_self
  rename_i to_file
  have apart := elsewhere (Bool.eq_false_of_not_eq_true to_file)
  refine (leaves_write Disk.sameAt_self fun d done => Disk.sameAt_write done apart).bind
    fun reply d same => ?_
  cases reply with
  | error e => exact ensures_throw same
  | ok => exact (Store.ensures_size.looks same).adapt.bind fun _ _ same => ensures_pure same

def WordTask.output? (now : Time.Instant) : WordTask → Option String
  | .dump output =>
    let output := output.getD (Report.exportName now)
    if isPrinted output then none else some output
  | _ => none

/-- Tasks that give an answer and change nothing stored: filters, dumps, listings, exports, edits of
nothing, and reviews of words that are reviewed already. -/
def WordTask.OnlyLooks (path : String) (settings : Settings) (d : Disk) : WordTask → Prop
  | query text => ∃ q, Query.parse (text.getD (settings.defaultQuery.getD "")) = .ok q ∧
      q.onlyLooks = true
  | list _ _ => True
  | review fragments => AllReviewed path d fragments
  | edit _ e => e = {}
  | dump _ => True
  | _ => False

variable {e : Environment} {p : Preferences} {settings : Settings} {task : WordTask}

theorem ensures_inside (inside : ∀ output, task ≠ .dump output) (valid : s.now.isValid) :
    Ensures (task.run path settings s r) d (fun _ d' => task.OnlyLooks path settings d → d' = d)
      (Undone Error.ofSave d) := by
  cases task with
  | query text =>
    refine (ensures_ofQuery _ (Store.ensures_query valid)).bind fun x d' looking => ensures_pure ?_
    rintro ⟨q, parsed, looks⟩
    exact looking q parsed looks
  | add content description tags => exact ensures_add.bind fun _ _ _ => ensures_pure False.elim
  | list limit unreviewed => exact ensures_list.bind fun _ _ left => ensures_pure fun _ => left
  | review fragments => exact (ensures_review valid).bind fun _ _ left => ensures_pure left
  | edit key e =>
    refine ensures_edit.bind fun x _ left => ?_
    cases x with
    | none => exact ensures_pure left
    | some x => exact ensures_pure left
  | delete keys force => exact ensures_delete.bind fun _ _ _ => ensures_pure False.elim
  | session => exact (ensures_startSession valid).bind fun _ _ _ => ensures_pure False.elim
  | dump output => exact absurd rfl (inside output)

theorem ensures_task {target : String} (valid : s.now.isValid)
    (elsewhere : ∀ output, task.output? s.now = some output →
      ∀ q, d.locate output = .ok q → d.locate target ≠ .ok q) :
    Ensures (task.run path settings s r) d
      (fun _ d' => task.OnlyLooks path settings d → d.SameAt target d')
      (fun e d' => e.ofSave = true ∨ d.SameAt target d') := by
  by_cases exports : ∃ output, task = .dump output
  · obtain ⟨output, rfl⟩ := exports
    refine (leaves_exportTo fun to_file => elsewhere _ ?_).mono (fun _ _ same _ => same) fun _ _ => .inr
    exact if_neg (by rw [to_file]; exact Bool.false_ne_true)
  · have unchanged {d' : Disk} (left : d' = d) : d.SameAt target d' := left ▸ Disk.sameAt_self
    exact (ensures_inside (not_exists.1 exports) valid).mono (fun _ _ left looks => unchanged (left looks))
      fun _ _ => Or.imp_right unchanged

/-- As long as saving works, a run that fails leaves what is at any path but the one it exports to, and so
does a run that only looks. -/
theorem sameAt_of_run {path : String} {t : Transcript} (valid : s.now.isValid)
    (run : (Command.run e p s r (.words task)).run d = (t, d'))
    (saves : ∀ error, t.result = .error error → error.ofSave = false)
    (elsewhere : ∀ output, task.output? s.now = some output →
      ∀ q, d.locate output = .ok q → d.locate path ≠ .ok q)
    (idle : (∃ error, t.result = .error error) ∨ ∃ settings store,
      outcome (found e p) d = (.ok (settings, store), d) ∧ task.OnlyLooks store settings d) :
    d.SameAt path d' := by
  have each (settings : Settings) (store : String)
      (here : outcome (found e p) d = (.ok (settings, store), d)) :
      Ensures (task.run store settings s r) d
        (fun _ d' => (∃ settings store, outcome (found e p) d = (.ok (settings, store), d) ∧
          task.OnlyLooks store settings d) → d.SameAt path d')
        (fun e d' => e.ofSave = true ∨ d.SameAt path d') := by
    refine (ensures_task valid elsewhere).mono ?_ fun _ _ => id
    rintro o d' looking ⟨settings', store', here', looks⟩
    cases here.symm.trans here'
    exact looking looks
  rcases run_of_ensures (fun _ => .inr Disk.sameAt_self) each run with
    ⟨o, worked, looking⟩ | ⟨error, failed, same⟩
  · refine looking (idle.resolve_left ?_)
    rintro ⟨error, failed⟩
    cases worked.symm.trans failed
  · refine same.resolve_left ?_
    rw [saves error failed]
    exact Bool.false_ne_true

/-- A tag that is none is refused next to a file that holds no collection. -/
theorem sameAt_of_refusedTag :
    let d : Disk := { nodes := [(["words.json"], .file "words".toUTF8)] }
    ∃ t d', (run { settings := some "config.toml" } { store := some "words.json" }
        ⟨⟨0, 0, 0⟩, fun _ => "a"⟩ (⟨0⟩ : Random)
        (.words (.add "sea" none ["two words"]))).run d = (t, d') ∧
      t.result = .error (.invalidTag "two words") ∧ d.SameAt "words.json" d' := by
  intro d
  refine ⟨?t, ?after, ?run, ?refused,
    sameAt_of_run ?valid ?run ?saves ?elsewhere (.inl ⟨.invalidTag _, ?refused⟩)⟩
  case run => rfl
  case refused => rfl
  case valid => decide
  case saves =>
    rintro _ ⟨⟩
    rfl
  case elsewhere => exact nofun

end Command

end Wordhoard
