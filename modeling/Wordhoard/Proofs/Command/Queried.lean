import Wordhoard.Proofs.Command.Resolving
import Wordhoard.Proofs.Query.Listing
import Wordhoard.Proofs.Store.Kept
import Wordhoard.Proofs.Store.Pushdown

/-! Listings and sessions as queries. Main statement: whatever is stored, a listing ends as the query for
it does, and a session as the query `session`. -/
namespace Wordhoard

open Files (Disk Ensures ensures_pure outcome)

namespace Query

theorem holds_waiting (now : Time.Instant) (unreviewed : Bool) (w : Word) :
    (waiting unreviewed).holds now w = (!unreviewed || !w.reviewed) := by
  cases unreviewed <;> simp [waiting, Condition.holds]

def upTo {α : Type} (limit : Option Nat) (items : List α) : List α := limit.elim items items.take

theorem runSteps_limit {α ρ : Type} [RandomSource ρ] (view : α → Word) (limit : Option Nat)
    (items : List α) (r : ρ) :
    runSteps view (limit.toList.map .limit) items r = (upTo limit items, r) := by
  cases limit <;> rfl

theorem sublist_upTo {α : Type} (limit : Option Nat) (items : List α) :
    (upTo limit items).Sublist items := by
  cases limit with
  | none => exact .refl _
  | some n => exact List.take_sublist n items

end Query

namespace Store

variable {path : String} {c : Collection} {d : Disk} {now : Time.Instant}

theorem length_entries (c : Collection) : c.entries.length = c.size := by
  simp [Collection.entries, Collection.size, KeyMap.size]

theorem outcome_size (stored : Loaded path d c) : outcome (size path) d = (.ok c.size, d) :=
  Files.outcome_bind_of_ok stored

theorem outcome_entries (stored : Loaded path d c) :
    outcome (list path fun _ => true) d = (.ok c.entries, d) := by
  rw [outcome_list stored, List.filter_true]

theorem ensures_startSession (valid : now.isValid) :
    Ensures (resetSession path now) d
      (fun _ d' => ∃ c, Loaded path d c ∧ Loaded path d' (c.startSession now))
      (fun _ => Kept path d) := by
  unfold resetSession
  refine Ensures.bind (ensures_loaded.mono (fun _ _ => id) ?_) ?_
  · rintro _ _ rfl
    exact Store.kept_of_same rfl
  rintro c d₁ ⟨rfl, loaded⟩
  obtain ⟨readable, version, -⟩ := sound_of_loadOrEmpty loaded
  have new : (Operation.resetSession now valid).effect c = .ok (c.startSession now) := rfl
  obtain ⟨readable, same⟩ := Operation.sound_effect readable new
  refine ensures_save_kept.mono (fun _ d₂ stored => ⟨c, loaded, ?_⟩) fun _ _ => id
  exact loadOrEmpty_of_read stored readable (same ▸ version)

end Store

namespace Command

open Store (Kept Loaded Unread)

variable {α β γ ρ : Type} [RandomSource ρ] {path : String} {s : Store.Surroundings} {r : ρ} {d : Disk}
  {now : Time.Instant}

theorem alike_bind {a : Store.Action α} {f : α → Action β} {g : α → Store.QueryAction γ}
    {Alike : Except Error β × Disk → Except Store.QueryError γ × Disk → Prop}
    {ok : α → Disk → Prop} {fail : Store.Error → Disk → Prop} (ensured : Ensures a d ok fail)
    (goes : ∀ x d', ok x d' → Alike (outcome (f x) d') (outcome (g x) d'))
    (fails : ∀ e d', fail e d' → Alike (.error (.store e), d') (.error (.store e), d')) :
    Alike (outcome (Action.ofStore a >>= f) d) (outcome (Store.QueryAction.ofStore a >>= g) d) := by
  have plain : outcome (Action.ofStore a) d = _ := Files.outcome_adapt _
  have queried : outcome (Store.QueryAction.ofStore a) d = _ := Files.outcome_adapt _
  cases run : outcome a d with
  | mk result d' =>
    rw [run] at plain queried
    cases result with
    | ok x =>
      rw [Files.outcome_bind_of_ok plain, Files.outcome_bind_of_ok queried]
      exact goes x d' (ensured.value run)
    | error e =>
      rw [Files.outcome_bind_of_error plain, Files.outcome_bind_of_error queried]
      exact fails e d' (ensured.error run)

/-- A listing and a query list the same entries in the same order, or both fail since the stored words
cannot be loaded. Either way the disk is left. -/
inductive ListedAlike (path : String) (d : Disk) (r : ρ) :
    Except Error (List Entry) × Disk →
      Except Store.QueryError (Store.QueryReport × ρ) × Disk → Prop where
  | listed {c : Collection} {es : List Entry} (stored : Loaded path d c)
      (order : es.Sublist c.entries) :
      ListedAlike path d r (.ok es, d) (.ok (.listed es, r), d)
  | failed {error : Store.Error} (unread : Unread path d) :
      ListedAlike path d r (.error (.store error), d) (.error (.store error), d)

theorem listed_alike (path : String) (s : Store.Surroundings) (r : ρ) (d : Disk)
    (apart unreviewed : Bool) {limit : Option Nat} (fits : ∀ n ∈ limit, n < UInt64.size) :
    ListedAlike path d r (outcome (list path limit unreviewed) d)
      (outcome (Store.query path s r (Query.listing apart unreviewed limit)) d) := by
  rw [Store.query, Query.parse_listing apart unreviewed fits, list]
  dsimp only
  rw [Store.runQuery, Store.snapshot]
  simp only [Query.holds_waiting]
  refine alike_bind Store.ensures_list ?_ ?_
  · rintro es d' ⟨rfl, c, stored, rfl⟩
    simp only [Query.evaluate, Query.holds_waiting, List.filter_filter, Bool.and_self,
      Query.runSteps_limit]
    refine .listed stored ((Query.sublist_upTo limit _).trans List.filter_sublist)
  · rintro e d' ⟨rfl, unread⟩
    exact .failed unread

/-- A session and a query store the same new session, with as many words as the query tells, or both
fail for the same reason, and what is stored is kept. -/
inductive StartedAlike (path : String) (now : Time.Instant) (d : Disk) (r : ρ) :
    Except Error Nat × Disk →
      Except Store.QueryError (Store.QueryReport × ρ) × Disk → Prop where
  | started {c : Collection} {es : List Entry} {d' : Disk} (before : Loaded path d c)
      (after : Loaded path d' (c.startSession now)) (told : es = (c.startSession now).entries) :
      StartedAlike path now d r (.ok es.length, d') (.ok (.session es, r), d')
  | failed {error : Store.Error} {d' : Disk} (kept : Kept path d d') :
      StartedAlike path now d r (.error (.store error), d') (.error (.store error), d')

theorem outcome_counted {c : Collection} (stored : Loaded path d c) :
    outcome (Action.ofStore (Store.size path)) d = (.ok c.size, d) := by
  have counted := outcome_ofStore (Store.size path) (d := d)
  rwa [Store.outcome_size stored] at counted

theorem outcome_startSession_alone {c : Collection} (stored : Loaded "words.json" (Store.alone c) c)
    (valid : now.isValid) : outcome (startSession "words.json" now) (Store.alone c) =
      (.ok c.size, Store.alone (c.startSession now)) := by
  have run : outcome (Store.resetSession "words.json" now) (Store.alone c) =
      (.ok (), Store.alone (c.startSession now)) :=
    (Files.outcome_bind_of_ok stored).trans (Store.save_alone c (c.startSession now))
  obtain ⟨c', before, after⟩ := (Store.ensures_startSession valid).value run
  obtain rfl := before.unique stored
  have reset := outcome_ofStore (Store.resetSession "words.json" now) (d := Store.alone c')
  rw [run] at reset
  have count : (c'.startSession now).size = c'.size := List.length_map _
  exact (Files.outcome_bind_of_ok reset).trans (count ▸ outcome_counted after)

theorem started_alike (path : String) (s : Store.Surroundings) (r : ρ) (d : Disk)
    (valid : s.now.isValid) :
    StartedAlike path s.now d r (outcome (startSession path s.now) d)
      (outcome (Store.query path s r "session") d) := by
  have parsed : Query.parse "session" = .ok .session := by decide +kernel
  -- The query asks for no words before the session is stored.
  have nothing : outcome (Store.snapshot path s.now .session) d = (.ok [], d) := rfl
  rw [Store.query, parsed]
  dsimp only
  rw [Store.runQuery, Files.outcome_bind_of_ok nothing, startSession]
  refine alike_bind (Store.ensures_startSession valid) ?_ fun e d' kept => .failed kept
  rintro _ d' ⟨c, before, after⟩
  have read := Store.outcome_ofStore (Store.outcome_entries after)
  rw [outcome_counted after, ← Store.length_entries, Files.outcome_bind_of_ok read]
  exact .started before after rfl

end Command

end Wordhoard
