import Mathlib.Data.List.Forall2
import Wordhoard.Command.Run
import Wordhoard.Proofs.Store.Answer

/-! Fragments of keys that commands are given, in a collection that is loaded. All of them stand for a
key, or the first one that does not decides how the command fails. -/
namespace Wordhoard.Command

open Files (always_of_looks Always Disk outcome outcome_bind_of_error outcome_bind_of_ok Withstands)
open Store (Loaded SavesBeside Unsaved)

variable {α : Type} {path fragment key : String} {fragments keys : List String} {c : Collection}
  {d : Disk} {x : KeyError} {e : Entry}

/-- The fragments stand for these keys, one by one. -/
def Stand (c : Collection) : List String → List String → Prop :=
  List.Forall₂ fun fragment key => c.resolve fragment = .ok key

def Unresolved (c : Collection) (fragments : List String) (x : KeyError) : Prop :=
  ∃ before fragment after, fragments = before ++ fragment :: after ∧
    (∀ f ∈ before, ∃ key, c.resolve f = .ok key) ∧ c.resolve fragment = .error x

theorem Unresolved.of_head (fails : c.resolve fragment = .error x) :
    Unresolved c (fragment :: fragments) x :=
  ⟨[], fragment, fragments, rfl, nofun, fails⟩

theorem Unresolved.of_tail (here : c.resolve fragment = .ok key) (h : Unresolved c fragments x) :
    Unresolved c (fragment :: fragments) x := by
  obtain ⟨before, f, after, rfl, resolved, fails⟩ := h
  exact ⟨fragment :: before, f, after, rfl, List.forall_mem_cons.2 ⟨⟨key, here⟩, resolved⟩, fails⟩

theorem stand_or_unresolved (c : Collection) (fragments : List String) :
    (∃ keys, Stand c fragments keys) ∨ ∃ x, Unresolved c fragments x := by
  induction fragments with
  | nil => exact .inl ⟨[], .nil⟩
  | cons fragment others ih =>
    cases here : c.resolve fragment with
    | error x => exact .inr ⟨x, .of_head here⟩
    | ok key =>
      rcases ih with ⟨keys, stand⟩ | ⟨x, unresolved⟩
      · exact .inl ⟨key :: keys, .cons here stand⟩
      · exact .inr ⟨x, unresolved.of_tail here⟩

theorem Stand.stored (h : Stand c fragments keys) : ∀ key ∈ keys, key ∈ c.records.keys := by
  induction h with
  | nil => exact nofun
  | cons here others ih => exact List.forall_mem_cons.2 ⟨Store.mem_keys_of_resolve here, ih⟩

theorem outcome_ofStore (a : Store.Action α) :
    outcome (Action.ofStore a) d = ((outcome a d).1.mapError .store, (outcome a d).2) :=
  Files.outcome_adapt _

theorem outcome_resolveKey (loaded : Loaded path d c) (resolved : c.resolve fragment = .ok key) :
    outcome (Action.ofStore (Store.resolve path fragment)) d = (.ok key, d) := by
  rw [outcome_ofStore, Store.outcome_resolve loaded, resolved]
  rfl

theorem outcome_resolveKey_of_error (loaded : Loaded path d c) (fails : c.resolve fragment = .error x) :
    outcome (Action.ofStore (Store.resolve path fragment)) d = (.error (.store (.key x)), d) := by
  rw [outcome_ofStore, Store.outcome_resolve loaded, fails]
  rfl

theorem outcome_getEntry (loaded : Loaded path d c) (stored : c.entry? key = some e) :
    outcome (Action.ofStore (Store.get path key)) d = (.ok e, d) := by
  rw [outcome_ofStore, Store.outcome_get loaded, Store.entryOf_eq_ok_iff.2 stored]
  rfl

theorem looks_resolveKey (path fragment : String) :
    (Action.ofStore (Store.resolve path fragment)).run.Looks :=
  Files.looks_adapt (Store.looks_resolve path fragment)

theorem looks_getEntry (path key : String) : (Action.ofStore (Store.get path key)).run.Looks :=
  Files.looks_adapt (Store.looks_get path key)

theorem always_resolveKey (loaded : Loaded path d c) (resolved : c.resolve fragment = .ok key) :
    Always (Action.ofStore (Store.resolve path fragment)) d (.ok key) d :=
  always_of_looks (looks_resolveKey path fragment) (outcome_resolveKey loaded resolved)

theorem withstands_ofStore {a : Store.Action α} {ok : α → Disk → Prop}
    {fail : Store.Error → Disk → Prop} (h : Withstands a d ok fail) :
    Withstands (Action.ofStore a) d ok fun x d' => ∃ e, x = .store e ∧ fail e d' :=
  Files.withstands_adapt (h.mono (fun _ _ => id) fun e _ fails => ⟨e, rfl, fails⟩)

/-- How a command fails that saves once for each of some keys. With a temporary file of its own it is done
with some of them, from the first one on. -/
def Broken (path : String) (keys : List String) (done : List String → Disk → Prop) (x : Error)
    (d : Disk) : Prop :=
  ∃ saving, x = .store saving ∧ saving.ofSave = true ∧
    (SavesBeside path → ∃ front, front <+: keys ∧ done front d)

theorem withstands_key {a : Store.Action α} {ok : α → Disk → Prop} {done : List String → Disk → Prop}
    {c' : Collection} {front others : List String} (h : Withstands a d ok (Unsaved path c c'))
    (old : ∀ d', Loaded path d' c → done front d')
    (new : ∀ d', Loaded path d' c' → done (front ++ [key]) d') :
    Withstands (Action.ofStore a) d ok (Broken path (front ++ key :: others) done) := by
  refine (withstands_ofStore h).mono (fun _ _ => id) ?_
  rintro x d' ⟨saving, rfl, ofSave, whole⟩
  refine ⟨saving, rfl, ofSave, fun beside => ?_⟩
  rcases whole beside with before | after
  · exact ⟨front, List.prefix_append _ _, old d' before⟩
  · exact ⟨front ++ [key], ⟨others, by simp⟩, new d' after⟩

theorem outcome_resolveKeys (loaded : Loaded path d c) (h : Stand c fragments keys) :
    outcome (fragments.mapM fun f => Action.ofStore (Store.resolve path f)) d = (.ok keys, d) := by
  induction h with
  | nil => rfl
  | cons here others ih =>
    rw [List.mapM_cons, outcome_bind_of_ok (outcome_resolveKey loaded here), outcome_bind_of_ok ih]
    rfl

theorem outcome_resolveKeys_unresolved (loaded : Loaded path d c) (h : Unresolved c fragments x) :
    outcome (fragments.mapM fun f => Action.ofStore (Store.resolve path f)) d =
      (.error (.store (.key x)), d) := by
  obtain ⟨before, fragment, after, rfl, resolved, fails⟩ := h
  induction before with
  | nil => exact outcome_bind_of_error (outcome_resolveKey_of_error loaded fails)
  | cons f before ih =>
    obtain ⟨⟨key, here⟩, resolved⟩ := List.forall_mem_cons.1 resolved
    rw [List.cons_append, List.mapM_cons, outcome_bind_of_ok (outcome_resolveKey loaded here)]
    exact outcome_bind_of_error (ih resolved)

theorem looks_resolveKeys (path : String) (fragments : List String) :
    (fragments.mapM fun f => Action.ofStore (Store.resolve path f)).run.Looks :=
  Files.looks_mapM (looks_resolveKey path) fragments

end Wordhoard.Command
