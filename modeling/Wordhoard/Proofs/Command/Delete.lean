import Wordhoard.Proofs.Command.Resolving

/-! Deletions. Main statement: nothing is deleted unless all fragments stand for words and the deletion is
forced, and then each of these words is, however often it is named. -/
namespace Wordhoard.Command

open Files (always_of_looks Always Disk outcome outcome_bind_of_error outcome_bind_of_ok Withstands)
open Files.Program (Ends)
open Store (Loaded SavesBeside temporary)

variable {path key fragment : String} {fragments keys : List String} {c : Collection} {d : Disk}
  {w : Word} {x : KeyError} {found : List Entry} {records : KeyMap Word}

/-- The stored entries of keys, each once, in the order in which the keys first come. -/
structure Collected (c : Collection) (keys : List String) (found : List Entry) : Prop where
  keys : found.map Entry.key = keys.eraseDups
  apart : (found.map Entry.key).Nodup
  stored : ∀ e ∈ found, c.entry? e.key = some e

theorem collected_nil : Collected c [] [] := ⟨rfl, .nil, nofun⟩

theorem Collected.any_iff (h : Collected c keys found) : found.any (·.key = key) ↔ key ∈ keys := by
  rw [← List.mem_eraseDups, ← h.keys]
  simp

theorem Collected.concat_old (h : Collected c keys found) (old : key ∈ keys) :
    Collected c (keys ++ [key]) found where
  keys := by
    rw [h.keys, List.eraseDups_append]
    simp [List.removeAll, old]
  apart := h.apart
  stored := h.stored

theorem Collected.concat_new (h : Collected c keys found) (new : key ∉ keys)
    (stored : c.entry? key = some ⟨key, w⟩) : Collected c (keys ++ [key]) (found ++ [⟨key, w⟩]) where
  keys := by
    rw [List.map_append, h.keys, List.eraseDups_append]
    simp [List.removeAll, new, List.eraseDups_cons]
  apart := by
    rw [List.map_append, List.map_singleton]
    refine List.nodup_append.2 ⟨h.apart, by simp, ?_⟩
    rw [h.keys]
    intro k mem k' here
    rw [List.mem_singleton.1 here]
    rintro rfl
    exact new (List.mem_eraseDups.1 mem)
  stored e mem := by
    rcases List.mem_append.1 mem with old | last
    · exact h.stored e old
    · rw [List.mem_singleton.1 last]
      exact stored

theorem outcome_collect (loaded : Loaded path d c) (resolved : c.resolve fragment = .ok key)
    (h : Collected c keys found) : ∃ found', outcome (collect path found fragment) d = (.ok found', d) ∧
      Collected c (keys ++ [key]) found' := by
  obtain ⟨w, stored⟩ := Store.exists_entry (Store.mem_keys_of_resolve resolved)
  rw [collect, outcome_bind_of_ok (outcome_resolveKey loaded resolved)]
  by_cases old : key ∈ keys
  · rw [if_pos (h.any_iff.2 old)]
    exact ⟨found, rfl, h.concat_old old⟩
  · rw [if_neg (mt h.any_iff.1 old), outcome_bind_of_ok (outcome_getEntry loaded stored)]
    exact ⟨_, rfl, h.concat_new old stored⟩

theorem outcome_collect_all (loaded : Loaded path d c) {others : List String}
    (stand : Stand c fragments others) (h : Collected c keys found) :
    ∃ found', outcome (fragments.foldlM (collect path) found) d = (.ok found', d) ∧
      Collected c (keys ++ others) found' := by
  -- on the fragments: what was found so far are the entries of the keys before them
  induction stand generalizing keys found with
  | nil => exact ⟨found, rfl, by rwa [List.append_nil]⟩
  | @cons fragment key fragments others here _ ih =>
    obtain ⟨found₁, first, h₁⟩ := outcome_collect loaded here h
    obtain ⟨found₂, further, h₂⟩ := ih h₁
    refine ⟨found₂, ?_, by rwa [List.append_assoc] at h₂⟩
    rw [List.foldlM_cons, outcome_bind_of_ok first, further]

theorem outcome_collect_unresolved (loaded : Loaded path d c) (unresolved : Unresolved c fragments x)
    (h : Collected c keys found) :
    outcome (fragments.foldlM (collect path) found) d = (.error (.store (.key x)), d) := by
  obtain ⟨before, fragment, after, rfl, resolved, fails⟩ := unresolved
  induction before generalizing keys found with
  | nil => exact outcome_bind_of_error (outcome_bind_of_error (outcome_resolveKey_of_error loaded fails))
  | cons f before ih =>
    obtain ⟨⟨key, here⟩, resolved⟩ := List.forall_mem_cons.1 resolved
    obtain ⟨found₁, first, h₁⟩ := outcome_collect loaded here h
    rw [List.cons_append, List.foldlM_cons, outcome_bind_of_ok first]
    exact ih h₁ resolved

def Remaining (path : String) (c : Collection) (gone : List String) (d : Disk) : Prop :=
  ∃ records, Loaded path d { c with records } ∧
    records.toList = c.records.toList.filter fun p => p.1 ∉ gone

theorem remaining_none (loaded : Loaded path d c) : Remaining path c [] d := by
  refine ⟨c.records, loaded, ?_⟩
  simp

theorem withstands_remove_step {gone others : List String} (stored : c.entry? key = some ⟨key, w⟩)
    (new : key ∉ gone) (remaining : Remaining path c gone d) :
    Withstands (Action.ofStore (Store.remove path key)) d
      (fun answer d' => answer = ⟨key, w⟩ ∧ Remaining path c (gone ++ [key]) d')
      (Broken path (gone ++ key :: others) (Remaining path c)) := by
  obtain ⟨records, loaded, left⟩ := remaining
  have here : Collection.entry? { c with records } key = some ⟨key, w⟩ := by
    rw [Store.entry?_eq_some_iff, left]
    exact List.mem_filter.2 ⟨Store.entry?_eq_some_iff.1 stored, by simpa using new⟩
  have erased : (records.erase key).toList = c.records.toList.filter fun p => p.1 ∉ gone ++ [key] := by
    have erase : (records.erase key).toList = records.toList.filter (·.1 ≠ key) := rfl
    rw [erase, left, List.filter_filter]
    exact List.filter_congr fun p _ => by simp [not_or, and_comm]
  have removes := Store.withstands_remove_of_entry loaded (Store.entryOf_eq_ok_iff.2 here)
  have step : Withstands _ d _ (Broken path (gone ++ key :: others) (Remaining path c)) :=
    withstands_key removes (fun _ before => ⟨records, before, left⟩) fun _ after =>
      ⟨records.erase key, after, erased⟩
  refine step.mono ?_ fun _ _ => id
  rintro answer d' ⟨rfl, later⟩
  exact ⟨rfl, records.erase key, later, erased⟩

theorem withstands_remove_all (loaded : Loaded path d c) (h : Collected c keys found) :
    Withstands (remove path found) d
      (fun answers d' => answers = found ∧ Remaining path c keys.eraseDups d')
      (Broken path keys.eraseDups (Remaining path c)) := by
  rw [← h.keys]
  -- the invariant is on the entries that are done, since only they are gone when a save fails
  refine Files.withstands_mapM
    (I := fun done answers d' => answers = done ∧ Remaining path c (done.map Entry.key) d') ?_ ?_
  · rintro _ e others done d₁ parts ⟨rfl, remaining⟩
    have rest : found.map Entry.key = done.map Entry.key ++ e.key :: others.map Entry.key := by
      rw [parts, List.map_append, List.map_cons]
    have apart := h.apart
    rw [rest, List.nodup_append] at apart
    have new : e.key ∉ done.map Entry.key := fun mem =>
      apart.2.2 _ mem _ List.mem_cons_self rfl
    have stored : c.entry? e.key = some ⟨e.key, e.word⟩ := h.stored e (by simp [parts])
    rw [rest]
    refine (withstands_remove_step stored new remaining).mono ?_ fun _ _ => id
    rintro answer d' ⟨rfl, further⟩
    exact ⟨rfl, by rwa [List.map_append]⟩
  · exact ⟨rfl, remaining_none loaded⟩

variable {ρ : Type} [RandomSource ρ]

theorem looks_collect (path : String) (found : List Entry) (fragment : String) :
    (collect path found fragment).run.Looks := by
  refine Files.looks_bind (looks_resolveKey path fragment) fun key => ?_
  split
  · trivial
  · exact Files.looks_bind (looks_getEntry path key) fun _ => trivial

theorem looks_resolve (path : String) (fragments : List String) : (resolve path fragments).run.Looks :=
  Files.looks_foldlM (looks_collect path) fragments []

theorem exists_always_resolve (loaded : Loaded path d c) (stand : Stand c fragments keys) :
    ∃ found, Always (resolve path fragments) d (.ok found) d ∧ Collected c keys found := by
  obtain ⟨found, resolved, collected⟩ := outcome_collect_all loaded stand collected_nil
  exact ⟨found, always_of_looks (looks_resolve path fragments) resolved, collected⟩

theorem Collected.ne_nil (h : Collected c keys found) (named : keys ≠ []) : found ≠ [] := by
  obtain ⟨key, others, rfl⟩ := List.exists_cons_of_ne_nil named
  have some := h.any_iff.2 (List.mem_cons_self (a := key) (l := others))
  rintro rfl
  cases some

theorem Stand.ne_nil (stand : Stand c fragments keys) (given : fragments ≠ []) : keys ≠ [] := by
  rintro rfl
  exact given (List.forall₂_nil_right_iff.1 stand)

theorem always_delete_unforced (loaded : Loaded path d c) (stand : Stand c fragments keys)
    (given : fragments ≠ []) : Always (delete path fragments false) d (.error .unconfirmed) d := by
  obtain ⟨found, resolves, collected⟩ := exists_always_resolve loaded stand
  have some := collected.ne_nil (stand.ne_nil given)
  refine resolves.bind ?_
  rw [if_neg (by simpa using some)]
  exact always_of_looks trivial rfl

theorem withstands_delete_forced (loaded : Loaded path d c) (stand : Stand c fragments keys) :
    Withstands (delete path fragments true) d
      (fun deleted d' => deleted.map Entry.key = keys.eraseDups ∧
        (∀ e ∈ deleted, c.entry? e.key = some e) ∧ Remaining path c keys.eraseDups d')
      (Broken path keys.eraseDups (Remaining path c)) := by
  obtain ⟨found, resolves, collected⟩ := exists_always_resolve loaded stand
  refine resolves.bind_withstands ((withstands_remove_all loaded collected).mono ?_ fun _ _ => id)
  rintro _ d' ⟨rfl, remaining⟩
  exact ⟨collected.keys, collected.stored, remaining⟩

/-- Whatever is loaded, and whatever fragments are given. If one of the fragments stands for no word, the
first such one decides the error, and the disk is left alone. Otherwise an unforced deletion is refused,
and the disk is left alone too. A forced one, if no change of the disk fails, tells of the stored entries
of these words, each once and in the order in which they are named first, and what is stored is the old
collection without them. If one fails, it is with the error of saving, and with a temporary file of its
own the first of these words are gone, up to some word, and nothing else is. -/
theorem delete_removes_what_it_names (loaded : Loaded path d c) (given : fragments ≠ [])
    (settings : Settings) (s : Store.Surroundings) (r : ρ) :
    ((∃ keys, Stand c fragments keys) ∨ ∃ x, Unresolved c fragments x) ∧
    (∀ x, Unresolved c fragments x → ∀ force,
      Always ((WordTask.delete fragments force).run path settings s r) d (.error (.store (.key x))) d) ∧
    (∀ keys, Stand c fragments keys →
      Always ((WordTask.delete fragments false).run path settings s r) d (.error .unconfirmed) d ∧
      Withstands ((WordTask.delete fragments true).run path settings s r) d
        (fun o d' => ∃ deleted, o = .deleted deleted ∧ deleted.map Entry.key = keys.eraseDups ∧
          (∀ e ∈ deleted, c.entry? e.key = some e) ∧
          ∃ records, Loaded path d' { c with records } ∧
            records.toList = c.records.toList.filter fun p => p.1 ∉ keys)
        (fun x d' => ∃ saving, x = .store saving ∧ saving.ofSave = true ∧
          (SavesBeside path → ∃ gone, gone <+: keys.eraseDups ∧
            ∃ records, Loaded path d' { c with records } ∧
              records.toList = c.records.toList.filter fun p => p.1 ∉ gone))) := by
  refine ⟨stand_or_unresolved c fragments, ?_, ?_⟩
  · intro x unresolved force
    exact (always_of_looks (looks_resolve path fragments)
      (outcome_collect_unresolved loaded unresolved collected_nil)).bind_error.bind_error
  · intro keys stand
    refine ⟨(always_delete_unforced loaded stand given).bind_error, ?_⟩
    refine (withstands_delete_forced loaded stand).bind ?_
    rintro deleted d' ⟨names, stored, records, later, left⟩
    refine Files.withstands_pure ⟨deleted, rfl, names, stored, records, later, ?_⟩
    rw [left]
    exact List.filter_congr fun p _ => by simp

theorem exists_delete_one (loaded : Loaded path d c) (stand : Stand c fragments keys)
    (one : keys.eraseDups = [key]) : ∃ e, Store.entryOf c e.key = .ok e ∧
      outcome (delete path fragments true) d = outcome (remove path [e]) d := by
  obtain ⟨found, resolved, collected⟩ := outcome_collect_all loaded stand collected_nil
  have names : found.map Entry.key = [key] := collected.keys.trans one
  obtain ⟨e, rfl, -⟩ := List.map_eq_singleton_iff.1 names
  refine ⟨e, Store.entryOf_eq_ok_iff.2 (collected.stored e List.mem_cons_self), ?_⟩
  refine (outcome_bind_of_ok resolved).trans ?_
  rw [if_pos (Bool.true_or _)]

def seaNames : List String := ["a", "1", "a1"]

theorem delete_of_sea :
    Loaded "words.json" (Store.alone Store.sea) Store.sea ∧ seaNames ≠ [] ∧
    Stand Store.sea seaNames ["a1", "a1", "a1"] ∧
    let deletion (force : Bool) :=
      (WordTask.delete seaNames force).run "words.json" {} ⟨⟨0, 0, 0⟩, fun _ => "b"⟩ (⟨0⟩ : Random)
    Always (deletion false) (Store.alone Store.sea) (.error .unconfirmed) (Store.alone Store.sea) ∧
    Withstands (deletion true) (Store.alone Store.sea)
      (fun o d' => ∃ deleted, o = .deleted deleted ∧ deleted.map Entry.key = ["a1"] ∧
        (∀ e ∈ deleted, Store.sea.entry? e.key = some e) ∧
        ∃ records, Loaded "words.json" d' { Store.sea with records } ∧
          records.toList = Store.sea.records.toList.filter fun p => p.1 ∉ ["a1", "a1", "a1"])
      (fun x d' => ∃ saving, x = .store saving ∧ saving.ofSave = true ∧
        (SavesBeside "words.json" → ∃ gone, gone <+: ["a1"] ∧
          ∃ records, Loaded "words.json" d' { Store.sea with records } ∧
            records.toList = Store.sea.records.toList.filter fun p => p.1 ∉ gone)) ∧
    ∃ o d', Ends (deletion true).run (Store.alone Store.sea) false (.ok o) d' := by
  have given : seaNames ≠ [] := List.cons_ne_nil _ _
  have stand : Stand Store.sea seaNames ["a1", "a1", "a1"] :=
    .cons (by decide) (.cons (by decide) (.cons (by decide) .nil))
  have once : ["a1", "a1", "a1"].eraseDups = ["a1"] := by decide
  have deletes := (delete_removes_what_it_names Store.loaded_alone_sea given {}
    ⟨⟨0, 0, 0⟩, fun _ => "b"⟩ (⟨0⟩ : Random)).2.2 _ stand
  rw [once] at deletes
  obtain ⟨e, stored, deletion⟩ := exists_delete_one Store.loaded_alone_sea stand once
  have removes := outcome_ofStore (Store.remove "words.json" e.key) (d := Store.alone Store.sea)
  rw [Store.outcome_remove_of_alone Store.loaded_alone_sea stored] at removes
  rw [remove, List.mapM_cons, outcome_bind_of_ok removes] at deletion
  have ends := (deletes.2.ends_of_ok (outcome_bind_of_ok deletion)).1
  exact ⟨Store.loaded_alone_sea, given, stand, deletes.1, deletes.2, _, _, ends⟩

/-- The word is there and the deletion is forced, but the file beside the collection cannot be written. -/
theorem delete_of_blocked_sea :
    Loaded "words.json" (Store.blocked Store.sea) Store.sea ∧ Stand Store.sea ["a1"] ["a1"] ∧
    outcome ((WordTask.delete ["a1"] true).run "words.json" {} ⟨⟨0, 0, 0⟩, fun _ => "b"⟩ (⟨0⟩ : Random))
      (Store.blocked Store.sea) =
        (.error (.store (.write (temporary "words.json"))), Store.blocked Store.sea) := by
  have stand : Stand Store.sea ["a1"] ["a1"] := .cons (by decide) .nil
  have once : ["a1"].eraseDups = ["a1"] := by decide
  obtain ⟨e, stored, deletion⟩ := exists_delete_one Store.loaded_blocked_sea stand once
  have refused := outcome_ofStore (Store.remove "words.json" e.key) (d := Store.blocked Store.sea)
  rw [Store.outcome_remove_of_blocked Store.loaded_blocked_sea stored Store.blocked_sea] at refused
  rw [remove, List.mapM_cons, outcome_bind_of_error refused] at deletion
  exact ⟨Store.loaded_blocked_sea, stand, outcome_bind_of_error deletion⟩

end Wordhoard.Command
