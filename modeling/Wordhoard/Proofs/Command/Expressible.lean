import Wordhoard.Proofs.Command.Run
import Wordhoard.Proofs.Query.Tags
import Wordhoard.Proofs.Store.Expressible

/-! Whatever tasks are run, with whatever arguments, the words that they leave can be expressed in queries.
Main statement: after any runs from no collection on, every stored word has canonical content that is
written and read back, and each of its tags finds it. -/
namespace Wordhoard

open Files (Disk Ensures ensures_except ensures_foldlM ensures_pure ensures_throw Leaves leaves_mapM
  leaves_write outcome placeFrom Place)
open Store (Clean Good)

variable {α ε ρ : Type} [RandomSource ρ] {path fragment key output : String}
  {d d' : Disk} {s : Store.Surroundings} {r : ρ} {base : Place}

theorem Query.newWords_eq_ok {ds : List Definition} {words : List Word}
    (h : Query.newWords ds = .ok words) :
    words = ds.map Word.ofDefinition ∧ ∀ d ∈ ds, d.content ≠ [] := by
  unfold Query.newWords at h
  split at h
  · cases h
  · rename_i all
    cases h
    refine ⟨rfl, fun d mem empty => ?_⟩
    have filled := List.findIdx?_eq_none_iff.1 all d mem
    rw [empty] at filled
    cases filled

theorem Query.definitions_of_inserted {text : String} {q : Query} {view : α → Word}
    {items : List α} {words : List Word} {now : Time.Instant} {r' : ρ}
    (parsed : Query.parse text = .ok q)
    (evaluated : Query.evaluate now view q items r = .ok (.inserted words, r')) :
    ∃ ds : List Definition, words = ds.map Word.ofDefinition ∧ ∀ d ∈ ds, d.Expressible := by
  cases q with
  | insert ds =>
    obtain ⟨new, read, same⟩ := Store.Operation.exists_of_map_eq_ok evaluated
    cases same
    obtain ⟨rfl, filled⟩ := Query.newWords_eq_ok read
    exact ⟨ds, rfl, fun d mem => ⟨filled d mem, Query.writable_of_parse parsed d mem⟩⟩
  | filter condition steps => simp [Query.evaluate] at evaluated
  | session => cases evaluated
  | dump => cases evaluated

namespace Store

theorem leaves_clean_create {newKey : Nat → String} {ds : List Definition}
    (clean : Clean base path d) (given : ∀ d ∈ ds, d.Expressible) :
    Leaves (create path newKey (ds.map Word.ofDefinition)) d (Clean base path) :=
  (leaves_clean_run (.create newKey ds) clean given).of_ignored

theorem ensures_clean_get (clean : Clean base path d) :
    Ensures (get path key) d
      (fun e d' => Clean base path d' ∧ e.word.toDefinition.Expressible)
      (fun _ => Clean base path) := by
  refine ensures_get.mono ?_ ?_
  · rintro e d' ⟨rfl, c, loaded, found⟩
    exact ⟨clean, (expressible_of_loaded clean loaded).words _ (Operation.mem_of_entryOf found)⟩
  · rintro _ d' rfl
    exact clean

theorem ensures_clean_exportText (clean : Clean base path d) :
    Ensures (exportText path) d (fun text d' => Clean base path d' ∧ Good path text.toUTF8)
      (fun _ => Clean base path) := by
  refine ensures_exportText.mono ?_ ?_
  · rintro text d' ⟨rfl, c, loaded, rfl⟩
    exact ⟨clean, good_text (expressible_of_loaded clean loaded)⟩
  · rintro _ d' ⟨rfl, -⟩
    exact clean

theorem leaves_clean_snapshot {now : Time.Instant} {q : Query} (clean : Clean base path d) :
    Leaves (snapshot path now q) d (Clean base path) := by
  unfold snapshot
  split
  · exact (ensures_list.looks clean).adapt
  · exact ensures_pure clean

theorem leaves_clean_query {text : String} (valid : s.now.isValid) (clean : Clean base path d) :
    Leaves (query path s r text) d (Clean base path) := by
  unfold query
  split
  · exact ensures_throw clean
  rename_i q parsed
  refine (leaves_clean_snapshot clean).bind fun entries d' clean => ?_
  split
  · exact ensures_throw clean
  rename_i result r' evaluated
  cases result with
  | inserted words =>
    obtain ⟨definitions, rfl, given⟩ := Query.definitions_of_inserted parsed evaluated
    refine (leaves_clean_create clean given).adapt.bind fun _ _ clean => ?_
    exact ensures_pure clean
  | listed entries => exact ensures_pure clean
  | sessionReset =>
    have reset := leaves_clean_run (.resetSession s.now valid) clean trivial
    refine reset.adapt.bind fun _ d₁ clean => ?_
    refine (ensures_list.looks clean).adapt.bind fun _ _ clean => ?_
    exact ensures_pure clean
  | dumpRequested =>
    refine (ensures_clean_exportText clean).adapt.bind fun _ _ ⟨clean, _⟩ => ?_
    exact ensures_pure clean

end Store

namespace Command

theorem valid_of_checkTags {tags : List String} (h : checkTags tags = .ok ()) :
    ∀ tag ∈ tags, isValidTag tag = true := by
  unfold checkTags at h
  split at h
  · cases h
  · rename_i all
    intro tag mem
    simpa using List.find?_eq_none.1 all tag mem

theorem eq_ok_of_mapError {ε' : Type} {x : Except ε α} {f : ε → ε'} {a : α}
    (h : x.mapError f = .ok a) : x = .ok a := by
  cases x with
  | error e => cases h
  | ok y => exact congrArg Except.ok (Except.ok.inj h)

theorem canonical_of_readContent {markup : String} {content : List Piece}
    (h : readContent markup = .ok content) : Markup.Canonical content :=
  (Markup.parse_eq_ok_iff.1 (eq_ok_of_mapError h)).1

theorem expressible_of_newWords {markup : String} {description : Option String} {tags : List String}
    {words : List Word} (h : newWords markup description tags = .ok words) :
    ∃ ds : List Definition, words = ds.map Word.ofDefinition ∧ ∀ d ∈ ds, d.Expressible := by
  unfold newWords at h
  obtain ⟨⟨⟩, checked, h⟩ := Disk.exists_of_bind_ok h
  obtain ⟨content, read, h⟩ := Disk.exists_of_bind_ok h
  obtain ⟨rfl, filled⟩ := Query.newWords_eq_ok (eq_ok_of_mapError h)
  refine ⟨_, rfl, fun d mem => ⟨filled d mem, ?_⟩⟩
  obtain rfl := List.mem_singleton.1 mem
  refine ⟨canonical_of_readContent read, fun tag mem => ?_⟩
  exact valid_of_checkTags checked tag (TagSet.mem_ofList.1 mem)

theorem sound_newContent {e : Edit} {old new : List Piece} (h : e.newContent old = .ok new)
    (before : old ≠ [] ∧ Markup.Canonical old) : new ≠ [] ∧ Markup.Canonical new := by
  unfold Edit.newContent at h
  split at h
  · cases h
    exact before
  · obtain ⟨content, read, h⟩ := Disk.exists_of_bind_ok h
    split at h
    · cases h
    · rename_i filled
      cases h
      exact ⟨filled, canonical_of_readContent read⟩

theorem valid_newTags {e : Edit} {old new : TagSet} (h : e.newTags old = .ok new)
    (before : ∀ tag ∈ old.toList, isValidTag tag = true) :
    ∀ tag ∈ new.toList, isValidTag tag = true := by
  unfold Edit.newTags at h
  obtain ⟨⟨⟩, set_checked, h⟩ := Disk.exists_of_bind_ok h
  obtain ⟨⟨⟩, added_checked, h⟩ := Disk.exists_of_bind_ok h
  cases h
  have set : ∀ tag ∈ (if e.tags.isEmpty then old else .ofList e.tags : TagSet).toList,
      isValidTag tag = true := by
    split
    · exact before
    · exact fun tag mem => valid_of_checkTags set_checked tag (TagSet.mem_ofList.1 mem)
  generalize (if e.tags.isEmpty then old else .ofList e.tags : TagSet) = tags at set ⊢
  have added : ∀ tag ∈ (e.addedTag.elim tags tags.insert).toList, isValidTag tag = true := by
    cases new : e.addedTag with
    | none => exact set
    | some t =>
      rw [new] at added_checked
      intro tag mem
      rcases mem_insertOrdered.1 mem with rfl | old
      · exact valid_of_checkTags added_checked tag (List.mem_singleton_self _)
      · exact set tag old
  generalize e.addedTag.elim tags tags.insert = tags at added ⊢
  cases e.removedTag with
  | none => exact added
  | some t => exact fun tag mem => added tag (List.mem_filter.1 mem).1

theorem expressible_of_apply {e : Edit} {old new : Definition} (h : e.apply old = .ok new)
    (before : old.Expressible) : new.Expressible := by
  unfold Edit.apply at h
  obtain ⟨content, read, h⟩ := Disk.exists_of_bind_ok h
  obtain ⟨tags, checked, h⟩ := Disk.exists_of_bind_ok h
  cases h
  obtain ⟨nonempty, canonical⟩ := sound_newContent read ⟨before.nonempty, before.writable.content⟩
  exact ⟨nonempty, canonical, valid_newTags checked before.writable.tags⟩

theorem leaves_clean_add {markup : String} {description : Option String} {tags : List String}
    (clean : Clean base path d) :
    Leaves (add path s markup description tags) d (Clean base path) := by
  refine (ensures_except fun _ _ => clean).bind ?_
  rintro words d' ⟨rfl, new⟩
  obtain ⟨ds, rfl, given⟩ := expressible_of_newWords new
  exact (Store.leaves_clean_create clean given).adapt

theorem leaves_clean_edit {e : Edit} (clean : Clean base path d) :
    Leaves (edit path fragment e) d (Clean base path) := by
  have resolved := (Store.leaves_clean_run (.resolve fragment) clean trivial).of_ignored
  refine resolved.adapt.bind fun key d' clean => ?_
  split
  · exact ensures_pure clean
  refine (Store.ensures_clean_get clean).adapt.bind fun old d' ⟨clean, before⟩ => ?_
  refine (ensures_except fun _ _ => clean).bind ?_
  rintro new d' ⟨rfl, applied⟩
  have after := expressible_of_apply applied before
  have updated := (Store.leaves_clean_run (.update key new) clean after).of_ignored
  refine updated.adapt.bind fun _ _ clean => ?_
  exact ensures_pure clean

theorem leaves_clean_list {limit : Option Nat} {unreviewed : Bool} (clean : Clean base path d) :
    Leaves (list path limit unreviewed) d (Clean base path) := by
  refine (Store.ensures_list.looks clean).adapt.bind fun _ _ clean => ?_
  exact ensures_pure clean

theorem leaves_clean_review {fragments : List String} {now : Time.Instant} (valid : now.isValid)
    (clean : Clean base path d) :
    Leaves (review path fragments now) d (Clean base path) := by
  refine (leaves_mapM (fun f d clean => ?_) clean).bind fun keys d clean => ?_
  · exact (Store.leaves_clean_run (.resolve f) clean trivial).of_ignored.adapt
  · refine leaves_mapM (fun key d clean => ?_) clean
    exact (Store.leaves_clean_run (.review key now valid) clean trivial).of_ignored.adapt

theorem leaves_clean_delete {fragments : List String} {force : Bool} (clean : Clean base path d) :
    Leaves (delete path fragments force) d (Clean base path) := by
  have found : Leaves (resolve path fragments) d (Clean base path) := by
    refine ensures_foldlM (fun entries f d clean => ?_) fragments clean
    have resolved := (Store.leaves_clean_run (.resolve f) clean trivial).of_ignored
    refine resolved.adapt.bind fun key d clean => ?_
    split
    · exact ensures_pure clean
    · refine (Store.ensures_clean_get clean).adapt.bind fun e d ⟨clean, _⟩ => ?_
      exact ensures_pure clean
  refine found.bind fun entries d clean => ?_
  split
  · refine leaves_mapM (fun e d clean => ?_) clean
    exact (Store.leaves_clean_run (.remove e.key) clean trivial).of_ignored.adapt
  · exact ensures_throw clean

theorem leaves_clean_startSession {now : Time.Instant} (valid : now.isValid)
    (clean : Clean base path d) :
    Leaves (startSession path now) d (Clean base path) := by
  have reset := Store.leaves_clean_run (.resetSession now valid) clean trivial
  refine reset.adapt.bind fun _ d clean => ?_
  exact (Store.ensures_size.looks clean).adapt

theorem leaves_clean_exportTo (clean : Clean base path d) :
    Leaves (exportTo path output) d (Clean base path) := by
  refine (Store.ensures_clean_exportText clean).adapt.bind fun text d' ⟨clean, good⟩ => ?_
  split
  · exact ensures_pure clean
  refine (leaves_write clean fun d done => clean.write good done).bind fun reply d clean => ?_
  cases reply with
  | error e => exact ensures_throw clean
  | ok => exact (Store.ensures_size.looks clean).adapt.bind fun _ _ clean => ensures_pure clean

theorem leaves_clean_task {settings : Settings} {task : WordTask} (valid : s.now.isValid)
    (clean : Clean base path d) :
    Leaves (task.run path settings s r) d (Clean base path) := by
  cases task with
  | query text =>
    refine (Store.leaves_clean_query valid clean).adapt.bind fun x d clean => ?_
    exact ensures_pure clean
  | add content description tags =>
    exact (leaves_clean_add clean).bind fun _ _ clean => ensures_pure clean
  | list limit unreviewed =>
    exact (leaves_clean_list clean).bind fun _ _ clean => ensures_pure clean
  | review fragments =>
    exact (leaves_clean_review valid clean).bind fun _ _ clean => ensures_pure clean
  | edit key e =>
    refine (leaves_clean_edit clean).bind fun x _ clean => ?_
    cases x <;> exact ensures_pure clean
  | delete keys force =>
    exact (leaves_clean_delete clean).bind fun _ _ clean => ensures_pure clean
  | session =>
    exact (leaves_clean_startSession valid clean).bind fun _ _ clean => ensures_pure clean
  | dump output => exact leaves_clean_exportTo clean

/-- A task on words, with all that its run depends on. -/
structure Invocation (ρ : Type) where
  environment : Environment
  preferences : Preferences := {}
  surroundings : Store.Surroundings
  valid : surroundings.now.isValid
  random : ρ
  task : WordTask

namespace Invocation

def run (i : Invocation ρ) (d : Disk) : Transcript × Disk :=
  (Command.run i.environment i.preferences i.surroundings i.random (.words i.task)).run d

/-- If a path of the collection is found, it leads where this one leads. -/
def FindsOnly (path : String) (i : Invocation ρ) (d : Disk) : Prop :=
  ∀ settings store, outcome (found i.environment i.preferences) d = (.ok (settings, store), d) →
    placeFrom d.here store = placeFrom d.here path

end Invocation

def after (is : List (Invocation ρ)) (d : Disk) : Disk := is.foldl (fun d i => (i.run d).2) d

def Share (path : String) : List (Invocation ρ) → Disk → Prop
  | [], _ => True
  | i :: others, d => i.FindsOnly path d ∧ Share path others (i.run d).2

theorem clean_run {i : Invocation ρ} (finds : i.FindsOnly path d) (clean : Clean base path d) :
    Clean base path (i.run d).2 := by
  have each (settings : Settings) (store : String)
      (here : outcome (found i.environment i.preferences) d = (.ok (settings, store), d)) :
      Leaves (i.task.run store settings i.surroundings i.random) d (Clean base path) := by
    have same := finds settings store here
    rw [clean.here] at same
    exact (leaves_clean_task i.valid (Store.clean_of_same_place same clean)).mono
      (fun _ _ => Store.clean_of_same_place same.symm) fun _ _ => Store.clean_of_same_place same.symm
  rcases run_of_ensures (fun _ => clean) each rfl with ⟨o, -, clean⟩ | ⟨error, -, clean⟩
  · exact clean
  · exact clean

theorem clean_after {is : List (Invocation ρ)} (share : Share path is d) (clean : Clean base path d) :
    Clean base path (after is d) := by
  induction is generalizing d with
  | nil => exact clean
  | cons i others ih => exact ih share.2 (clean_run share.1 clean)

theorem outcome_query_tag {c : Collection} {tag : String} {settings : Settings}
    (loaded : Store.Loaded path d c) (valid : isValidTag tag = true) :
    outcome (WordTask.run path settings s r (.query (some ("#" ++ tag)))) d =
      (.ok (.listed (c.entries.filter fun e => e.word.hasTag tag)), d) := by
  have snapshot : outcome (Store.snapshot path s.now (.filter (.hasTag tag) [])) d =
      (.ok (c.entries.filter fun e => e.word.hasTag tag), d) := by
    rw [Store.snapshot, Store.QueryAction.ofStore, Files.outcome_adapt, Store.list,
      Files.outcome_bind_of_ok loaded]
    rfl
  have asked : outcome (Store.query path s r ("#" ++ tag)) d =
      (.ok (.listed (c.entries.filter fun e => e.word.hasTag tag), r), d) := by
    rw [Store.query, Query.parse_tag valid]
    dsimp only
    rw [Store.runQuery, Files.outcome_bind_of_ok snapshot]
    simp only [Query.evaluate, Query.Condition.holds, Query.runSteps, List.foldl_nil,
      List.filter_filter, Bool.and_self]
    rfl
  have run : outcome (Action.ofQuery ("#" ++ tag) (Store.query path s r ("#" ++ tag))) d =
      (.ok (.listed (c.entries.filter fun e => e.word.hasTag tag), r), d) := by
    rw [Action.ofQuery, Files.outcome_adapt, asked]
    rfl
  exact Files.outcome_bind_of_ok run

/-- A stored word that can be told in markup, and that each of its tags finds. -/
structure Addressable (path : String) (d : Disk) (e : Entry) : Prop where
  nonempty : e.word.content ≠ []
  canonical : Markup.Canonical e.word.content
  valid : ∀ tag ∈ e.word.tags.toList, isValidTag tag = true
  read_back : Markup.parse (Markup.render e.word.content) = .ok e.word.content
  listed : ∀ tag ∈ e.word.tags.toList, ∀ settings s {ρ : Type} [RandomSource ρ] (r : ρ), ∃ entries,
    outcome (WordTask.run path settings s r (.query (some ("#" ++ tag)))) d = (.ok (.listed entries), d) ∧
      e ∈ entries

theorem addressable_of_expressible {c : Collection} {e : Entry} (loaded : Store.Loaded path d c)
    (stored : e ∈ c.entries) (h : e.word.toDefinition.Expressible) : Addressable path d e where
  nonempty := h.nonempty
  canonical := h.writable.content
  valid := h.writable.tags
  read_back := Markup.parse_render h.writable.content
  listed tag tagged settings s _ _ r := by
    refine ⟨_, outcome_query_tag loaded (h.writable.tags tag tagged), ?_⟩
    exact List.mem_filter.2 ⟨stored, List.contains_iff_mem.2 tagged⟩

/-- After any runs from no collection on, all of which work on one, what is stored is a collection of
addressable words. -/
theorem addressable_after {is : List (Invocation ρ)} {bytes : ByteArray}
    (fresh : ∀ bytes, d.node? (placeFrom d.here path) ≠ some (.file bytes)) (share : Share path is d)
    (stored : (after is d).read path = .ok bytes) :
    ∃ c, Store.decode path bytes = .ok c ∧ ∀ e ∈ c.entries, Addressable path (after is d) e := by
  have clean : Clean d.here path (after is d) :=
    clean_after share ⟨rfl, fun bytes node => absurd node (fresh bytes)⟩
  obtain ⟨c, decoded, good⟩ := clean.of_read stored
  have loaded : Store.Loaded path (after is d) c := by
    rw [Store.Loaded, Store.loadOrEmpty_eq, stored, ← decoded]
  refine ⟨c, decoded, fun e mem => addressable_of_expressible loaded mem ?_⟩
  obtain ⟨p, record, rfl⟩ := List.mem_map.1 mem
  exact good.words p record

def addSea : Invocation Random where
  environment := { settings := some "config.toml" }
  preferences := { store := some "words.json" }
  surroundings := ⟨⟨0, 0, 0⟩, fun _ => "a"⟩
  valid := by decide
  random := ⟨0⟩
  task := .add "sea(s)" none ["water"]

def seaEntry : Entry :=
  ⟨"a", .ofDefinition ⟨[.plain "sea", .optional "s"], "", .ofList ["water"]⟩⟩

theorem run_addSea : (addSea.run {}).2 =
    { nodes := [(["words.json"], .file (({} : Collection).add [seaEntry]).text.toUTF8)] } := by
  have there : outcome (found addSea.environment addSea.preferences) {} =
      (.ok ({}, "words.json"), {}) := rfl
  have new : newWords "sea(s)" none ["water"] = .ok [seaEntry.word] := by decide +kernel
  have added : outcome (add "words.json" addSea.surroundings "sea(s)" none ["water"]) {} =
      (.ok [seaEntry],
        { nodes := [(["words.json"], .file (({} : Collection).add [seaEntry]).text.toUTF8)] }) := by
    rw [add, new]
    rfl
  rw [Invocation.run, run_words, shown_eq, Files.outcome_bind_of_ok there,
    Files.outcome_bind_of_ok (Files.outcome_bind_of_ok added)]
  rfl

theorem addressable_sea : ∃ c bytes, (after [addSea] {}).read "words.json" = .ok bytes ∧
    Store.decode "words.json" bytes = .ok c ∧ c.entries = [seaEntry] ∧
    ∀ e ∈ c.entries, Addressable "words.json" (after [addSea] {}) e := by
  have fresh : ∀ bytes, ({} : Disk).node? (placeFrom [] "words.json") ≠ some (.file bytes) := by
    have absent : ({} : Disk).node? (placeFrom [] "words.json") = none := rfl
    rw [absent]
    exact nofun
  have share : Share "words.json" [addSea] {} := by
    refine ⟨fun settings store here => ?_, trivial⟩
    cases here
    rfl
  have stored : (after [addSea] {}).read "words.json" =
      .ok (({} : Collection).add [seaEntry]).text.toUTF8 := by
    change (addSea.run {}).2.read "words.json" = _
    rw [run_addSea]
    rfl
  have unreviewed : seaEntry.word.Readable := by
    rintro t ⟨⟩
  have readable : (({} : Collection).add [seaEntry]).Readable :=
    (Store.Operation.sound_add Store.readable_empty (List.forall_mem_singleton.2 unreviewed)).1
  obtain ⟨c, decoded, all⟩ := addressable_after fresh share stored
  cases (Store.decode_text readable (UInt32.le_refl _)).symm.trans decoded
  exact ⟨_, _, stored, decoded, rfl, all⟩

end Command

end Wordhoard
