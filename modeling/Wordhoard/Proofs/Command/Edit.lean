import Wordhoard.Proofs.Command.Expressible
import Wordhoard.Proofs.Command.Insertion
import Wordhoard.Proofs.Command.Resolving

/-! Edits of one word. Main statement: an edit is refused for the first reason that there is, and else
changes of the word just what it says, and of the other words nothing. -/
namespace Wordhoard

namespace Command

open Files (always_of_looks Always Disk outcome outcome_bind_of_error outcome_bind_of_ok Withstands
  withstands_pure)
open Files.Program (Ends)
open Store (Loaded SavesBeside temporary)

namespace Edit

def Readable (e : Edit) : Prop :=
  ∀ markup ∈ e.content, ∃ piece others, Markup.parse markup = .ok (piece :: others)

/-- Why an edit is refused: the content counts first, then the tags to set, then the one to add. -/
inductive Refused (e : Edit) : Error → Prop where
  | unbalanced {markup : String} {error : Markup.Error} (given : e.content = some markup)
      (unread : Markup.parse markup = .error error) : Refused e (.content error)
  | empty {markup : String} (given : e.content = some markup) (none : Markup.parse markup = .ok []) :
      Refused e (.evaluate (.emptyContent 0))
  | tag {before after : List String} {tag : String} (readable : e.Readable)
      (given : e.tags = before ++ tag :: after) (valid : ∀ t ∈ before, isValidTag t)
      (invalid : ¬ isValidTag tag) : Refused e (.invalidTag tag)
  | added {tag : String} (readable : e.Readable) (valid : ∀ t ∈ e.tags, isValidTag t)
      (given : e.addedTag = some tag) (invalid : ¬ isValidTag tag) : Refused e (.invalidTag tag)

structure Makes (e : Edit) (old new : Word) : Prop where
  count : new.reviewCount = old.reviewCount
  last : new.lastReviewed = old.lastReviewed
  reviewed : new.reviewed = old.reviewed
  content : ∀ markup ∈ e.content, Markup.parse markup = .ok new.content
  oldContent : e.content = none → new.content = old.content
  description : new.description = e.description.getD old.description
  tags : ∀ tag, tag ∈ new.tags.toList ↔ some tag ≠ e.removedTag ∧
    (some tag = e.addedTag ∨ if e.tags = [] then tag ∈ old.tags.toList else tag ∈ e.tags)

variable {e : Edit} {old : Definition} {x : Error}

theorem parts_eq_nil_iff : e.parts = [] ↔ e = {} := by
  obtain ⟨content, description, tags, added, removed⟩ := e
  cases content <;> cases description <;> cases tags <;> cases added <;> cases removed <;>
    simp [parts, changesTags]

theorem nodup_parts (e : Edit) : (e.parts.map Part.name).Nodup := by
  unfold parts
  cases e.content.isSome <;> cases e.description.isSome <;> cases e.changesTags <;> decide

theorem checkTags_of_invalid {before after : List String} {tag : String}
    (valid : ∀ t ∈ before, isValidTag t) (invalid : ¬ isValidTag tag) :
    checkTags (before ++ tag :: after) = .error (.invalidTag tag) := by
  have found : (before ++ tag :: after).find? (!isValidTag ·) = some tag := by
    refine List.find?_eq_some_iff_append.2 ⟨by simpa using invalid, before, after, rfl, ?_⟩
    simpa using valid
  rw [checkTags, found]

theorem exists_newContent (readable : e.Readable) (pieces : List Piece) : ∃ content,
    e.newContent pieces = .ok content ∧ (∀ markup ∈ e.content, Markup.parse markup = .ok content) ∧
      (e.content = none → content = pieces) := by
  unfold newContent
  cases given : e.content with
  | none => exact ⟨pieces, rfl, nofun, fun _ => rfl⟩
  | some markup =>
    obtain ⟨piece, others, read⟩ := readable markup given
    refine ⟨piece :: others, ?_, ?_, nofun⟩
    · dsimp only
      rw [readContent, read]
      rfl
    · rintro _ ⟨⟩
      exact read

theorem exists_newTags (e : Edit) (valid : ∀ tag ∈ e.tags, isValidTag tag)
    (added : ∀ tag ∈ e.addedTag, isValidTag tag) (old : TagSet) : ∃ tags,
    e.newTags old = .ok tags ∧ ∀ tag, tag ∈ tags.toList ↔ some tag ≠ e.removedTag ∧
      (some tag = e.addedTag ∨ if e.tags = [] then tag ∈ old.toList else tag ∈ e.tags) := by
  have checked := checkTags_of_valid valid
  have checked' : checkTags e.addedTag.toList = .ok () := checkTags_of_valid (by simpa using added)
  unfold newTags
  rw [checked, checked']
  refine ⟨_, rfl, fun tag => ?_⟩
  have set : tag ∈ (if e.tags.isEmpty then old else TagSet.ofList e.tags).toList ↔
      if e.tags = [] then tag ∈ old.toList else tag ∈ e.tags := by
    cases given : e.tags with
    | nil => simp
    | cons t others => simp [TagSet.mem_ofList]
  rw [← set]
  generalize (if e.tags.isEmpty then old else TagSet.ofList e.tags) = set
  have insert : tag ∈ (e.addedTag.elim set set.insert).toList ↔
      some tag = e.addedTag ∨ tag ∈ set.toList := by
    cases e.addedTag with
    | none => simp
    | some t => simp [TagSet.insert, mem_insertOrdered]
  rw [← insert]
  cases e.removedTag with
  | none => simp
  | some t => simp [TagSet.erase, and_comm]

theorem newContent_of_unbalanced {markup : String} {error : Markup.Error}
    (given : e.content = some markup) (unread : Markup.parse markup = .error error)
    (pieces : List Piece) : e.newContent pieces = .error (.content error) := by
  unfold newContent
  rw [given]
  dsimp only
  rw [readContent, unread]
  rfl

theorem newContent_of_empty {markup : String} (given : e.content = some markup)
    (none : Markup.parse markup = .ok []) (pieces : List Piece) :
    e.newContent pieces = .error (.evaluate (.emptyContent 0)) := by
  unfold newContent
  rw [given]
  dsimp only
  rw [readContent, none]
  rfl

theorem apply_of_refused (h : e.Refused x) (old : Definition) : e.apply old = .error x := by
  unfold apply
  cases h with
  | unbalanced given unread =>
    rw [newContent_of_unbalanced given unread]
    rfl
  | empty given none =>
    rw [newContent_of_empty given none]
    rfl
  | tag readable given valid invalid =>
    obtain ⟨content, read, -⟩ := exists_newContent readable old.content
    rw [read, newTags, given, checkTags_of_invalid valid invalid]
    rfl
  | @added tag readable valid given invalid =>
    obtain ⟨content, read, -⟩ := exists_newContent readable old.content
    have refused : checkTags e.addedTag.toList = .error (.invalidTag tag) := by
      rw [given]
      exact checkTags_of_invalid (List.forall_mem_nil _) invalid
    rw [read, newTags, checkTags_of_valid valid, refused]
    rfl

theorem not_refused (readable : e.Readable) (valid : ∀ t ∈ e.tags, isValidTag t)
    (added : ∀ t ∈ e.addedTag, isValidTag t) : ∀ x, ¬ e.Refused x := by
  rintro x refused
  cases refused with
  | unbalanced given unread =>
    obtain ⟨_, _, read⟩ := readable _ given
    cases unread.symm.trans read
  | empty given none =>
    obtain ⟨_, _, read⟩ := readable _ given
    cases none.symm.trans read
  | tag _ given _ invalid => exact invalid (valid _ (by simp [given]))
  | added _ _ given invalid => exact invalid (added _ given)

theorem exists_apply (allowed : ∀ x, ¬ e.Refused x) (old : Word) :
    ∃ d, e.apply old.toDefinition = .ok d ∧ e.Makes old (old.redefine d) := by
  have readable : e.Readable := by
    intro markup given
    cases read : Markup.parse markup with
    | error error => exact absurd (.unbalanced given read) (allowed _)
    | ok content =>
      cases content with
      | nil => exact absurd (.empty given read) (allowed _)
      | cons piece others => exact ⟨piece, others, rfl⟩
  have valid : ∀ tag ∈ e.tags, isValidTag tag := by
    cases first : e.tags.find? (!isValidTag ·) with
    | none => simpa using first
    | some tag =>
      obtain ⟨invalid, before, after, given, checked⟩ := List.find?_eq_some_iff_append.1 first
      refine absurd (.tag readable given ?_ ?_) (allowed (.invalidTag tag))
      · simpa using checked
      · simpa using invalid
  have added : ∀ tag ∈ e.addedTag, isValidTag tag := by
    intro tag given
    by_contra invalid
    exact allowed _ (.added readable valid given invalid)
  obtain ⟨content, read, fresh, same⟩ := exists_newContent readable old.content
  obtain ⟨tags, set, members⟩ := exists_newTags e valid added old.tags
  refine ⟨⟨content, e.description.getD old.description, tags⟩, ?_, ?_⟩
  · rw [apply, read, set]
    rfl
  · exact ⟨rfl, rfl, rfl, fresh, same, rfl, members⟩

end Edit

variable {path fragment key : String} {c : Collection} {d : Disk} {e : Edit} {old : Word} {x : Error}

theorem always_edit_of_nothing (loaded : Loaded path d c) (resolved : c.resolve fragment = .ok key) :
    Always (edit path fragment {}) d (.ok none) d :=
  (always_resolveKey loaded resolved).bind (always_of_looks trivial rfl)

def editStored (path key : String) (e : Edit) (old : Entry) : Action (Option (Entry × List Part)) := do
  let definition ← e.apply old.word.toDefinition
  let entry ← Action.ofStore (Store.update path key definition)
  return some (entry, e.parts)

theorem edit_eq (changes : e ≠ {}) : edit path fragment e = (do
    let key ← .ofStore (Store.resolve path fragment)
    let old ← .ofStore (Store.get path key)
    editStored path key e old) := by
  have parts : ¬ e.parts.isEmpty := by rwa [List.isEmpty_iff, Edit.parts_eq_nil_iff]
  simp only [edit, editStored, if_neg parts]

theorem always_getEntry (loaded : Loaded path d c) (stored : c.entry? key = some ⟨key, old⟩) :
    Always (Action.ofStore (Store.get path key)) d (.ok ⟨key, old⟩) d :=
  always_of_looks (looks_getEntry path key) (outcome_getEntry loaded stored)

theorem always_edit_of_refused (loaded : Loaded path d c) (resolved : c.resolve fragment = .ok key)
    (stored : c.entry? key = some ⟨key, old⟩) (refused : e.Refused x) :
    Always (edit path fragment e) d (.error x) d := by
  have changes : e ≠ {} := by
    rintro rfl
    cases refused with
    | unbalanced given _ => cases given
    | empty given _ => cases given
    | tag _ given _ _ => cases List.append_ne_nil_of_right_ne_nil _ (List.cons_ne_nil _ _) given.symm
    | added _ _ given _ => cases given
  rw [edit_eq changes]
  refine (always_resolveKey loaded resolved).bind ((always_getEntry loaded stored).bind ?_)
  rw [editStored, Edit.apply_of_refused refused]
  exact Always.bind_error (always_of_looks trivial rfl)

theorem withstands_edit_allowed (loaded : Loaded path d c) (resolved : c.resolve fragment = .ok key)
    (stored : c.entry? key = some ⟨key, old⟩) (changes : e ≠ {}) {definition : Definition}
    (applied : e.apply old.toDefinition = .ok definition) :
    Withstands (edit path fragment e) d
      (fun answer d' => answer = some (⟨key, old.redefine definition⟩, e.parts) ∧
        Loaded path d' (c.put key (old.redefine definition)))
      (fun x d' => ∃ saving, x = .store saving ∧
        Store.Unsaved path c (c.put key (old.redefine definition)) saving d') := by
  have found := Store.entryOf_eq_ok_iff.2 stored
  rw [edit_eq changes]
  refine (always_resolveKey loaded resolved).bind_withstands
    ((always_getEntry loaded stored).bind_withstands ?_)
  rw [editStored, applied]
  refine (withstands_ofStore (Store.withstands_update_of_entry loaded found)).bind ?_
  rintro _ d' ⟨rfl, later⟩
  exact withstands_pure ⟨rfl, later⟩

/-- Whatever is loaded, and whatever key the fragment stands for. An edit of nothing gives nothing and
leaves the disk alone. An edit that is refused fails with the first reason that there is and leaves the
disk alone. Any other one makes a word. If no change of the disk fails, it gives that word, which is
stored in place of the old one while all else is as before; and else it fails with the error of saving,
and with a temporary file of its own the collection is stored as it was or as it should be. -/
theorem edit_changes_what_it_says (loaded : Loaded path d c) (resolved : c.resolve fragment = .ok key)
    (e : Edit) : ∃ old, c.entry? key = some ⟨key, old⟩ ∧
      (e = {} → Always (edit path fragment e) d (.ok none) d) ∧
      (∀ x, e.Refused x → Always (edit path fragment e) d (.error x) d) ∧
      (e ≠ {} → (∀ x, ¬ e.Refused x) → ∃ new records, e.Makes old new ∧
        records.toList = c.records.toList.map (fun p => if p.1 = key then (key, new) else p) ∧
        Collection.entry? { c with records } key = some ⟨key, new⟩ ∧
        Withstands (edit path fragment e) d
          (fun answer d' => answer = some (⟨key, new⟩, e.parts) ∧ Loaded path d' { c with records })
          (fun x d' => ∃ saving, x = .store saving ∧ saving.ofSave = true ∧
            (SavesBeside path → Loaded path d' c ∨ Loaded path d' { c with records }))) ∧
      (e.parts.map Part.name).Nodup := by
  obtain ⟨old, stored⟩ := Store.exists_entry (Store.mem_keys_of_resolve resolved)
  refine ⟨old, stored, ?_, ?_, ?_, e.nodup_parts⟩
  · rintro rfl
    exact always_edit_of_nothing loaded resolved
  · exact fun x refused => always_edit_of_refused loaded resolved stored refused
  · intro changes allowed
    obtain ⟨definition, applied, makes⟩ := e.exists_apply allowed old
    have records := Store.toList_put (Store.mem_keys_of_entryOf (Store.entryOf_eq_ok_iff.2 stored))
      (w := old.redefine definition)
    refine ⟨old.redefine definition, _, makes, records, ?_,
      withstands_edit_allowed loaded resolved stored changes applied⟩
    rw [Store.entry?_eq_some_iff, records]
    exact List.mem_map.2 ⟨_, Store.entry?_eq_some_iff.1 stored, if_pos rfl⟩

theorem outcome_edit (loaded : Loaded path d c) (resolved : c.resolve fragment = .ok key)
    (stored : c.entry? key = some ⟨key, old⟩) (changes : e ≠ {}) {definition : Definition}
    (applied : e.apply old.toDefinition = .ok definition) :
    outcome (edit path fragment e) d = outcome (do
      let entry ← Action.ofStore (Store.update path key definition)
      return some (entry, e.parts)) d := by
  have applies : outcome (liftM (e.apply old.toDefinition) : Action Definition) d = (.ok definition, d) := by
    rw [applied]
    rfl
  rw [edit_eq changes, outcome_bind_of_ok (outcome_resolveKey loaded resolved),
    outcome_bind_of_ok (outcome_getEntry loaded stored), editStored, outcome_bind_of_ok applies]

def seaChanges : Edit where
  content := some "(the) sea"
  tags := ["water", "blue"]
  addedTag := some "salt"
  removedTag := some "blue"

theorem allowed_seaChanges : ∀ x, ¬ seaChanges.Refused x := by
  have read : Markup.parse "(the) sea" = .ok [.optional "the", .plain " sea"] := by decide +kernel
  refine Edit.not_refused ?_ (by decide +kernel) (by decide +kernel)
  rintro _ ⟨⟩
  exact ⟨_, _, read⟩

theorem edit_of_sea :
    Loaded "words.json" (Store.alone Store.sea) Store.sea ∧ Store.sea.resolve "1" = .ok "a1" ∧
    ∃ old new records, Store.sea.entry? "a1" = some ⟨"a1", old⟩ ∧ seaChanges.Makes old new ∧
      records.toList = Store.sea.records.toList.map (fun p => if p.1 = "a1" then ("a1", new) else p) ∧
      Withstands (edit "words.json" "1" seaChanges) (Store.alone Store.sea)
        (fun answer d' => answer = some (⟨"a1", new⟩, seaChanges.parts) ∧
          Loaded "words.json" d' { Store.sea with records })
        (fun x d' => ∃ saving, x = .store saving ∧ saving.ofSave = true ∧
          (SavesBeside "words.json" →
            Loaded "words.json" d' Store.sea ∨ Loaded "words.json" d' { Store.sea with records })) ∧
      ∃ d', Ends (edit "words.json" "1" seaChanges).run (Store.alone Store.sea) false
        (.ok (some (⟨"a1", new⟩, seaChanges.parts))) d' := by
  have resolved : Store.sea.resolve "1" = .ok "a1" := by decide
  obtain ⟨old, stored, -, -, edited, -⟩ :=
    edit_changes_what_it_says Store.loaded_alone_sea resolved seaChanges
  obtain ⟨new, records, makes, same, -, withstands⟩ := edited (by decide) allowed_seaChanges
  obtain ⟨definition, applied, -⟩ := seaChanges.exists_apply allowed_seaChanges old
  have updates := outcome_ofStore (Store.update "words.json" "a1" definition)
    (d := Store.alone Store.sea)
  rw [Store.outcome_update_of_alone Store.loaded_alone_sea (Store.entryOf_eq_ok_iff.2 stored)] at updates
  have edits := outcome_edit Store.loaded_alone_sea resolved stored (by decide) applied
  rw [outcome_bind_of_ok updates] at edits
  obtain ⟨ends, told, -⟩ := withstands.ends_of_ok edits
  rw [told] at ends
  exact ⟨Store.loaded_alone_sea, resolved, old, new, records, stored, makes, same, withstands, _, ends⟩

/-- Nothing is wrong with the edit, but the file beside the collection cannot be written. -/
theorem edit_of_blocked_sea :
    Loaded "words.json" (Store.blocked Store.sea) Store.sea ∧ Store.sea.resolve "a1" = .ok "a1" ∧
    (∀ x, ¬ ({ description := some "blue" } : Edit).Refused x) ∧
    outcome (edit "words.json" "a1" { description := some "blue" }) (Store.blocked Store.sea) =
      (.error (.store (.write (temporary "words.json"))), Store.blocked Store.sea) := by
  have resolved : Store.sea.resolve "a1" = .ok "a1" := by decide
  have found : Store.entryOf Store.sea "a1" = .ok ⟨"a1", { content := [.plain "sea"] }⟩ := rfl
  refine ⟨Store.loaded_blocked_sea, resolved, ?_, ?_⟩
  · exact Edit.not_refused nofun nofun nofun
  · rw [outcome_edit Store.loaded_blocked_sea resolved (Store.entryOf_eq_ok_iff.1 found) (by decide) rfl]
    refine outcome_bind_of_error ?_
    rw [outcome_ofStore,
      Store.outcome_update_of_blocked Store.loaded_blocked_sea found _ Store.blocked_sea]
    rfl

end Command

end Wordhoard
