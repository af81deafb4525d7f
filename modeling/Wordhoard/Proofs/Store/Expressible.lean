import Wordhoard.Proofs.Files.Place
import Wordhoard.Proofs.Query.Print
import Wordhoard.Proofs.Store.Failure

/-! Stored words that queries can express: they have content, and it can be written as markup, and their
tags can be asked for. Main statement: an operation that is given such definitions leaves only such words
in the file of the collection, wherever it stops. -/
namespace Wordhoard

open Files (Disk Ensures ensures_of_error ensures_of_ok Leaves outcome Place Program)

/-- A definition that a query can insert. -/
structure Definition.Expressible (d : Definition) : Prop where
  nonempty : d.content ≠ []
  writable : Query.Writable d

/-- A collection that can be saved and loaded, and in which every word is expressible. -/
structure Collection.Expressible (c : Collection) : Prop where
  readable : c.Readable
  version : c.version ≤ currentVersion
  words : ∀ p ∈ c.records.toList, p.2.toDefinition.Expressible

namespace Store

variable {α β : Type} {path target key : String} {c c' : Collection} {d d' : Disk} {base : Place}
  {bytes content : ByteArray} {op : Operation}

theorem expressible_empty : ({} : Collection).Expressible :=
  ⟨readable_empty, UInt32.le_refl _, nofun⟩

def Operation.Expressible : Operation → Prop
  | create _ definitions => ∀ d ∈ definitions, d.Expressible
  | update _ definition => definition.Expressible
  | _ => True

theorem words_put {w : Word} (h : ∀ p ∈ c.records.toList, p.2.toDefinition.Expressible)
    (new : w.toDefinition.Expressible) :
    ∀ p ∈ (c.put key w).records.toList, p.2.toDefinition.Expressible := by
  intro p mem
  rcases mem_of_mem_putOrdered mem with rfl | old
  · exact new
  · exact h p old

theorem words_add {entries : List Entry} (h : ∀ p ∈ c.records.toList, p.2.toDefinition.Expressible)
    (new : ∀ e ∈ entries, e.word.toDefinition.Expressible) :
    ∀ p ∈ (c.add entries).records.toList, p.2.toDefinition.Expressible := by
  induction entries generalizing c with
  | nil => exact h
  | cons e others ih =>
    obtain ⟨first, further⟩ := List.forall_mem_cons.1 new
    exact ih (words_put h first) further

theorem definition_review (w : Word) (now : Time.Instant) :
    (w.review now).2.toDefinition = w.toDefinition := by
  unfold Word.review
  split <;> rfl

theorem expressible_effect (h : c.Expressible) (given : op.Expressible)
    (changes : op.effect c = .ok c') : c'.Expressible := by
  obtain ⟨readable, version⟩ := Operation.sound_effect h.readable changes
  refine ⟨readable, version ▸ h.version, ?_⟩
  cases op with
  | create newKey definitions =>
    cases changes
    refine words_add h.words fun e mem => ?_
    obtain ⟨n, inside, rfl⟩ := List.exists_of_mem_mapIdx mem
    rw [List.getElem_map]
    exact given _ (List.getElem_mem _)
  | review key now valid =>
    obtain ⟨e, found, rfl⟩ := Operation.exists_of_map_eq_ok changes
    split
    · refine words_put h.words ?_
      rw [definition_review]
      exact h.words _ (Operation.mem_of_entryOf found)
    · exact h.words
  | update key definition =>
    obtain ⟨e, -, rfl⟩ := Operation.exists_of_map_eq_ok changes
    exact words_put h.words given
  | remove key =>
    obtain ⟨e, -, rfl⟩ := Operation.exists_of_map_eq_ok changes
    exact fun p mem => h.words p (List.mem_filter.1 mem).1
  | resetSession now valid =>
    cases changes
    intro p mem
    obtain ⟨q, old, rfl⟩ := List.mem_map.1 mem
    exact h.words q old
  | list keep =>
    cases changes
    exact h.words
  | get key =>
    obtain ⟨e, -, rfl⟩ := Operation.exists_of_map_eq_ok changes
    exact h.words
  | size =>
    cases changes
    exact h.words
  | resolve fragment =>
    obtain ⟨key, -, rfl⟩ := Operation.exists_of_map_eq_ok changes
    exact h.words
  | exportText =>
    cases changes
    exact h.words

def Good (path : String) (bytes : ByteArray) : Prop :=
  ∃ c, decode path bytes = .ok c ∧ c.Expressible

theorem good_text (h : c.Expressible) : Good path c.text.toUTF8 :=
  ⟨c, decode_text h.readable h.version, h⟩

theorem Good.elsewhere (h : Good path bytes) : Good target bytes := by
  obtain ⟨c, decoded, good⟩ := h
  refine ⟨c, ?_, good⟩
  unfold decode at decoded ⊢
  split at decoded
  · cases decoded
  · exact decoded

/-- No file but one of expressible words lies where the path leads from the base. -/
abbrev Clean (base : Place) (path : String) : Disk → Prop := Disk.Keeps base path (Good path)

theorem clean_of_same_place (same : Files.placeFrom base target = Files.placeFrom base path)
    (clean : Clean base path d) : Clean base target d where
  here := clean.here
  file bytes node := (clean.file bytes (same ▸ node)).elsewhere

theorem expressible_of_loaded (clean : Clean base path d) (loaded : Loaded path d c) :
    c.Expressible := by
  unfold Loaded at loaded
  rw [loadOrEmpty_eq] at loaded
  have result := (Prod.mk.inj loaded).1
  split at result
  · cases result
    exact expressible_empty
  · cases result
  · rename_i bytes stored
    obtain ⟨c', decoded, good⟩ := clean.of_read stored
    cases result.symm.trans decoded
    exact good

theorem leaves_clean_replace {source : String} {e e' : Error} (clean : Clean base path d)
    (good : Good path content) :
    Leaves (do
        attempt (Program.request (.write source content)) e
        attempt (Program.request (.rename source target)) e') d (Clean base path) := by
  have written : Ensures (attempt (Program.request (.write source content)) e) d
      (fun _ d' => Clean base path d' ∧ d'.read source = .ok content) (fun _ => Clean base path) :=
    ensures_change rfl (fun d' done => ⟨clean.write good done, Disk.read_of_write done⟩) fun _ _ => clean
  refine written.bind fun _ d₁ ⟨clean, stored⟩ => ?_
  exact ensures_change rfl (fun d₂ moved => clean.rename stored good moved) fun _ _ => clean

theorem leaves_clean_save (clean : Clean base path d) (good : Good path c.text.toUTF8) :
    Leaves (save target c) d (Clean base path) := by
  rw [save_eq]
  refine (leaves_prepare clean fun _ => clean.createDirectories).bind fun _ d' clean => ?_
  exact leaves_clean_replace clean good

theorem leaves_clean_run (op : Operation) (clean : Clean base path d) (given : op.Expressible) :
    Leaves (op.run path) d (Clean base path) := by
  cases load : outcome (loadOrEmpty path) d with
  | mk result d₁ =>
    obtain rfl := disk_of_load load
    cases result with
    | error e => exact ensures_of_error (outcome_run_of_unread op load) clean
    | ok c =>
      have old := expressible_of_loaded clean load
      rcases op.run_cases load with ⟨e, -, same⟩ | ⟨-, same⟩ | ⟨c', changes, same⟩
      · exact ensures_of_error same clean
      · exact ensures_of_ok same clean
      · have good : Good path c'.text.toUTF8 := good_text (expressible_effect old given changes)
        exact (leaves_clean_save clean good).of_eq same

end Store

end Wordhoard
