import Mathlib.Data.List.Infix
import Wordhoard.Query.Evaluate

/-! Occurrences of a needle as it is written. Lower-casing looks at neighbours in one case only: a
capital sigma becomes another letter at the end of a word. Main statement: an occurrence is found
whenever the capital sigmas of the needle end words in it just where they do in the text. -/
namespace Wordhoard

namespace Text

/-- A capital sigma between these characters, those before it nearest first, ends a word. -/
def endsWord (before after : List Char) : Bool := meetsCased before && !meetsCased after

def lowerIn (before : List Char) (c : Char) (after : List Char) : List Char :=
  if c = '\u0130' then ['i', '\u0307']
  else if c = 'Σ' then [if endsWord before after then 'ς' else 'σ']
  else [lowerChar c]

def lowerBetween (before : List Char) : List Char → List Char → List Char
  | [], _ => []
  | c :: rest, after => lowerIn before c (rest ++ after) ++ lowerBetween (c :: before) rest after

theorem lowerAfter_cons (before : List Char) (c : Char) (rest : List Char) :
    lowerAfter before (c :: rest) = lowerIn before c rest ++ lowerAfter (c :: before) rest :=
  rfl

theorem lowerAfter_append (before s t : List Char) :
    lowerAfter before (s ++ t) =
      lowerBetween before s t ++ lowerAfter (s.reverse ++ before) t := by
  induction s generalizing before with
  | nil => simp [lowerBetween]
  | cons c rest ih => simp [lowerBetween, lowerAfter_cons, ih]

theorem lowerBetween_nil (before s : List Char) : lowerBetween before s [] = lowerAfter before s := by
  induction s generalizing before with
  | nil => rfl
  | cons c rest ih => simp [lowerBetween, lowerAfter_cons, ih]

theorem length_lowerIn (before before' after after' : List Char) (c : Char) :
    (lowerIn before c after).length = (lowerIn before' c after').length := by
  unfold lowerIn
  split
  · rfl
  · split <;> rfl

theorem lowerIn_eq_iff (before before' after after' : List Char) (c : Char) :
    lowerIn before c after = lowerIn before' c after' ↔
      (c = 'Σ' → endsWord before after = endsWord before' after') := by
  by_cases sigma : c = 'Σ'
  · subst sigma
    have other : ('Σ' : Char) ≠ '\u0130' := by decide
    simp only [lowerIn, if_neg other]
    cases endsWord before after <;> cases endsWord before' after' <;> simp
  · simp [lowerIn, sigma]

/-- A part is lowered alike in two places when its capital sigmas end words at the same spots. -/
theorem lowerBetween_eq_iff (before before' part after after' : List Char) :
    lowerBetween before part after = lowerBetween before' part after' ↔
      ∀ u v, part = u ++ 'Σ' :: v →
        endsWord (u.reverse ++ before) (v ++ after) =
          endsWord (u.reverse ++ before') (v ++ after') := by
  induction part generalizing before before' with
  | nil => simp [lowerBetween]
  | cons c rest ih =>
    have split : lowerBetween before (c :: rest) after = lowerBetween before' (c :: rest) after' ↔
        lowerIn before c (rest ++ after) = lowerIn before' c (rest ++ after') ∧
          lowerBetween (c :: before) rest after = lowerBetween (c :: before') rest after' :=
      ⟨fun h => List.append_inj h (length_lowerIn _ _ _ _ c), fun ⟨here, others⟩ => by
        simp only [lowerBetween, here, others]⟩
    rw [split, lowerIn_eq_iff, ih]
    constructor
    · rintro ⟨here, others⟩ u v same
      cases u with
      | nil =>
        obtain ⟨rfl, rfl⟩ := List.cons.inj same
        exact here rfl
      | cons d u =>
        obtain ⟨rfl, rfl⟩ := List.cons.inj same
        simpa using others u v rfl
    · intro h
      constructor
      · rintro rfl
        exact h [] rest rfl
      · rintro u v rfl
        simpa using h (c :: u) v rfl

/-- Each capital sigma of the part ends a word in the whole text just when it ends one in the part
by itself. -/
def SigmasAgree (before part after : List Char) : Prop :=
  ∀ u v, part = u ++ 'Σ' :: v →
    endsWord (before ++ u).reverse (v ++ after) = endsWord u.reverse v

theorem sigmasAgree_of_not_mem {before part after : List Char} (none : 'Σ' ∉ part) :
    SigmasAgree before part after := by
  rintro u v rfl
  simp at none

theorem sigmasAgree_snoc {before part after : List Char} (none : 'Σ' ∉ part)
    (same : endsWord (before ++ part).reverse after = endsWord part.reverse []) :
    SigmasAgree before (part ++ ['Σ']) after := by
  intro u v split
  rcases List.eq_nil_or_concat v with rfl | ⟨w, c, rfl⟩
  · obtain ⟨rfl, -⟩ := List.append_inj' split rfl
    exact same
  · have cut : part ++ ['Σ'] = (u ++ 'Σ' :: w) ++ [c] := by simpa using split
    obtain ⟨rfl, -⟩ := List.append_inj' cut rfl
    exact absurd (List.mem_append_right u List.mem_cons_self) none

theorem lowered_alone_iff (before part after : List Char) :
    lowerBetween before.reverse part after = lowerAfter [] part ↔
      SigmasAgree before part after := by
  rw [← lowerBetween_nil, lowerBetween_eq_iff]
  simp [SigmasAgree]

theorem occursIn_iff (needle text : List Char) : occursIn needle text = true ↔ needle <:+: text := by
  induction text with
  | nil => simp [occursIn]
  | cons c rest ih => simp [occursIn, ih, List.infix_cons_iff]

/-- The needle stands in the text as it is written, and its capital sigmas end words in both at the
same spots. -/
def Stands (needle text : String) : Prop :=
  ∃ before after, text.toList = before ++ needle.toList ++ after ∧
    SigmasAgree before needle.toList after

theorem stands_of_no_sigma {needle text : String} (written : needle.toList <:+: text.toList)
    (none : 'Σ' ∉ needle.toList) : Stands needle text := by
  obtain ⟨before, after, split⟩ := written
  exact ⟨before, after, split.symm, sigmasAgree_of_not_mem none⟩

theorem found_of_stands {needle text : String} (h : Stands needle text) :
    containsIgnoringCase text needle = true := by
  obtain ⟨before, after, split, agree⟩ := h
  have lowered : (lowercase text).toList =
      lowerBetween [] before (needle.toList ++ after) ++ (lowercase needle).toList ++
        lowerAfter (before ++ needle.toList).reverse after := by
    simp only [lowercase, String.toList_ofList, ← (lowered_alone_iff _ _ _).2 agree, split,
      List.append_assoc, lowerAfter_append]
    simp
  rw [containsIgnoringCase, occursIn_iff]
  exact ⟨_, _, lowered.symm⟩

/-- Only a needle with a capital sigma can be missed where it is written. -/
theorem found_of_written {needle text : String} (written : needle.toList <:+: text.toList)
    (sigma : 'Σ' ∈ needle.toList → Stands needle text) :
    containsIgnoringCase text needle = true := by
  by_cases some : 'Σ' ∈ needle.toList
  · exact found_of_stands (sigma some)
  · exact found_of_stands (stands_of_no_sigma written some)

end Text

namespace Query

/-- A needle that is written in the content of a word is found by a search in the content and in the
text, and one that is written in the description by a search in that and in the text; if it has a
capital sigma, then where it stands in both at the ends of the same words. -/
theorem finds_written_needle (now : Time.Instant) (w : Word) (needle : String) :
    (needle.toList <:+: w.contentText.toList →
      ('Σ' ∈ needle.toList → Text.Stands needle w.contentText) →
        (Condition.contentContains needle).holds now w = true ∧
          (Condition.textContains needle).holds now w = true) ∧
    (needle.toList <:+: w.description.toList →
      ('Σ' ∈ needle.toList → Text.Stands needle w.description) →
        (Condition.descriptionContains needle).holds now w = true ∧
          (Condition.textContains needle).holds now w = true) := by
  constructor
  · intro written sigma
    have found := Text.found_of_written written sigma
    simp [Condition.holds, found]
  · intro written sigma
    have found := Text.found_of_written written sigma
    simp [Condition.holds, found]

/-- The needle ends a word in the content, and it is all of the description. -/
theorem finds_odos :
    let w : Word := { content := [.plain "Η ΟΔΟΣ ΜΟΥ"], description := "ΟΔΟΣ" }
    'Σ' ∈ "ΟΔΟΣ".toList ∧
    "ΟΔΟΣ".toList <:+: w.contentText.toList ∧ Text.Stands "ΟΔΟΣ" w.contentText ∧
    "ΟΔΟΣ".toList <:+: w.description.toList ∧ Text.Stands "ΟΔΟΣ" w.description ∧
    (Condition.contentContains "ΟΔΟΣ").holds ⟨0, 0, 0⟩ w = true ∧
    (Condition.descriptionContains "ΟΔΟΣ").holds ⟨0, 0, 0⟩ w = true ∧
    (Condition.textContains "ΟΔΟΣ").holds ⟨0, 0, 0⟩ w = true := by
  intro w
  have needle : "ΟΔΟΣ".toList = ['Ο', 'Δ', 'Ο'] ++ ['Σ'] := by decide
  have content : w.contentText.toList = ['Η', ' '] ++ "ΟΔΟΣ".toList ++ [' ', 'Μ', 'Ο', 'Υ'] := by
    decide
  have within : Text.Stands "ΟΔΟΣ" w.contentText := by
    refine ⟨['Η', ' '], [' ', 'Μ', 'Ο', 'Υ'], content, ?_⟩
    rw [needle]
    exact Text.sigmasAgree_snoc (by decide) (by decide +kernel)
  have whole : Text.Stands "ΟΔΟΣ" w.description := by
    refine ⟨[], [], by decide, ?_⟩
    rw [needle]
    exact Text.sigmasAgree_snoc (by decide) (by decide +kernel)
  have written : "ΟΔΟΣ".toList <:+: w.contentText.toList := ⟨_, _, content.symm⟩
  have described : "ΟΔΟΣ".toList <:+: w.description.toList := List.infix_rfl
  obtain ⟨inContent, inText⟩ := (finds_written_needle ⟨0, 0, 0⟩ w "ΟΔΟΣ").1 written fun _ => within
  obtain ⟨inDescription, -⟩ := (finds_written_needle ⟨0, 0, 0⟩ w "ΟΔΟΣ").2 described fun _ => whole
  exact ⟨by decide, written, within, described, whole, inContent, inDescription, inText⟩

/-- The sigma at the end of the needle is followed by a letter in the content, and the one that is the
whole needle ends the description. Neither is found, though both stand there letter by letter. -/
theorem misses_sigma :
    let w : Word := { content := [.plain "ΟΔΟΣΑ"], description := "ΑΣ" }
    "ΟΔΟΣ".toList <:+: w.contentText.toList ∧
      (Condition.contentContains "ΟΔΟΣ").holds ⟨0, 0, 0⟩ w = false ∧
      (Condition.textContains "ΟΔΟΣ").holds ⟨0, 0, 0⟩ w = false ∧
      "Σ".toList <:+: w.description.toList ∧
      (Condition.descriptionContains "Σ").holds ⟨0, 0, 0⟩ w = false := by
  intro w
  refine ⟨⟨[], ['Α'], by decide⟩, by decide +kernel, by decide +kernel, ⟨['Α'], [], by decide⟩,
    by decide +kernel⟩

end Query

end Wordhoard
