import Wordhoard.Proofs.Text.Digits
import Wordhoard.Proofs.Text.Position
import Wordhoard.Report.Listing

/-! The colours of a table of entries. Main statement: they change nothing else, and the table is the
one without colours when they are deleted. -/
namespace Wordhoard.Text

theorem trimEnd_append (xs ys : List Char) :
    trimEnd (xs ++ ys) = if trimEnd ys = [] then trimEnd xs else xs ++ trimEnd ys := by
  simp only [trimEnd, List.reverse_append, List.dropWhile_append, List.isEmpty_iff,
    List.reverse_eq_nil_iff]
  split
  · rfl
  · rw [List.reverse_append, List.reverse_reverse]

end Wordhoard.Text

namespace Wordhoard.Report

open Text (trimEnd trimEnd_append)

/-- What is left without the codes of the two styles of a table. -/
def uncolored : List Char → List Char
  | '\x1b' :: '[' :: '2' :: 'm' :: s => uncolored s
  | '\x1b' :: '[' :: '0' :: 'm' :: s => uncolored s
  | '\x1b' :: '[' :: '3' :: '2' :: 'm' :: s => uncolored s
  | '\x1b' :: '[' :: '3' :: '9' :: 'm' :: s => uncolored s
  | c :: s => c :: uncolored s
  | [] => []

/-- No code begins in the text. -/
def Bare (s : String) : Prop := '\x1b' ∉ s.toList

/-- The same text in colours and without them. What is coloured ends in something seen. -/
inductive Shaded : List Char → List Char → Prop
  | nil : Shaded [] []
  | plain {c : Char} {xs ys : List Char} (bare : '\x1b' ≠ c) (rest : Shaded xs ys) :
      Shaded (c :: xs) (c :: ys)
  | styled {style : String → String} {s : String} {xs ys : List Char}
      (listed : style = dimmed ∨ style = green) (bare : Bare s) (some : s ≠ "")
      (seen : trimEnd s.toList = s.toList) (rest : Shaded xs ys) :
      Shaded ((style s).toList ++ xs) (s.toList ++ ys)

variable {α : Type} {s t : String} {xs ys xs' ys' : List Char}

theorem uncolored_append_of_bare (bare : '\x1b' ∉ xs) : uncolored (xs ++ ys) = xs ++ uncolored ys := by
  induction xs with
  | nil => rfl
  | cons c others ih =>
    obtain ⟨first, others⟩ := not_or.1 (List.mem_cons.not.1 bare)
    have kept : ∀ s, uncolored (c :: s) = c :: uncolored s := by
      intro s
      rw [uncolored] <;> exact fun _ same => absurd same.symm first
    rw [List.cons_append, kept, ih others, List.cons_append]

namespace Shaded

theorem uncolored_eq (h : Shaded xs ys) : uncolored xs = ys := by
  induction h with
  | nil => rfl
  | plain bare _ ih =>
    rw [← List.singleton_append, uncolored_append_of_bare (by simpa using bare), ih,
      List.singleton_append]
  | @styled style s xs ys listed bare _ _ _ ih =>
    have codes : uncolored ((style s).toList ++ xs) = s.toList ++ uncolored xs := by
      rcases listed with rfl | rfl <;>
        simp [dimmed, green, wrapped, uncolored, uncolored_append_of_bare bare]
    rw [codes, ih]

theorem append (h : Shaded xs ys) (h' : Shaded xs' ys') : Shaded (xs ++ xs') (ys ++ ys') := by
  induction h with
  | nil => exact h'
  | plain bare _ ih => exact .plain bare ih
  | styled listed bare some seen _ ih =>
    rw [List.append_assoc, List.append_assoc]
    exact .styled listed bare some seen ih

theorem of_bare (h : '\x1b' ∉ xs) : Shaded xs xs := by
  induction xs with
  | nil => exact .nil
  | cons c others ih =>
    obtain ⟨first, others⟩ := not_or.1 (List.mem_cons.not.1 h)
    exact .plain first (ih others)

theorem eq_nil_iff (h : Shaded xs ys) : xs = [] ↔ ys = [] := by
  cases h with
  | nil => simp
  | plain => simp
  | styled listed _ some => rcases listed with rfl | rfl <;> simp [dimmed, green, wrapped, some]

/-- No blank is cut off what is coloured, neither inside its codes nor without them. -/
theorem trimEnd (h : Shaded xs ys) : Shaded (trimEnd xs) (trimEnd ys) := by
  induction h with
  | nil => exact .nil
  | @plain c xs ys bare _ ih =>
    change Shaded (Text.trimEnd ([c] ++ xs)) (Text.trimEnd ([c] ++ ys))
    rw [trimEnd_append, trimEnd_append]
    simp only [ih.eq_nil_iff]
    split
    -- Nothing is left behind the character, so it is cut off too if it is blank.
    · by_cases blank : Text.isBlank c
      · simpa [Text.trimEnd, blank] using nil
      · simpa [Text.trimEnd, blank] using plain bare nil
    · exact .plain bare ih
  | @styled style s xs ys listed bare some seen _ ih =>
    have kept : Text.trimEnd (style s).toList = (style s).toList := by
      have mark : Text.isBlank 'm' = false := by decide
      rcases listed with rfl | rfl <;> simp [dimmed, green, wrapped, Text.trimEnd, mark]
    rw [trimEnd_append, trimEnd_append, kept, seen]
    simp only [ih.eq_nil_iff]
    split
    · simpa using styled listed bare some seen nil
    · exact .styled listed bare some seen ih

end Shaded

instance : Decidable (Bare s) := inferInstanceAs (Decidable ('\x1b' ∉ s.toList))

theorem bare_append (h : Bare s) (h' : Bare t) : Bare (s ++ t) := by
  simpa [Bare] using ⟨h, h'⟩

theorem bare_truncate (h : Bare s) (most : Nat) : Bare (truncate s most) := by
  unfold truncate
  split
  · refine bare_append (fun mem => h ?_) (by decide)
    rw [String.toList_ofList] at mem
    exact List.mem_of_mem_take mem
  · exact h

theorem bare_repr (n : Nat) : Bare n.repr := by
  intro mem
  exact absurd (Text.isDigit_of_mem_repr mem) (by decide)

theorem bare_shortKey (h : Bare s) : Bare (shortKey s) := by
  unfold shortKey
  split
  · rename_i first rest cut
    obtain ⟨split, -⟩ := Text.append_of_splitBytes? cut
    intro mem
    rw [String.toList_ofList] at mem
    exact h (split ▸ List.mem_append_right _ mem)
  · exact h

theorem bare_lastReviewedText (now : Time.Instant) (last : Option Time.Instant) :
    Bare (lastReviewedText now last) := by
  cases last with
  | none => exact show Bare "never" by decide
  | some t =>
    unfold lastReviewedText
    dsimp only
    split
    · decide
    · split
      · decide
      · obtain ⟨n, days⟩ := Int.eq_ofNat_of_zero_le (show 0 ≤ now.daysSince t by omega)
        rw [days]
        exact bare_append (bare_repr n) (by decide)

theorem bare_intercalate {parts : List String} (between : Bare s) (h : ∀ part ∈ parts, Bare part) :
    Bare (s.intercalate parts) := by
  induction parts with
  | nil => exact show Bare "" by decide
  | cons part others ih =>
    obtain ⟨first, rest⟩ := List.forall_mem_cons.1 h
    cases others with
    | nil => rwa [String.intercalate_singleton]
    | cons next others =>
      rw [String.intercalate_cons_cons]
      exact bare_append (bare_append first between) (ih rest)

theorem bare_tagsText {tags : TagSet} (h : ∀ tag ∈ tags.toList, Bare tag) (most : Nat) :
    Bare (tagsText tags most) := by
  refine bare_truncate (bare_intercalate (by decide) (List.forall_mem_map.2 fun tag mem => ?_)) most
  exact bare_append (by decide) (h tag mem)

theorem shaded_styled {style : String → String} (listed : style = dimmed ∨ style = green)
    (bare : Bare s) (some : s ≠ "") (seen : trimEnd s.toList = s.toList) :
    Shaded (styled true style s).toList (styled false style s).toList := by
  simpa [styled] using Shaded.styled listed bare some seen .nil

theorem shaded_join {items : List α} {f g : α → String}
    (h : ∀ x ∈ items, Shaded (f x).toList (g x).toList) :
    Shaded (String.join (items.map f)).toList (String.join (items.map g)).toList := by
  induction items with
  | nil => exact .nil
  | cons x others ih =>
    obtain ⟨first, others⟩ := List.forall_mem_cons.1 h
    simp only [List.map_cons, String.join_cons, String.toList_append]
    exact first.append (ih others)

theorem shaded_pieceText {piece : Piece} (h : Bare piece.text) :
    Shaded (pieceText true piece).toList (pieceText false piece).toList := by
  cases piece with
  | plain text => exact .of_bare h
  | optional text =>
    have bare : Bare ("(" ++ text ++ ")") := bare_append (bare_append (by decide) h) (by decide)
    have closed : Text.isBlank ')' = false := by decide
    exact shaded_styled (.inl rfl) bare (by simp) (by simp [trimEnd, closed])

theorem shaded_reviewedText (reviewed : Bool) :
    Shaded (reviewedText true reviewed).toList (reviewedText false reviewed).toList := by
  cases reviewed with
  | false => exact .nil
  | true => exact shaded_styled (.inr rfl) (by decide) (by decide) (by decide)

namespace Shaded

variable {s' t' : String}

theorem pad (h : Shaded s.toList t.toList) (visible width : Nat) :
    Shaded (pad s visible width).toList (pad t visible width).toList := by
  have blanks : '\x1b' ∉ List.replicate (width - visible) ' ' := by simp
  simpa [Report.pad] using h.append (.of_bare blanks)

theorem spaced (h : Shaded s.toList t.toList) (h' : Shaded s'.toList t'.toList) :
    Shaded (s ++ " " ++ s').toList (t ++ " " ++ t').toList := by
  simpa using h.append (.plain (c := ' ') (by decide) h')

end Shaded

/-- No text of the entry holds the character that begins a code. -/
structure BareEntry (e : Entry) : Prop where
  key : Bare e.key
  content : ∀ piece ∈ e.word.content, Bare piece.text
  description : Bare e.word.description
  tags : ∀ tag ∈ e.word.tags.toList, Bare tag

theorem shaded_row {e : Entry} (h : BareEntry e) (now : Time.Instant) :
    Shaded (row true now e).toList (row false now e).toList := by
  have bare {s : String} (width : Nat) (h : Bare s) :
      Shaded (column width s).toList (column width s).toList := (Shaded.of_bare h).pad s.length width
  have key := bare 8 (bare_shortKey h.key)
  have count := bare 4 (bare_repr e.word.reviewCount.toNat)
  have mark := (shaded_reviewedText e.word.reviewed).pad (if e.word.reviewed then 1 else 0) 1
  have last := bare 12 (bare_lastReviewedText now e.word.lastReviewed)
  have tags := bare tagsWidth (bare_tagsText h.tags tagsWidth)
  have content := (shaded_join fun piece mem => shaded_pieceText (h.content piece mem)).pad
    (Markup.render e.word.content).length wordWidth
  have description := Shaded.of_bare (bare_truncate h.description descriptionWidth)
  exact (((((key.spaced count).spaced mark).spaced last).spaced tags).spaced content).spaced
    description

theorem shaded_table {entries : List Entry} (h : ∀ e ∈ entries, BareEntry e) (now : Time.Instant) :
    Shaded (table entries true now).toList (table entries false now).toList := by
  have newline : Shaded "\n".toList "\n".toList := .of_bare (by decide)
  unfold table
  split
  · exact .of_bare (by decide)
  · simp only [String.toList_append]
    refine .append (.append (shaded_styled (.inl rfl) (by decide) (by decide) (by decide)) newline)
      (shaded_join fun e mem => ?_)
    simp only [String.toList_append, trimmedRow, String.toList_ofList]
    exact .append (shaded_row (h e mem) now).trimEnd newline

/-- Colours change nothing but the colours of a table. -/
theorem uncolored_table {entries : List Entry} (h : ∀ e ∈ entries, BareEntry e)
    (now : Time.Instant) :
    String.ofList (uncolored (table entries true now).toList) = table entries false now := by
  rw [(shaded_table h now).uncolored_eq, String.ofList_toList]

def running : Entry where
  key := "7f3a9c21-0c1e"
  word :=
    { content := [.plain "run", .optional "ning "]
      description := "a sport "
      tags := .ofList ["verb", "noun"]
      reviewCount := 3
      lastReviewed := some ⟨17166, 0, 0⟩
      reviewed := true }

theorem uncolored_table_of_running :
    let now : Time.Instant := ⟨17168, 0, 0⟩
    (∀ e ∈ [running], BareEntry e) ∧ table [running] true now ≠ table [running] false now ∧
      String.ofList (uncolored (table [running] true now).toList) = table [running] false now := by
  intro now
  have bare : ∀ e ∈ [running], BareEntry e :=
    List.forall_mem_singleton.2 ⟨by decide, by decide, by decide, by decide⟩
  exact ⟨bare, by decide +kernel, uncolored_table bare now⟩

end Wordhoard.Report
