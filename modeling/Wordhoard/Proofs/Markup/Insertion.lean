import Wordhoard.Proofs.Markup.Pairing
import Wordhoard.Proofs.Text.Position

/-! An empty pair of parentheses put into markup. Main statement: it can be put wherever the text can
be split, and the result is markup unless it stands inside of parentheses; then both parts are markup
too, and the pair is one more optional piece between theirs. -/
namespace Wordhoard.Markup

variable {s t : List Char} {before after content : List Piece} {text : String}

/-- The place between the two texts lies behind an opening parenthesis and before the one that
closes it. -/
def Enclosed (s t : List Char) : Prop :=
  ∃ a b c d, s = a ++ '(' :: b ∧ t = c ++ ')' :: d ∧ Bare (b ++ c)

theorem Paired.split (h : Paired (s ++ t)) (free : ¬ Enclosed s t) : Paired s ∧ Paired t := by
  have first : Paired s := by
    refine ⟨fun a b here => ?_, fun a b here => ?_⟩
    · obtain ⟨c, d, behind, bare⟩ := h.closed a (b ++ t) (by simp [here])
      rcases split_append behind with ⟨m, inside, -⟩ | ⟨m, rfl, beyond⟩
      · exact ⟨c, m, inside, bare⟩
      · exact absurd ⟨a, b, m, d, here, beyond, bare⟩ free
    · exact h.opened a (b ++ t) (by simp [here])
  exact ⟨first, first.cancel h⟩

theorem not_paired_of_enclosed (h : Enclosed s t) : ¬ Paired (s ++ ['(', ')'] ++ t) := by
  obtain ⟨a, b, c, d, rfl, -, bare⟩ := h
  intro paired
  obtain ⟨x, y, behind, clear⟩ := paired.closed a (b ++ '(' :: ')' :: t) (by simp)
  rcases split_append behind with ⟨m, rfl, -⟩ | ⟨m, rfl, beyond⟩
  · exact (bare ')' (by simp)).2 rfl
  · cases m with
    | nil => cases beyond
    | cons e m =>
      obtain ⟨rfl, -⟩ := List.cons.inj beyond
      exact not_bare_of_open clear

theorem Canonical.around (h : Canonical before) (bare : Bare text.toList) (h' : Canonical after) :
    Canonical (before ++ .optional text :: after) where
  bare := List.forall_mem_append.2 ⟨h.bare, (h'.optional bare).bare⟩
  visible := List.forall_mem_append.2 ⟨h.visible, (h'.optional bare).visible⟩
  apart := by
    refine List.isChain_append.2 ⟨h.apart, (h'.optional bare).apart, ?_⟩
    rintro p - q ⟨⟩
    exact .inr rfl

theorem render_append : render (before ++ after) = render before ++ render after := by
  apply String.toList_injective
  rw [String.toList_append, toList_render, toList_render, toList_render, List.flatMap_append]

theorem exists_parse_iff : (∃ content, parse text = .ok content) ↔ Paired text.toList := by
  constructor
  · rintro ⟨content, read⟩
    obtain ⟨same, bare⟩ := written_of_parse read
    exact same ▸ paired_written bare
  · intro h
    obtain ⟨content, canonical, same⟩ := exists_canonical h
    exact ⟨content, parse_eq_ok_iff.2 ⟨canonical, render_eq_iff.2 same⟩⟩

theorem exists_error_iff : (∃ e, parse text = .error e) ↔ ¬ Paired text.toList := by
  rw [← exists_parse_iff]
  cases parse text <;> simp

theorem parse_around {s t : String} (read : parse s = .ok before) (read' : parse t = .ok after) :
    parse (s ++ "()" ++ t) = .ok (before ++ .optional "" :: after) := by
  obtain ⟨canonical, rfl⟩ := parse_eq_ok_iff.1 read
  obtain ⟨canonical', rfl⟩ := parse_eq_ok_iff.1 read'
  refine parse_eq_ok_iff.2 ⟨canonical.around nofun canonical', ?_⟩
  have pair : render (.optional "" :: after) = "()" ++ render after := by
    have one : render [.optional ""] = "()" := by decide
    rw [← one, ← render_append, List.singleton_append]
  rw [render_append, pair, String.append_assoc]

theorem contentText_of_parse (read : parse text = .ok content) :
    (contentText content).toList = text.toList.filter fun c => c ≠ '(' ∧ c ≠ ')' := by
  obtain ⟨same, bare⟩ := written_of_parse read
  rw [contentText_of_written bare, same]

theorem insertParens_eq_none_iff {buffer : String} {cursor : Nat} : insertParens buffer cursor = none ↔
    buffer.utf8ByteSize < cursor ∨ Text.InsideCharacter buffer.toList cursor := by
  rw [insertParens, Option.map_eq_none_iff, Text.splitBytes?_eq_none_iff, Text.byteLength_toList]

theorem insertParens_append (s t : String) :
    insertParens (s ++ t) s.utf8ByteSize = some (s ++ "()" ++ t, s.utf8ByteSize + 1) := by
  have inserted : String.ofList (s.toList ++ '(' :: ')' :: t.toList) = s ++ "()" ++ t := by
    apply String.toList_injective
    simp
  rw [insertParens, String.toList_append, ← Text.byteLength_toList, Text.splitBytes?_append, ← inserted]
  rfl

theorem exists_split {buffer : String} {cursor : Nat} (h : insertParens buffer cursor ≠ none) :
    ∃ s t, buffer = s ++ t ∧ s.utf8ByteSize = cursor := by
  cases split : Text.splitBytes? cursor buffer.toList with
  | none => exact absurd (by rw [insertParens, split]; rfl) h
  | some parts =>
    obtain ⟨s, t⟩ := parts
    obtain ⟨whole, length⟩ := Text.splitBytes?_eq_some_iff.1 split
    refine ⟨String.ofList s, String.ofList t, ?_, ?_⟩
    · rw [← String.ofList_append, ← whole, String.ofList_toList]
    · rw [← Text.byteLength_toList, String.toList_ofList, length]

/-- A pair of parentheses can be put into markup at a cursor, unless it is past the end or inside a
character. The result is refused just when the cursor stands between an opening parenthesis and the one
that closes it; otherwise it is read as the text before the cursor, an empty optional piece, and the text
behind it, so the content without parentheses stays the same. -/
theorem insertParens_in_markup {buffer : String} (read : parse buffer = .ok content) (cursor : Nat) :
    (insertParens buffer cursor = none ↔
      buffer.utf8ByteSize < cursor ∨ Text.InsideCharacter buffer.toList cursor) ∧
    (¬ (buffer.utf8ByteSize < cursor ∨ Text.InsideCharacter buffer.toList cursor) →
      ∃ s t, buffer = s ++ t ∧ s.utf8ByteSize = cursor) ∧
    ∀ s t, buffer = s ++ t → s.utf8ByteSize = cursor →
      insertParens buffer cursor = some (s ++ "()" ++ t, cursor + 1) ∧
      ((∃ e, parse (s ++ "()" ++ t) = .error e) ↔ Enclosed s.toList t.toList) ∧
      (¬ Enclosed s.toList t.toList → ∃ before after,
        parse s = .ok before ∧ parse t = .ok after ∧
        parse (s ++ "()" ++ t) = .ok (before ++ .optional "" :: after) ∧
        contentText (before ++ .optional "" :: after) = contentText content) := by
  refine ⟨insertParens_eq_none_iff, fun free => exists_split (mt insertParens_eq_none_iff.1 free), ?_⟩
  rintro s t rfl rfl
  have paired : Paired (s.toList ++ t.toList) := by
    rw [← String.toList_append]
    exact exists_parse_iff.1 ⟨content, read⟩
  have around (outside : ¬ Enclosed s.toList t.toList) : ∃ before after,
      parse s = .ok before ∧ parse t = .ok after ∧
      parse (s ++ "()" ++ t) = .ok (before ++ .optional "" :: after) := by
    obtain ⟨first, second⟩ := paired.split outside
    obtain ⟨before, read⟩ := exists_parse_iff.2 first
    obtain ⟨after, read'⟩ := exists_parse_iff.2 second
    exact ⟨before, after, read, read', parse_around read read'⟩
  refine ⟨insertParens_append s t, ⟨?_, fun inside => ?_⟩, fun outside => ?_⟩
  · rintro ⟨e, refused⟩
    by_contra outside
    obtain ⟨_, _, -, -, accepted⟩ := around outside
    cases refused.symm.trans accepted
  · rw [exists_error_iff, String.toList_append, String.toList_append]
    exact not_paired_of_enclosed inside
  · obtain ⟨before, after, read', read'', whole⟩ := around outside
    refine ⟨before, after, read', read'', whole, String.toList_injective ?_⟩
    rw [contentText_of_parse whole, contentText_of_parse read]
    simp

theorem insertParens_in_decor : parse "d\u00E9(cor)" = .ok [.plain "d\u00E9", .optional "cor"] ∧
    Text.InsideCharacter "d\u00E9(cor)".toList 2 ∧ insertParens "d\u00E9(cor)" 2 = none ∧
    Enclosed "d\u00E9(c".toList "or)".toList ∧ insertParens "d\u00E9(cor)" 5 = some ("d\u00E9(c()or)", 6) ∧
    ∃ e, parse "d\u00E9(c()or)" = .error e := by
  have read : parse "d\u00E9(cor)" = .ok [.plain "d\u00E9", .optional "cor"] := by decide +kernel
  have inside : Text.InsideCharacter "d\u00E9(cor)".toList 2 :=
    ⟨['d'], '\u00E9', ['(', 'c', 'o', 'r', ')'], rfl, by decide, by decide⟩
  have enclosed : Enclosed "d\u00E9(c".toList "or)".toList :=
    ⟨['d', '\u00E9'], ['c'], ['o', 'r'], [], rfl, rfl, by simp [Bare]⟩
  obtain ⟨inserted, refused, -⟩ :=
    (insertParens_in_markup read 5).2.2 "d\u00E9(c" "or)" (by decide) (by decide)
  exact ⟨read, inside, (insertParens_in_markup read 2).1.2 (.inr inside), enclosed, inserted,
    refused.2 enclosed⟩

end Wordhoard.Markup
