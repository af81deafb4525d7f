import Wordhoard.Proofs.Text.Position
import Wordhoard.Text.Lines

/-! The line of a text where a place is. Main statement: its number is the number of newlines before
the place, and carriage returns apart it is what stands between the newlines around it. -/
namespace Wordhoard.Text

variable {current part rest : List Char}

/-- What takes a column. -/
def visible (s : List Char) : List Char := s.filter (· ≠ '\r')

def WholeLines (s : List Char) : Prop := s = [] ∨ ∃ whole, s = whole ++ ['\n']

theorem exists_lineStart (before : List Char) :
    ∃ earlier part, before = earlier ++ part ∧ WholeLines earlier ∧ '\n' ∉ part := by
  induction before with
  | nil => exact ⟨[], [], rfl, .inl rfl, List.not_mem_nil⟩
  | cons c others ih =>
    obtain ⟨earlier, part, rfl, start, inside⟩ := ih
    rcases start with rfl | ⟨whole, rfl⟩
    · by_cases newline : c = '\n'
      · exact ⟨[c], part, rfl, .inr ⟨[], by rw [newline]; rfl⟩, inside⟩
      · refine ⟨[], c :: part, rfl, .inl rfl, ?_⟩
        rw [List.mem_cons, not_or]
        exact ⟨Ne.symm newline, inside⟩
    · exact ⟨c :: (whole ++ ['\n']), part, rfl, .inr ⟨c :: whole, rfl⟩, inside⟩

theorem visible_append (s t : List Char) : visible (s ++ t) = visible s ++ visible t :=
  List.filter_append s t

theorem rowAfter_lineStart {earlier : List Char} (inside : '\n' ∉ part) :
    rowAfter (earlier ++ part) = 1 + earlier.count '\n' := by
  rw [rowAfter, List.count_append, List.count_eq_zero.2 inside, Nat.add_zero]

theorem columnAfter_lineStart {earlier : List Char} (start : WholeLines earlier)
    (inside : '\n' ∉ part) : columnAfter (earlier ++ part) = 1 + (visible part).length := by
  have all : ∀ c ∈ part.reverse, (decide (c ≠ '\n')) = true := fun c mem =>
    decide_eq_true fun same => inside (same ▸ List.mem_reverse.1 mem)
  have line : (earlier ++ part).reverse.takeWhile (· ≠ '\n') = part.reverse := by
    rw [List.reverse_append, List.takeWhile_append_of_pos all]
    rcases start with rfl | ⟨whole, rfl⟩
    · simp
    · simp
  rw [columnAfter, line, List.countP_reverse, List.countP_eq_length_filter, visible]

theorem linesAfter_of_ne {c : Char} (inside : c ≠ '\n') :
    linesAfter current (c :: rest) = linesAfter (c :: current) rest := by
  conv => lhs; unfold linesAfter
  exact if_neg inside

theorem exists_linesAfter_newline (current rest : List Char) :
    ∃ line, linesAfter current ('\n' :: rest) = line :: lines rest ∧
      visible line = visible current.reverse ∧ ∀ c ∈ line, c ∈ current := by
  unfold linesAfter
  rw [if_pos rfl]
  refine ⟨_, rfl, ?_, fun c mem => ?_⟩
  · split <;> simp [visible]
  · rw [List.mem_reverse] at mem
    split at mem
    · exact List.mem_cons_of_mem _ mem
    · exact mem

theorem linesAfter_append (inside : '\n' ∉ part) :
    linesAfter current (part ++ rest) = linesAfter (part.reverse ++ current) rest := by
  induction part generalizing current with
  | nil => rfl
  | cons c others ih =>
    rw [List.mem_cons, not_or] at inside
    rw [List.cons_append, linesAfter_of_ne (Ne.symm inside.1), ih inside.2, List.reverse_cons,
      List.append_assoc, List.singleton_append]

theorem drop_linesAfter (whole : List Char) :
    (linesAfter current (whole ++ '\n' :: rest)).drop (whole.count '\n' + 1) = lines rest := by
  induction whole generalizing current with
  | nil =>
    obtain ⟨line, split, -⟩ := exists_linesAfter_newline current rest
    rw [List.nil_append, split]
    rfl
  | cons c others ih =>
    by_cases newline : c = '\n'
    · obtain ⟨line, split, -⟩ := exists_linesAfter_newline current (others ++ '\n' :: rest)
      rw [newline, List.cons_append, split, List.count_cons_self, List.drop_succ_cons]
      exact ih
    · rw [List.cons_append, linesAfter_of_ne newline, List.count_cons_of_ne newline]
      exact ih

theorem not_mem_linesAfter (inside : '\n' ∉ current) (s : List Char) :
    ∀ line ∈ linesAfter current s, '\n' ∉ line := by
  induction s generalizing current with
  | nil =>
    intro line mem
    rw [linesAfter] at mem
    split at mem
    · cases mem
    · rw [List.mem_singleton.1 mem, List.mem_reverse]
      exact inside
  | cons c others ih =>
    by_cases newline : c = '\n'
    · obtain ⟨line, split, -, kept⟩ := exists_linesAfter_newline current others
      rw [newline, split]
      exact List.forall_mem_cons.2 ⟨fun mem => inside (kept _ mem), ih List.not_mem_nil⟩
    · rw [linesAfter_of_ne newline]
      refine ih ?_
      rw [List.mem_cons, not_or]
      exact ⟨Ne.symm newline, inside⟩

theorem visible_head_linesAfter (current rest : List Char) :
    visible ((linesAfter current rest).getD 0 []) =
      visible (current.reverse ++ rest.takeWhile (· ≠ '\n')) := by
  induction rest generalizing current with
  | nil =>
    rw [linesAfter]
    cases current with
    | nil => rfl
    | cons c others => simp
  | cons c others ih =>
    by_cases newline : c = '\n'
    · obtain ⟨line, split, same, -⟩ := exists_linesAfter_newline current others
      simp [newline, split, same]
    · rw [linesAfter_of_ne newline, ih]
      simp [newline]

/-- The line with as many newlines before it as a place, carriage returns apart, is what stands
between the newlines around the place. -/
theorem line_around {earlier : List Char} (start : WholeLines earlier) (inside : '\n' ∉ part)
    (after : List Char) :
    ∃ line, (lines (earlier ++ part ++ after)).getD (earlier.count '\n') [] = line ∧
      visible line = visible (part ++ after.takeWhile (· ≠ '\n')) ∧ '\n' ∉ line ∧
      (part = [] → after = [] → line = []) := by
  have here : (lines (earlier ++ part ++ after)).drop (earlier.count '\n') =
      linesAfter part.reverse after := by
    have further : lines (part ++ after) = linesAfter part.reverse after := by
      rw [lines, linesAfter_append inside, List.append_nil]
    rw [← further, List.append_assoc]
    rcases start with rfl | ⟨whole, rfl⟩
    · rfl
    · rw [List.append_assoc, List.singleton_append, List.count_append, List.count_singleton_self]
      exact drop_linesAfter whole
  have first : (lines (earlier ++ part ++ after)).getD (earlier.count '\n') [] =
      (linesAfter part.reverse after).getD 0 [] := by
    rw [← here, List.getD_eq_getElem?_getD, List.getD_eq_getElem?_getD, List.getElem?_drop,
      Nat.add_zero]
  refine ⟨_, first, ?_, ?_, ?_⟩
  · rw [visible_head_linesAfter, List.reverse_reverse]
  · cases shown : linesAfter part.reverse after with
    | nil => exact List.not_mem_nil
    | cons line others =>
      refine not_mem_linesAfter ?_ after line (shown ▸ List.mem_cons_self)
      rwa [List.mem_reverse]
  · rintro rfl rfl
    rfl

end Wordhoard.Text
