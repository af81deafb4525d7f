import Mathlib.Data.List.Basic
import Wordhoard.Proofs.Text.Digits
import Wordhoard.Toml.Reader

/-! Strings in quotes. Main statement: whatever quotes a string is written in, it is read back. -/
namespace Wordhoard.Toml

variable {q c : Char} {k n : Nat} {s text rest tail e : List Char}

structure Escapes (c : Char) (e : List Char) : Prop where
  reads : ∀ rest, readEscape (e ++ rest) = some (c, rest)
  solid : ∀ rest, afterBreaks? (e ++ rest) = none

theorem isPrintable_of_not_control (control : isControl c = false) (line : c ≠ '\n') :
    isPrintable c = true := by
  simp [isPrintable, control, line]

theorem escapes_control (control : isControl c = true) :
    Escapes c ['u', '0', '0', upperDigit (c.toNat / 16), upperDigit (c.toNat % 16)] := by
  have number : ∀ n < 0x80, Text.number? 16 ['0', '0', upperDigit (n / 16), upperDigit (n % 16)] =
      some n ∧ Text.scalar? n = some (Char.ofNat n) := by decide +kernel
  have small : c.toNat < 0x80 := by
    simp [isControl] at control
    omega
  obtain ⟨read, scalar⟩ := number _ small
  refine ⟨fun rest => ?_, fun rest => rfl⟩
  simp [readEscape, readScalar, read, scalar]

theorem escapeChar_cases (c : Char) (line : c ≠ '\n') :
    (∃ e, escapeChar c = '\\' :: e ∧ Escapes c e) ∨
      (escapeChar c = [c] ∧ isPrintable c = true ∧ c ≠ '\\') := by
  unfold escapeChar
  split
  · rename_i same; subst same; exact .inl ⟨_, rfl, fun _ => rfl, fun _ => rfl⟩
  split
  · rename_i same; subst same; exact .inl ⟨_, rfl, fun _ => rfl, fun _ => rfl⟩
  split
  · rename_i same; subst same; exact .inl ⟨_, rfl, fun _ => rfl, fun _ => rfl⟩
  split
  · rename_i same; subst same; exact .inl ⟨_, rfl, fun _ => rfl, fun _ => rfl⟩
  split
  · rename_i same; subst same; exact .inl ⟨_, rfl, fun _ => rfl, fun _ => rfl⟩
  split
  · rename_i control
    exact .inl ⟨_, rfl, escapes_control control⟩
  · rename_i backslash control
    exact .inr ⟨rfl, isPrintable_of_not_control (by simpa using control) line, backslash⟩

theorem readBasic_escape (h : Escapes c e) :
    readBasic (n + 1) ('\\' :: e ++ rest) = (readBasic n rest).map fun p => (c :: p.1, p.2) := by
  rw [List.cons_append, readBasic, if_neg (by decide), if_pos rfl, h.reads]
  simp only [Option.bind_eq_bind, Option.bind_some]
  cases readBasic n rest <;> rfl

theorem readBasic_plain (visible : isPrintable c) (quote : c ≠ '"') (backslash : c ≠ '\\') :
    readBasic (n + 1) (c :: rest) = (readBasic n rest).map fun p => (c :: p.1, p.2) := by
  rw [readBasic, if_neg quote, if_neg backslash, if_pos visible]

/-- On one line quotes and line breaks are escaped too. -/
theorem escapeLine_cons_cases (c : Char) (s : List Char) :
    (∃ e, escapeLine (c :: s) = '\\' :: e ++ escapeLine s ∧ Escapes c e) ∨
      (escapeLine (c :: s) = c :: escapeLine s ∧ isPrintable c ∧ c ≠ '"' ∧ c ≠ '\\') := by
  rw [escapeLine]
  split
  · rename_i same
    subst same
    exact .inl ⟨['"'], rfl, fun _ => rfl, fun _ => rfl⟩
  split
  · rename_i same
    subst same
    exact .inl ⟨['n'], rfl, fun _ => rfl, fun _ => rfl⟩
  rename_i quote line
  rcases escapeChar_cases c line with ⟨e, escaped, escapes⟩ | ⟨plain, visible, backslash⟩
  · exact .inl ⟨e, by rw [escaped], escapes⟩
  · exact .inr ⟨by rw [plain, List.singleton_append], visible, quote, backslash⟩

theorem readBasic_escapeLine (enough : s.length < n) :
    readBasic n (escapeLine s ++ '"' :: tail) = some (s, tail) := by
  induction s generalizing n with
  | nil =>
    obtain ⟨n, rfl⟩ := Nat.exists_eq_add_one.2 enough
    simp [escapeLine, readBasic]
  | cons c others ih =>
    obtain ⟨n, rfl⟩ := Nat.exists_eq_add_one.2 (Nat.lt_of_le_of_lt (Nat.zero_le _) enough)
    have further := ih (Nat.lt_of_succ_lt_succ enough)
    rcases escapeLine_cons_cases c others with ⟨e, escaped, escapes⟩ | ⟨plain, visible, quote, backslash⟩
    · rw [escaped, List.append_assoc, readBasic_escape escapes, further]
      rfl
    · rw [plain, List.cons_append, readBasic_plain visible quote backslash, further]
      rfl

theorem length_le_escapeLine (s : List Char) : s.length ≤ (escapeLine s).length := by
  induction s with
  | nil => exact Nat.le_refl _
  | cons c others ih =>
    rcases escapeLine_cons_cases c others with ⟨e, escaped, -⟩ | ⟨plain, -⟩
    · simp only [escaped, List.length_append, List.length_cons]
      omega
    · simp only [plain, List.length_cons]
      omega

theorem readLiteral_append (visible : ∀ c ∈ s, isPrintable c) (quote : '\'' ∉ s) :
    readLiteral (s ++ '\'' :: tail) = some (s, tail) := by
  induction s with
  | nil => rfl
  | cons c others ih =>
    obtain ⟨first, visible⟩ := List.forall_mem_cons.1 visible
    obtain ⟨other, quote⟩ := not_or.1 (List.mem_cons.not.1 quote)
    rw [List.cons_append, readLiteral, if_pos first, ih visible quote]
    · rfl
    · exact fun same => other same.symm

/-- A text that stands in a block for characters, after so many quotes in a row. -/
inductive Spelt (q : Char) : Nat → List Char → List Char → Prop where
  | nil (k : Nat) : Spelt q k [] []
  | quote {k : Nat} {text s : List Char} (few : k < 2) (others : Spelt q (k + 1) text s) :
      Spelt q k (q :: text) (q :: s)
  | newline {k : Nat} {text s : List Char} (others : Spelt q 0 text s) :
      Spelt q k ('\n' :: text) ('\n' :: s)
  | plain {k : Nat} {c : Char} {text s : List Char} (visible : isPrintable c) (other : c ≠ q)
      (backslash : c = '\\' → q ≠ '"') (others : Spelt q 0 text s) : Spelt q k (c :: text) (c :: s)
  | escape {k : Nat} {c : Char} {e text s : List Char} (basic : q = '"') (escapes : Escapes c e)
      (others : Spelt q 0 text s) : Spelt q k ('\\' :: e ++ text) (c :: s)

theorem Spelt.length_le (h : Spelt q k text s) : s.length ≤ text.length := by
  induction h with
  | nil => exact Nat.le_refl _
  | escape => simp only [List.length_cons, List.length_append]; omega
  | _ => simp only [List.length_cons]; omega

theorem Spelt.quotes (h : Spelt q k text s) (mark : q = '"' ∨ q = '\'') (few : k ≤ 2) :
    ∃ j, k + j ≤ 2 ∧ ((text = List.replicate j q ∧ s = List.replicate j q) ∨
      ∃ c rest, c ≠ q ∧ text = List.replicate j q ++ c :: rest) := by
  induction h with
  | nil k => exact ⟨0, few, .inl ⟨rfl, rfl⟩⟩
  | quote fewer _ ih =>
    obtain ⟨j, bound, ⟨rfl, rfl⟩ | ⟨c, rest, other, rfl⟩⟩ := ih fewer
    · exact ⟨j + 1, by omega, .inl ⟨rfl, rfl⟩⟩
    · exact ⟨j + 1, by omega, .inr ⟨c, rest, other, rfl⟩⟩
  | newline =>
    have other : '\n' ≠ q := by rcases mark with rfl | rfl <;> decide
    exact ⟨0, few, .inr ⟨'\n', _, other, rfl⟩⟩
  | plain _ other => exact ⟨0, few, .inr ⟨_, _, other, rfl⟩⟩
  | escape =>
    have other : '\\' ≠ q := by rcases mark with rfl | rfl <;> decide
    exact ⟨0, few, .inr ⟨'\\', _, other, rfl⟩⟩

theorem blockEnd?_replicate (ends : ∀ c ∈ tail.head?, c ≠ q) (few : k ≤ 2) :
    blockEnd? q (List.replicate k q ++ q :: q :: q :: tail) = some (List.replicate k q, tail) := by
  have cut (n : Nat) : (tail.take n).takeWhile (· = q) = [] := by
    cases tail with
    | nil => rw [List.take_nil, List.takeWhile_nil]
    | cons c others =>
      cases n with
      | zero => rfl
      | succ n => rw [List.take_succ_cons, List.takeWhile_cons_of_neg (by simpa using ends c rfl)]
  obtain rfl | rfl | rfl : k = 0 ∨ k = 1 ∨ k = 2 := by omega
  · simp [blockEnd?, cut]
  · simp [blockEnd?, cut]
  · simp [blockEnd?, List.replicate]

theorem blockEnd?_eq_none (other : c ≠ q) (few : k ≤ 2) :
    blockEnd? q (List.replicate k q ++ c :: rest) = none := by
  obtain rfl | rfl | rfl : k = 0 ∨ k = 1 ∨ k = 2 := by omega
  · rcases rest with _ | ⟨a, _ | ⟨b, others⟩⟩ <;> simp [blockEnd?, other]
  · rcases rest with _ | ⟨a, others⟩ <;> simp [blockEnd?, other]
  · simp [blockEnd?, other, List.replicate]

/-- The quotes that come first end the block, or nothing does yet. -/
theorem Spelt.blockEnd?_cases (h : Spelt q k text s) (mark : q = '"' ∨ q = '\'') (few : k ≤ 2)
    (ends : ∀ c ∈ tail.head?, c ≠ q) :
    blockEnd? q (text ++ q :: q :: q :: tail) = some (s, tail) ∨
      blockEnd? q (text ++ q :: q :: q :: tail) = none := by
  obtain ⟨j, bound, ⟨rfl, rfl⟩ | ⟨c, rest, other, rfl⟩⟩ := h.quotes mark few
  · exact .inl (blockEnd?_replicate ends (by omega))
  · rw [List.append_assoc, List.cons_append]
    exact .inr (blockEnd?_eq_none other (by omega))

theorem afterBreak?_eq_none (newline : c ≠ '\n') (back : c ≠ '\r') : afterBreak? (c :: rest) = none := by
  unfold afterBreak?
  split
  · rename_i same
    exact absurd (List.cons.inj same).1 newline
  · rename_i same
    exact absurd (List.cons.inj same).1 back
  · rfl

theorem not_break_of_printable (visible : isPrintable c) : c ≠ '\n' ∧ c ≠ '\r' := by
  constructor
  · rintro rfl
    exact absurd visible (by decide)
  · rintro rfl
    exact absurd visible (by decide)

/- One round of the reader of a block, where the block does not end. -/

section Rounds

theorem readBlock_newline (more : blockEnd? q ('\n' :: rest) = none) :
    readBlock q (n + 1) ('\n' :: rest) =
      (readBlock q n rest).map fun p => ('\n' :: p.1, p.2) := by
  rw [readBlock, more]
  rfl

theorem readBlock_plain (more : blockEnd? q (c :: rest) = none) (visible : isPrintable c)
    (backslash : c = '\\' → q ≠ '"') :
    readBlock q (n + 1) (c :: rest) = (readBlock q n rest).map fun p => (c :: p.1, p.2) := by
  obtain ⟨newline, back⟩ := not_break_of_printable visible
  rw [readBlock, more]
  dsimp only
  rw [afterBreak?_eq_none newline back]
  dsimp only
  rw [if_neg fun ⟨escape, basic⟩ => backslash escape basic, if_pos visible]

theorem readBlock_escape (more : blockEnd? '"' ('\\' :: e ++ rest) = none) (h : Escapes c e) :
    readBlock '"' (n + 1) ('\\' :: e ++ rest) =
      (readBlock '"' n rest).map fun p => (c :: p.1, p.2) := by
  rw [List.cons_append] at more ⊢
  rw [readBlock, more]
  dsimp only
  rw [afterBreak?_eq_none (by decide) (by decide)]
  dsimp only
  rw [if_pos ⟨rfl, rfl⟩, h.solid]
  dsimp only
  rw [h.reads]
  simp only [Option.bind_eq_bind, Option.bind_some]
  cases readBlock '"' n rest <;> rfl

end Rounds

theorem readBlock_of_end {xs : List Char} {r : List Char × List Char} (h : blockEnd? q xs = some r) :
    readBlock q (n + 1) xs = some r := by
  cases xs with
  | nil => cases h
  | cons c others => rw [readBlock, h]

theorem readBlock_cons (h : Spelt q k text (c :: s)) (mark : q = '"' ∨ q = '\'') (few : k ≤ 2)
    (ends : ∀ c ∈ tail.head?, c ≠ q)
    (others : ∀ k text, k ≤ 2 → Spelt q k text s →
      readBlock q n (text ++ q :: q :: q :: tail) = some (s, tail)) :
    readBlock q (n + 1) (text ++ q :: q :: q :: tail) = some (c :: s, tail) := by
  rcases h.blockEnd?_cases mark few ends with here | more
  -- Only quotes are left, and they are taken together with the three that end the block.
  · exact readBlock_of_end here
  cases h with
  | quote fewer rest =>
    have visible : isPrintable q := by rcases mark with rfl | rfl <;> decide
    have backslash : q = '\\' → q ≠ '"' := by rintro rfl; decide
    rw [List.cons_append] at more ⊢
    rw [readBlock_plain more visible backslash, others _ _ fewer rest]
    rfl
  | newline rest =>
    rw [List.cons_append] at more ⊢
    rw [readBlock_newline more, others _ _ (Nat.zero_le _) rest]
    rfl
  | plain visible other backslash rest =>
    rw [List.cons_append] at more ⊢
    rw [readBlock_plain more visible backslash, others _ _ (Nat.zero_le _) rest]
    rfl
  | escape basic escapes rest =>
    subst basic
    rw [List.append_assoc] at more ⊢
    rw [readBlock_escape more escapes, others _ _ (Nat.zero_le _) rest]
    rfl

theorem readBlock_of_spelt (h : Spelt q k text s) (mark : q = '"' ∨ q = '\'') (few : k ≤ 2)
    (ends : ∀ c ∈ tail.head?, c ≠ q) (enough : s.length < n) :
    readBlock q n (text ++ q :: q :: q :: tail) = some (s, tail) := by
  obtain ⟨n, rfl⟩ := Nat.exists_eq_add_one.2 (Nat.lt_of_le_of_lt (Nat.zero_le _) enough)
  induction s generalizing k text n with
  | nil =>
    cases h
    exact readBlock_of_end (blockEnd?_replicate ends (Nat.zero_le _))
  | cons c others ih =>
    obtain ⟨n, rfl⟩ := Nat.exists_eq_add_one.2
      (Nat.lt_of_le_of_lt (Nat.zero_le _) (Nat.lt_of_succ_lt_succ enough))
    exact readBlock_cons h mark few ends fun k text few h =>
      ih h few n (Nat.lt_of_succ_lt_succ enough)

theorem spelt_escapeBlock (few : k ≤ 2) (s : List Char) : Spelt '"' k (escapeBlock k s) s := by
  induction s generalizing k with
  | nil => exact .nil k
  | cons c others ih =>
    unfold escapeBlock
    split
    · rename_i same
      subst same
      split
      · exact .escape rfl (e := ['"']) ⟨fun _ => rfl, fun _ => rfl⟩ (ih (Nat.zero_le _))
      · exact .quote (by omega) (ih (by omega))
    split
    · rename_i same
      subst same
      exact .newline (ih (Nat.zero_le _))
    rename_i other line
    rcases escapeChar_cases c line with ⟨e, escaped, escapes⟩ | ⟨plain, visible, backslash⟩
    · rw [escaped]
      exact .escape rfl escapes (ih (Nat.zero_le _))
    · rw [plain]
      exact .plain visible other (fun same => absurd same backslash) (ih (Nat.zero_le _))

theorem le_longestRun (q : Char) (now most : Nat) (s : List Char) :
    max now most ≤ longestRun q now most s := by
  induction s generalizing now most with
  | nil => exact Nat.le_refl _
  | cons c others ih =>
    unfold longestRun
    split
    · have := ih (now + 1) most
      omega
    · have := ih 0 (max now most)
      omega

theorem spelt_literal {most : Nat} (runs : longestRun '\'' k most s ≤ 2)
    (control : ∀ c ∈ s, isControl c = false) : Spelt '\'' k s s := by
  induction s generalizing k most with
  | nil => exact .nil k
  | cons c others ih =>
    obtain ⟨first, later⟩ := List.forall_mem_cons.1 control
    unfold longestRun at runs
    split at runs
    · rename_i same
      subst same
      have := le_longestRun '\'' (k + 1) most others
      exact .quote (by omega) (ih runs later)
    rename_i other
    by_cases line : c = '\n'
    · subst line
      exact .newline (ih runs later)
    · exact .plain (isPrintable_of_not_control first line) other (fun _ => by decide)
        (ih runs later)

theorem afterBreak?_of_spelt (h : Spelt q k text s) (mark : q = '"' ∨ q = '\'') (line : '\n' ∉ s) :
    afterBreak? (text ++ q :: rest) = none := by
  have quote : ∀ rest, afterBreak? (q :: rest) = none := by
    intro rest
    rcases mark with rfl | rfl <;> exact afterBreak?_eq_none (by decide) (by decide)
  cases h with
  | nil => exact quote _
  | quote => exact quote _
  | newline => exact absurd List.mem_cons_self line
  | plain visible =>
    obtain ⟨newline, back⟩ := not_break_of_printable visible
    exact afterBreak?_eq_none newline back
  | escape => exact afterBreak?_eq_none (by decide) (by decide)

theorem readBlockBody_of_spelt (h : Spelt q 0 text s) (mark : q = '"' ∨ q = '\'')
    (ends : ∀ c ∈ tail.head?, c ≠ q) :
    readBlockBody q (blockStart s ++ text ++ q :: q :: q :: tail) = some (s, tail) := by
  have enough := h.length_le
  unfold blockStart
  split
  · have start : afterBreak? (['\n'] ++ text ++ q :: q :: q :: tail) =
        some (text ++ q :: q :: q :: tail) := rfl
    rw [readBlockBody, start]
    exact readBlock_of_spelt h mark (Nat.zero_le _) ends (by simp; omega)
  · rename_i line
    rw [List.contains_eq_mem, decide_eq_true_eq] at line
    rw [List.nil_append, readBlockBody, afterBreak?_of_spelt h mark line]
    exact readBlock_of_spelt h mark (Nat.zero_le _) ends (by simp; omega)

theorem conditions_of_literal (h : Quotes.of s = .literal) :
    (∀ c ∈ s, isPrintable c) ∧ '\'' ∉ s := by
  unfold Quotes.of at h
  dsimp only at h
  split at h
  · cases h
  split at h
  · rename_i holds
    simp only [Bool.and_eq_true, Bool.not_eq_true', List.any_eq_false, List.contains_eq_mem,
      decide_eq_false_iff_not] at holds
    obtain ⟨⟨control, line⟩, quote⟩ := holds
    refine ⟨fun c mem => isPrintable_of_not_control (by simpa using control c mem) ?_, quote⟩
    rintro rfl
    exact line mem
  · repeat' split at h
    all_goals cases h

theorem conditions_of_literalBlock (h : Quotes.of s = .literalBlock) :
    (∀ c ∈ s, isControl c = false) ∧ longestRun '\'' 0 0 s ≤ 2 := by
  unfold Quotes.of at h
  dsimp only at h
  iterate 3
    split at h
    · cases h
  split at h
  · rename_i holds
    simpa using holds
  · split at h <;> cases h

theorem not_quotes_of_escapeLine (ends : ∀ c ∈ tail.head?, c ≠ '"') (s rest : List Char) :
    escapeLine s ++ '"' :: tail ≠ '"' :: '"' :: rest := by
  intro same
  cases s with
  | nil =>
    obtain ⟨-, same⟩ := List.cons.inj same
    exact ends '"' (by rw [same]; rfl) rfl
  | cons c others =>
    rcases escapeLine_cons_cases c others with ⟨e, escaped, -⟩ | ⟨plain, -, quote, -⟩
    · rw [escaped] at same
      cases same
    · rw [plain] at same
      exact quote (List.cons.inj same).1

theorem readString_basic (single : ∀ rest, text ≠ '"' :: '"' :: rest) :
    readString ('"' :: text) = readBasic text.length text := by
  unfold readString
  split
  · rename_i rest same
    exact absurd (List.cons.inj same).2 (single rest)
  · rename_i same
    cases same
  · rfl

theorem readString_literal (single : ∀ rest, text ≠ '\'' :: '\'' :: rest) :
    readString ('\'' :: text) = readLiteral text := by
  unfold readString
  split
  · rename_i same
    cases same
  · rename_i rest same
    exact absurd (List.cons.inj same).2 (single rest)
  · rfl

theorem readString_quoteChars (s : List Char) (ends : ∀ c ∈ tail.head?, c ≠ '"' ∧ c ≠ '\'') :
    readString (quoteChars s ++ tail) = some (s, tail) := by
  unfold quoteChars
  cases form : Quotes.of s with
  | basic =>
    have single := not_quotes_of_escapeLine (fun c mem => (ends c mem).1) s
    have enough := length_le_escapeLine s
    have read := readString_basic single
    rw [readBasic_escapeLine (by simp; omega)] at read
    simpa using read
  | literal =>
    obtain ⟨visible, quote⟩ := conditions_of_literal form
    have single : ∀ rest, s ++ '\'' :: tail ≠ '\'' :: '\'' :: rest := by
      intro rest same
      cases s with
      | nil => exact (ends '\'' (by rw [(List.cons.inj same).2]; rfl)).2 rfl
      | cons c others => exact quote ((List.cons.inj same).1 ▸ List.mem_cons_self)
    have read := readString_literal single
    rw [readLiteral_append visible quote] at read
    simpa using read
  | basicBlock =>
    have read := readBlockBody_of_spelt (spelt_escapeBlock (Nat.zero_le _) s) (.inl rfl)
      fun c mem => (ends c mem).1
    simpa [readString] using read
  | literalBlock =>
    obtain ⟨control, runs⟩ := conditions_of_literalBlock form
    have read := readBlockBody_of_spelt (spelt_literal runs control) (.inr rfl)
      fun c mem => (ends c mem).2
    simpa [readString] using read

end Wordhoard.Toml
