import Wordhoard.Proofs.Toml.Quoted

/-! Documents of headers and pairs, one to a line. Main statement: each line is read as what stands on
it. -/
namespace Wordhoard.Toml

open Text (expect)

variable {s rest text : List Char} {name : String} {v : Value} {statements : List Statement} {n d : Nat}

def ReadAs (text : List Char) (v : Value) : Prop :=
  ∀ n d rest, readValue (n + 1) d (skipBlanks (text ++ '\n' :: rest)) = some (v, '\n' :: rest)

theorem readAs_quoteChars (s : List Char) : ReadAs (quoteChars s) (.string (String.ofList s)) := by
  intro n d rest
  have read : readString (quoteChars s ++ '\n' :: rest) = some (s, '\n' :: rest) := by
    refine readString_quoteChars s ?_
    rintro c ⟨⟩
    decide
  have start : ∃ c text, quoteChars s = c :: text ∧ (c = '"' ∨ c = '\'') := by
    unfold quoteChars
    split
    · exact ⟨_, _, rfl, .inl rfl⟩
    · exact ⟨_, _, rfl, .inr rfl⟩
    · exact ⟨_, _, rfl, .inl rfl⟩
    · exact ⟨_, _, rfl, .inr rfl⟩
  obtain ⟨c, text, same, mark⟩ := start
  rw [same, List.cons_append] at read ⊢
  have visible : skipBlanks (c :: (text ++ '\n' :: rest)) = c :: (text ++ '\n' :: rest) :=
    List.dropWhile_cons_of_neg (by rcases mark with rfl | rfl <;> decide)
  have scalar : readScalarValue (c :: (text ++ '\n' :: rest)) =
      some (.string (String.ofList s), '\n' :: rest) := by
    rcases mark with rfl | rfl <;> simp [readScalarValue, read]
  rw [visible]
  rcases mark with rfl | rfl <;> simpa [readValue] using scalar

theorem readAs_boolean (b : Bool) :
    ReadAs (if b then "true" else "false").toList (.boolean b) := by
  intro n d rest
  cases b <;> rfl

theorem readAs_one : ReadAs ['1'] (.integer 1) := by
  intro n d rest
  have visible : skipBlanks ('1' :: '\n' :: rest) = '1' :: '\n' :: rest := rfl
  have newline : Char.isDigit '\n' = false := by decide
  have date : readDateTime ('1' :: '\n' :: rest) = none := by
    simp [readDateTime, afterDate?, afterTime?, readField, newline]
  have float : readFloat ('1' :: '\n' :: rest) = none := rfl
  have integer : readInteger ('1' :: '\n' :: rest) = some (.integer 1, '\n' :: rest) := rfl
  have scalar : readScalarValue ('1' :: '\n' :: rest) = some (.integer 1, '\n' :: rest) := by
    simp [readScalarValue, date, float, integer]
  rw [List.singleton_append, visible]
  simpa [readValue] using scalar

def IsBare (name : String) : Prop := name ≠ "" ∧ ∀ c ∈ name.toList, isBareKeyChar c

instance : Decidable (IsBare name) :=
  decidable_of_iff (name ≠ "" ∧ name.toList.all isBareKeyChar) (by rw [List.all_eq_true, IsBare])

def EndsName (rest : List Char) : Prop :=
  (∀ c ∈ rest.head?, isBareKeyChar c = false) ∧ ∀ c ∈ (skipBlanks rest).head?, c ≠ '.'

theorem ne_of_bare {c d : Char} (bare : isBareKeyChar c) (other : isBareKeyChar d = false) : c ≠ d := by
  rintro rfl
  rw [bare] at other
  cases other

theorem isBlank_of_bare {c : Char} (bare : isBareKeyChar c) : isBlank c = false := by
  have space := ne_of_bare bare (d := ' ') (by decide)
  have tab := ne_of_bare bare (d := '\t') (by decide)
  simp [isBlank, space, tab]

theorem exists_cons_of_bare (bare : IsBare name) :
    ∃ c cs, name.toList = c :: cs ∧ isBareKeyChar c := by
  obtain ⟨c, cs, chars⟩ := List.exists_cons_of_ne_nil (mt String.toList_eq_nil_iff.1 bare.1)
  exact ⟨c, cs, chars, bare.2 c (chars ▸ List.mem_cons_self)⟩

theorem skipBlanks_cons {c : Char} (visible : isBlank c = false) : skipBlanks (c :: s) = c :: s :=
  List.dropWhile_cons_of_neg (by simp [visible])

theorem span_bare (bare : IsBare name) (ends : ∀ c ∈ rest.head?, isBareKeyChar c = false) :
    (name.toList ++ rest).span isBareKeyChar = (name.toList, rest) := by
  rw [List.span_eq_takeWhile_dropWhile, List.takeWhile_append_of_pos bare.2,
    List.dropWhile_append_of_pos bare.2]
  cases rest with
  | nil => simp
  | cons c others =>
    have stop := ends c rfl
    rw [List.takeWhile_cons_of_neg (by simp [stop]), List.dropWhile_cons_of_neg (by simp [stop]),
      List.append_nil]

theorem readKey_bare (bare : IsBare name) (ends : EndsName rest) :
    readKey (name.toList ++ rest) = some ([name], skipBlanks rest) := by
  obtain ⟨c, cs, chars, first⟩ := exists_cons_of_bare bare
  have start : skipBlanks (name.toList ++ rest) = name.toList ++ rest := by
    rw [chars, List.cons_append, skipBlanks_cons (isBlank_of_bare first)]
  have read : readName (name.toList ++ rest) = some (name, rest) := by
    rw [readName, span_bare bare ends.1]
    split
    · rename_i same
      exact absurd (chars.symm.trans (Prod.mk.inj same).1) (List.cons_ne_nil _ _)
    · rename_i same
      obtain ⟨rfl, rfl⟩ := Prod.mk.inj same
      rw [String.ofList_toList]
  rw [readKey, maxDepth, readNames, start, read]
  simp only [Option.bind_eq_bind, Option.bind_some]
  split
  · rename_i same
    exact absurd rfl (ends.2 '.' (by rw [same]; rfl))
  · rfl

def Lists (s : List Char) (statements : List Statement) : Prop :=
  ∀ n, s.length < n → readStatements n s = some statements

theorem lists_nil : Lists [] [] := by
  intro n enough
  obtain ⟨n, rfl⟩ := Nat.exists_eq_add_one.2 enough
  rfl

namespace Lists

theorem newline (h : Lists s statements) : Lists ('\n' :: s) statements := by
  intro n enough
  obtain ⟨n, rfl⟩ := Nat.exists_eq_add_one.2 (Nat.lt_of_le_of_lt (Nat.zero_le _) enough)
  exact h n (Nat.lt_of_succ_lt_succ enough)

theorem statement {c : Char} {line : List Char} {first : Statement} (h : Lists s statements)
    (visible : isBlank c = false) (comment : c ≠ '#') (newline : c ≠ '\n') (back : c ≠ '\r')
    (read : readStatement (c :: (line ++ '\n' :: s)) = some (first, '\n' :: s)) :
    Lists (c :: (line ++ '\n' :: s)) (first :: statements) := by
  intro n enough
  obtain ⟨n, rfl⟩ := Nat.exists_eq_add_one.2 (Nat.lt_of_le_of_lt (Nat.zero_le _) enough)
  -- A statement begins here, so there is no end of a line to skip.
  have later : afterLine? (c :: (line ++ '\n' :: s)) = none := by
    unfold afterLine?
    rw [skipBlanks_cons visible]
    split
    · rename_i same
      cases same
    · rename_i same
      exact absurd (List.cons.inj same).1 comment
    · exact afterBreak?_eq_none newline back
  have here : afterLine? ('\n' :: s) = some s := rfl
  have further : readStatements n s = some statements := h n (by simp at enough; omega)
  rw [readStatements, skipBlanks_cons visible]
  simp only [later, read, Option.bind_eq_bind, Option.bind_some, here, further]
  rfl

theorem table (h : Lists s statements) (name : String) (bare : IsBare name) :
    Lists ('[' :: (name.toList ++ ']' :: '\n' :: s)) (.table [name] :: statements) := by
  have ends : EndsName (']' :: '\n' :: s) := by
    constructor <;> rintro c ⟨⟩ <;> decide
  have key := readKey_bare bare ends
  obtain ⟨c, cs, chars, first⟩ := exists_cons_of_bare bare
  have single : readHeader (name.toList ++ ']' :: '\n' :: s) = some (.table [name], '\n' :: s) := by
    unfold readHeader
    split
    · rename_i same
      rw [chars] at same
      exact absurd (List.cons.inj same).1 (ne_of_bare first (by decide))
    · rw [key]
      rfl
  have read : readStatement ('[' :: (name.toList ++ [']'] ++ '\n' :: s)) =
      some (.table [name], '\n' :: s) := by
    rw [List.append_assoc, List.singleton_append]
    exact single
  have listed := h.statement (by decide) (by decide) (by decide) (by decide) read
  rwa [List.append_assoc, List.singleton_append] at listed

theorem pair (h : Lists s statements) (name : String) (bare : IsBare name) (value : ReadAs text v) :
    Lists (name.toList ++ ' ' :: '=' :: ' ' :: (text ++ '\n' :: s)) (.pair [name] v :: statements) := by
  have ends : EndsName (' ' :: '=' :: ' ' :: (text ++ '\n' :: s)) := by
    constructor <;> rintro c ⟨⟩ <;> decide
  have key := readKey_bare bare ends
  obtain ⟨c, cs, chars, first⟩ := exists_cons_of_bare bare
  have assigned : readPair (name.toList ++ ' ' :: '=' :: ' ' :: (text ++ '\n' :: s)) =
      some (.pair [name] v, '\n' :: s) := by
    have behind : skipBlanks (' ' :: '=' :: ' ' :: (text ++ '\n' :: s)) =
        '=' :: ' ' :: (text ++ '\n' :: s) := rfl
    have sign : expect ['='] ('=' :: ' ' :: (text ++ '\n' :: s)) =
        some ((), ' ' :: (text ++ '\n' :: s)) := rfl
    have read := value (2 * (' ' :: (text ++ '\n' :: s)).length + 1) maxDepth s
    have spaced : skipBlanks (' ' :: (text ++ '\n' :: s)) = skipBlanks (text ++ '\n' :: s) := rfl
    rw [readPair, key, behind]
    simp only [Option.bind_eq_bind, Option.bind_some, sign, spaced, read]
    rfl
  have read : readStatement (c :: (cs ++ ' ' :: '=' :: ' ' :: text ++ '\n' :: s)) =
      some (.pair [name] v, '\n' :: s) := by
    rw [chars, List.cons_append] at assigned
    unfold readStatement
    split
    · rename_i same
      exact absurd (List.cons.inj same).1 (ne_of_bare first (by decide))
    · simpa using assigned
  have listed := h.statement (isBlank_of_bare first) (ne_of_bare first (by decide))
    (ne_of_bare first (by decide)) (ne_of_bare first (by decide)) read
  simpa [chars] using listed

end Lists

end Wordhoard.Toml
