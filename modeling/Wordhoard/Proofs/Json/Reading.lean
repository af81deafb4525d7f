import Mathlib.Data.List.DropRight
import Wordhoard.Proofs.Json.Spelling
import Wordhoard.Proofs.Text.Digits

/-! Every spelling of a JSON value is read as the value. Main statement: so is its compact text, and
so is its pretty text. -/
namespace Wordhoard.Json

open Text (isDigit_of_mem_repr decimal_repr repr_ne_nil head?_repr_ne_zero
  span_digits mem_digits)

variable {d : Nat} {v : Json} {items : List Json} {members : List (String × Json)}
  {s rest gap : List Char} {c : Char}

theorem skipSpace_append (h : Gap gap) : skipSpace (gap ++ s) = skipSpace s :=
  List.dropWhile_append_of_pos h

theorem skipSpace_cons (h : isSpace c = false) : skipSpace (c :: s) = c :: s :=
  List.dropWhile_cons_of_neg (by rw [Bool.not_eq_true]; exact h)

theorem skipSpace_skipSpace (s : List Char) : skipSpace (skipSpace s) = skipSpace s :=
  List.dropWhile_idempotent _ s

theorem readValue_skipSpace (n d : Nat) (s : List Char) :
    readValue n d (skipSpace s) = readValue n d s := by
  cases n with
  | zero => rw [readValue, readValue]
  | succ n => rw [readValue, readValue, skipSpace_skipSpace]

theorem readItems_skipSpace (n d : Nat) (s : List Char) :
    readItems n d (skipSpace s) = readItems n d s := by
  cases n with
  | zero => rw [readItems, readItems]
  | succ n => rw [readItems, readItems, readValue_skipSpace]

theorem readMembers_skipSpace (n d : Nat) (s : List Char) :
    readMembers n d (skipSpace s) = readMembers n d s := by
  cases n with
  | zero => rw [readMembers, readMembers]
  | succ n => rw [readMembers, readMembers, skipSpace_skipSpace]

theorem readUnit_control (h : c.toNat < 0x20) :
    readUnit ('0' :: '0' :: Text.digitChar (c.toNat / 16) :: Text.digitChar (c.toNat % 16) :: rest) =
      some (c, rest) := by
  have number : ∀ n < 0x20, Text.number? 16
      ['0', '0', Text.digitChar (n / 16), Text.digitChar (n % 16)] = some n := by decide
  simp only [readUnit, readHex4, number _ h, Option.map_some, Option.bind_eq_bind,
    Option.bind_some]
  rw [if_neg (by omega), if_neg (by omega), Char.ofNat_toNat]
  rfl

theorem readChars_escapeChar (c : Char) (n : Nat) (rest : List Char) :
    readChars (n + 1) (escapeChar c ++ rest) =
      (readChars n rest).map fun p => (c :: p.1, p.2) := by
  have escaped {body : List Char} (h : readEscape body = some (c, rest)) :
      readChars (n + 1) ('\\' :: body) = (readChars n rest).map fun p => (c :: p.1, p.2) := by
    simp only [readChars, if_neg (show ¬ '\\' = '"' by decide), if_true, h, Option.bind_eq_bind,
      Option.bind_some]
    cases readChars n rest <;> rfl
  unfold escapeChar
  split
  · rename_i same; subst same; exact escaped rfl
  split
  · rename_i same; subst same; exact escaped rfl
  split
  · rename_i same; subst same; exact escaped rfl
  split
  · rename_i same; subst same; exact escaped rfl
  split
  · rename_i same; subst same; exact escaped rfl
  split
  · rename_i same; subst same; exact escaped rfl
  split
  · rename_i same; subst same; exact escaped rfl
  split
  · rename_i control
    exact escaped (readUnit_control control)
  · rename_i quote backslash _ _ _ _ _ visible
    simp only [List.singleton_append, readChars, if_neg quote, if_neg backslash, if_neg visible,
      Option.bind_eq_bind]
    cases readChars n rest <;> rfl

theorem readChars_flatMap (cs : List Char) (n : Nat) (enough : cs.length < n) :
    readChars n (cs.flatMap escapeChar ++ '"' :: rest) = some (cs, rest) := by
  induction cs generalizing n with
  | nil =>
    obtain ⟨n, rfl⟩ := Nat.exists_eq_add_one.2 enough
    simp only [List.flatMap_nil, List.nil_append, readChars, if_true]
  | cons c others ih =>
    obtain ⟨n, rfl⟩ := Nat.exists_eq_add_one.2 (Nat.lt_of_le_of_lt (Nat.zero_le _) enough)
    rw [List.flatMap_cons, List.append_assoc, readChars_escapeChar,
      ih n (Nat.lt_of_succ_lt_succ enough)]
    rfl

theorem escapeChar_ne_nil (c : Char) : escapeChar c ≠ [] := by
  unfold escapeChar
  repeat' split
  all_goals exact List.cons_ne_nil _ _

theorem length_le_flatMap (cs : List Char) : cs.length ≤ (cs.flatMap escapeChar).length := by
  induction cs with
  | nil => exact Nat.le_refl _
  | cons c others ih =>
    have one := List.length_pos_of_ne_nil (escapeChar_ne_nil c)
    rw [List.flatMap_cons, List.length_append, List.length_cons]
    omega

theorem readString_quoted (s : String) :
    readString (s.toList.flatMap escapeChar ++ '"' :: rest) = some (s, rest) := by
  have enough : s.toList.length < (s.toList.flatMap escapeChar ++ '"' :: rest).length := by
    have := length_le_flatMap s.toList
    rw [List.length_append, List.length_cons]
    omega
  rw [readString, readChars_flatMap _ _ enough]
  exact congrArg (fun t => some (t, rest)) String.ofList_toList

def Follows (rest : List Char) : Prop :=
  ∀ c ∈ rest.head?, c.isDigit = false ∧ c ≠ '.' ∧ c ≠ 'e' ∧ c ≠ 'E'

theorem readWhole_repr (n : Nat) (h : Follows rest) :
    readWhole (n.repr.toList ++ rest) = some (n.repr.toList, rest) := by
  have span := span_digits (fun c => isDigit_of_mem_repr (n := n)) fun c hc => (h c hc).1
  rw [readWhole, span]
  split
  · rename_i same
    exact absurd (Prod.mk.inj same).1 (repr_ne_nil n)
  · -- A zero in front is the whole number.
    rename_i same
    have digits := (Prod.mk.inj same).1
    rcases Nat.eq_zero_or_pos n with zero | positive
    · subst zero
      cases digits
    · exact absurd (by rw [digits]; rfl) (head?_repr_ne_zero positive)
  · rfl

theorem readFraction_follows (h : Follows rest) : readFraction rest = some ([], rest) := by
  unfold readFraction
  split
  · exact absurd rfl (h '.' rfl).2.1
  · rfl

theorem readExponent_follows (h : Follows rest) : readExponent rest = some ([], rest) := by
  cases rest with
  | nil => rfl
  | cons c others =>
    obtain ⟨-, -, small, large⟩ := h c rfl
    unfold readExponent
    simp only [small, large, decide_false, Bool.or_self, Bool.false_eq_true, if_false]

theorem readUnsigned_repr (negative : Bool) (n : Nat) (h : Follows rest)
    (sound : negative = true → 0 < n) :
    readUnsigned negative (n.repr.toList ++ rest) =
      some (.integer (if negative then -n else n), rest) := by
  have sign : (negative && n == 0) = false := by
    cases negative with
    | false => rfl
    | true => simpa using (sound rfl).ne'
  simp only [readUnsigned, readWhole_repr n h, readFraction_follows h, readExponent_follows h,
    decimal_repr, Option.bind_eq_bind, Option.bind_some, List.isEmpty_nil, sign, Bool.not_false,
    Bool.and_self, if_true]
  rfl

theorem exists_head_repr (n : Nat) : ∃ c others, n.repr.toList = c :: others ∧ c.isDigit := by
  cases chars : n.repr.toList with
  | nil => exact absurd chars (repr_ne_nil n)
  | cons c others =>
    exact ⟨c, others, rfl, isDigit_of_mem_repr (n := n) (by rw [chars]; exact List.mem_cons_self)⟩

theorem toList_toString_negSucc (n : Nat) :
    (toString (Int.negSucc n)).toList = '-' :: (n + 1).repr.toList :=
  String.toList_append

theorem exists_head_toString (n : Int) :
    ∃ c others, (toString n).toList = c :: others ∧ c ∈ "-0123456789".toList := by
  cases n with
  | ofNat n =>
    obtain ⟨c, others, chars, digit⟩ := exists_head_repr n
    exact ⟨c, others, chars, List.mem_cons_of_mem _ (mem_digits digit)⟩
  | negSucc n => exact ⟨'-', _, toList_toString_negSucc n, List.mem_cons_self⟩

theorem readNumber_toString (n : Int) (h : Follows rest) :
    readNumber ((toString n).toList ++ rest) = some (.integer n, rest) := by
  cases n with
  | ofNat n =>
    have read := readUnsigned_repr false n h nofun
    obtain ⟨c, others, chars, digit⟩ := exists_head_repr n
    have text : (toString (Int.ofNat n)).toList = c :: others := chars
    rw [chars] at read
    rw [text]
    unfold readNumber
    split
    · rename_i same
      cases same
      cases digit
    · exact read
  | negSucc n =>
    rw [toList_toString_negSucc, List.cons_append, readNumber,
      readUnsigned_repr true (n + 1) h fun _ => n.succ_pos]
    rfl

theorem Spelled.value_head (h : Spelled d (.value v) s) :
    ∃ c others, s = c :: others ∧ isSpace c = false ∧ c ≠ ']' := by
  cases h with
  | null => exact ⟨_, _, rfl, rfl, by decide⟩
  | yes => exact ⟨_, _, rfl, rfl, by decide⟩
  | no => exact ⟨_, _, rfl, rfl, by decide⟩
  | integer _ n =>
    obtain ⟨c, others, text, mem⟩ := exists_head_toString n
    have all : "-0123456789".toList.all (fun c => !isSpace c && c != ']') = true := by decide
    have first := List.all_eq_true.1 all c mem
    simp only [Bool.and_eq_true, Bool.not_eq_true', bne_iff_ne] at first
    exact ⟨c, others, text, first⟩
  | string => exact ⟨_, _, rfl, rfl, by decide⟩
  | emptyArray => exact ⟨_, _, rfl, rfl, by decide⟩
  | array => exact ⟨_, _, rfl, rfl, by decide⟩
  | emptyObject => exact ⟨_, _, rfl, rfl, by decide⟩
  | object => exact ⟨_, _, rfl, rfl, by decide⟩

theorem Spelled.items_head (h : Spelled d (.items items) s) :
    ∃ gap c others, Gap gap ∧ s = gap ++ c :: others ∧ isSpace c = false ∧ c ≠ ']' := by
  cases h with
  | lastItem hgap value _ =>
    obtain ⟨c, others, rfl, first⟩ := value.value_head
    exact ⟨_, c, _, hgap, by rw [List.append_assoc]; rfl, first⟩
  | item hgap value _ _ =>
    obtain ⟨c, others, rfl, first⟩ := value.value_head
    exact ⟨_, c, _, hgap, by rw [List.append_assoc, List.append_assoc]; rfl, first⟩

theorem Spelled.members_head (h : Spelled d (.members members) s) :
    ∃ gap others, Gap gap ∧ s = gap ++ '"' :: others := by
  cases h with
  | lastMember _ hgap _ _ _ _ => exact ⟨_, _, hgap, by rw [List.append_assoc, List.append_assoc]; rfl⟩
  | member _ hgap _ _ _ _ _ => exact ⟨_, _, hgap, by rw [List.append_assoc, List.append_assoc]; rfl⟩

theorem readValue_gap (n d : Nat) (h : Gap gap) : readValue n d (gap ++ s) = readValue n d s := by
  rw [← readValue_skipSpace, skipSpace_append h, readValue_skipSpace]

theorem readValue_number (n d : Nat) (h : c ∈ "-0123456789".toList) :
    readValue (n + 1) d (c :: s) = readNumber (c :: s) := by
  have all : "-0123456789".toList.all (fun c => !isSpace c && c != '"' && c != '[' &&
      c != '\x7b' && c != 'n' && c != 't' && c != 'f') = true := by decide
  have first := List.all_eq_true.1 all c h
  simp only [Bool.and_eq_true, Bool.not_eq_true', bne_iff_ne, and_assoc] at first
  obtain ⟨space, quote, bracket, brace, null, yes, no⟩ := first
  simp only [readValue, skipSpace_cons space, if_neg quote, if_neg bracket, if_neg brace, if_neg null,
    if_neg yes, if_neg no]

theorem readValue_bracket (n d : Nat) (s : List Char) :
    readValue (n + 1) (d + 1) ('[' :: s) =
      match skipSpace s with
      | ']' :: rest => some (.array [], rest)
      | rest => (readItems n d rest).map fun p => (.array p.1, p.2) := rfl

theorem readValue_brace (n d : Nat) (s : List Char) :
    readValue (n + 1) (d + 1) ('\x7b' :: s) =
      match skipSpace s with
      | '\x7d' :: rest => some (.object [], rest)
      | rest => (readMembers n d rest).map fun p => (.object p.1, p.2) := rfl

theorem readValue_array {n : Nat} (spelled : Spelled d (.items items) s)
    (read : readItems n d (s ++ ']' :: rest) = some (items, rest)) :
    readValue (n + 1) (d + 1) ('[' :: (s ++ ']' :: rest)) = some (.array items, rest) := by
  obtain ⟨gap, c, others, hgap, rfl, no_space, no_bracket⟩ := spelled.items_head
  have first : skipSpace (gap ++ c :: others ++ ']' :: rest) = c :: (others ++ ']' :: rest) := by
    rw [List.append_assoc, skipSpace_append hgap, List.cons_append, skipSpace_cons no_space]
  rw [← readItems_skipSpace, first] at read
  rw [readValue_bracket, first]
  split
  · rename_i same
    exact absurd (List.cons.inj same).1 no_bracket
  · rw [read]
    rfl

theorem readValue_object {n : Nat} (spelled : Spelled d (.members members) s)
    (read : readMembers n d (s ++ '\x7d' :: rest) = some (members, rest)) :
    readValue (n + 1) (d + 1) ('\x7b' :: (s ++ '\x7d' :: rest)) = some (.object members, rest) := by
  obtain ⟨gap, others, hgap, rfl⟩ := spelled.members_head
  have first : skipSpace (gap ++ '"' :: others ++ '\x7d' :: rest) =
      '"' :: (others ++ '\x7d' :: rest) := by
    rw [List.append_assoc, skipSpace_append hgap, List.cons_append, skipSpace_cons rfl]
  rw [← readMembers_skipSpace, first] at read
  rw [readValue_brace, first]
  split
  · rename_i same
    exact absurd (List.cons.inj same).1 (by decide)
  · rw [read]
    rfl

theorem readItems_lastItem {n : Nat} (read : readValue n d s = some (v, gap ++ ']' :: rest))
    (hgap : Gap gap) : readItems (n + 1) d s = some ([v], rest) := by
  simp only [readItems, read, Option.bind_eq_bind, Option.bind_some, skipSpace_append hgap,
    skipSpace_cons (show isSpace ']' = false from rfl)]
  rfl

theorem readItems_item {n : Nat} {t : List Char}
    (read : readValue n d s = some (v, gap ++ ',' :: t)) (hgap : Gap gap)
    (others : readItems n d t = some (items, rest)) :
    readItems (n + 1) d s = some (v :: items, rest) := by
  simp only [readItems, read, Option.bind_eq_bind, Option.bind_some, skipSpace_append hgap,
    skipSpace_cons (show isSpace ',' = false from rfl), others]
  rfl

theorem skipSpace_name (name : String) {colonGap : List Char} (hgap : Gap gap) :
    skipSpace (gap ++ quoted name ++ colonGap ++ ':' :: s) =
      '"' :: (name.toList.flatMap escapeChar ++ '"' :: (colonGap ++ ':' :: s)) := by
  rw [List.append_assoc, List.append_assoc, skipSpace_append hgap, quoted, List.cons_append,
    List.cons_append, skipSpace_cons rfl, List.append_assoc]
  rfl

theorem readMembers_lastMember {n : Nat} {name : String} {colonGap gap' : List Char}
    (hgap : Gap gap) (hcolon : Gap colonGap)
    (read : readValue n d s = some (v, gap' ++ '\x7d' :: rest)) (hgap' : Gap gap') :
    readMembers (n + 1) d (gap ++ quoted name ++ colonGap ++ ':' :: s) =
      some ([(name, v)], rest) := by
  simp only [readMembers, skipSpace_name name hgap, readString_quoted, Option.bind_eq_bind,
    Option.bind_some, skipSpace_append hcolon, skipSpace_cons (show isSpace ':' = false from rfl),
    read, skipSpace_append hgap', skipSpace_cons (show isSpace '\x7d' = false from rfl)]
  rfl

theorem readMembers_member {n : Nat} {name : String} {colonGap gap' t : List Char}
    (hgap : Gap gap) (hcolon : Gap colonGap) (read : readValue n d s = some (v, gap' ++ ',' :: t))
    (hgap' : Gap gap') (others : readMembers n d t = some (members, rest)) :
    readMembers (n + 1) d (gap ++ quoted name ++ colonGap ++ ':' :: s) =
      some ((name, v) :: members, rest) := by
  simp only [readMembers, skipSpace_name name hgap, readString_quoted, Option.bind_eq_bind,
    Option.bind_some, skipSpace_append hcolon, skipSpace_cons (show isSpace ':' = false from rfl),
    read, skipSpace_append hgap', skipSpace_cons (show isSpace ',' = false from rfl), others]
  rfl

/-- Neither a gap nor a comma or closing bracket goes on with a number. -/
theorem follows_gap (hgap : Gap gap) (h : c = ',' ∨ c = ']' ∨ c = '\x7d') :
    Follows (gap ++ c :: rest) := by
  intro c' head
  cases gap with
  | nil =>
    obtain rfl : c = c' := Option.some.inj head
    rcases h with rfl | rfl | rfl <;> decide
  | cons space others =>
    obtain rfl : space = c' := Option.some.inj head
    have blank := hgap space List.mem_cons_self
    simp only [isSpace, Bool.or_eq_true, decide_eq_true_eq] at blank
    rcases blank with ((rfl | rfl) | rfl) | rfl <;> decide

def Reads (d : Nat) : Form → List Char → Prop
  | .value v, s => ∀ n rest, 2 * s.length ≤ n → Follows rest →
      readValue n d (s ++ rest) = some (v, rest)
  | .items items, s => ∀ n rest, 2 * s.length < n →
      readItems n d (s ++ ']' :: rest) = some (items, rest)
  | .members members, s => ∀ n rest, 2 * s.length < n →
      readMembers n d (s ++ '\x7d' :: rest) = some (members, rest)

theorem exists_step {n : Nat} (enough : 2 * (c :: s).length ≤ n) :
    ∃ m, n = m + 1 ∧ 2 * s.length < m := by
  rw [List.length_cons] at enough
  exact ⟨n - 1, by omega, by omega⟩

theorem Spelled.reads {form : Form} (h : Spelled d form s) : Reads d form s := by
  induction h with
  | null d =>
    intro n rest enough _
    obtain ⟨n, rfl, -⟩ := exists_step (s := "ull".toList) enough
    rfl
  | yes d =>
    intro n rest enough _
    obtain ⟨n, rfl, -⟩ := exists_step (s := "rue".toList) enough
    rfl
  | no d =>
    intro n rest enough _
    obtain ⟨n, rfl, -⟩ := exists_step (s := "alse".toList) enough
    rfl
  | integer d n =>
    intro steps rest enough follows
    have read := readNumber_toString n follows
    obtain ⟨c, others, text, mem⟩ := exists_head_toString n
    rw [text] at read enough ⊢
    obtain ⟨steps, rfl, -⟩ := exists_step enough
    rw [List.cons_append, readValue_number _ _ mem]
    exact read
  | string d s =>
    intro n rest enough _
    obtain ⟨n, rfl, -⟩ := exists_step enough
    have read := @readString_quoted rest s
    rw [quoted, List.cons_append, List.cons_append, List.append_assoc]
    show (readString _).map _ = _
    rw [List.singleton_append, read]
    rfl
  | emptyArray d hgap =>
    intro n rest enough _
    obtain ⟨n, rfl, -⟩ := exists_step enough
    rw [List.cons_append, readValue_bracket, List.append_assoc, skipSpace_append hgap]
    rfl
  | array inner ih =>
    intro n rest enough _
    obtain ⟨n, rfl, further⟩ := exists_step enough
    rw [List.length_append] at further
    rw [List.cons_append, List.append_assoc]
    exact readValue_array inner (ih n rest (by omega))
  | emptyObject d hgap =>
    intro n rest enough _
    obtain ⟨n, rfl, -⟩ := exists_step enough
    rw [List.cons_append, readValue_brace, List.append_assoc, skipSpace_append hgap]
    rfl
  | object inner ih =>
    intro n rest enough _
    obtain ⟨n, rfl, further⟩ := exists_step enough
    rw [List.length_append] at further
    rw [List.cons_append, List.append_assoc]
    exact readValue_object inner (ih n rest (by omega))
  | lastItem hgap value hgap' ih =>
    intro n rest enough
    obtain ⟨n, rfl⟩ := Nat.exists_eq_add_one.2 (Nat.zero_lt_of_lt enough)
    simp only [List.length_append] at enough
    refine readItems_lastItem ?_ hgap'
    rw [List.append_assoc, List.append_assoc, readValue_gap _ _ hgap]
    exact ih n _ (by omega) (follows_gap hgap' (.inr (.inl rfl)))
  | item hgap value hgap' others ih ihOthers =>
    intro n rest enough
    obtain ⟨n, rfl⟩ := Nat.exists_eq_add_one.2 (Nat.zero_lt_of_lt enough)
    simp only [List.length_append, List.length_cons] at enough
    refine readItems_item ?_ hgap' (ihOthers n rest (by omega))
    rw [List.append_assoc, List.append_assoc, List.append_assoc, readValue_gap _ _ hgap]
    exact ih n _ (by omega) (follows_gap hgap' (.inl rfl))
  | lastMember name hgap hcolon hvalue value hgap' ih =>
    intro n rest enough
    obtain ⟨n, rfl⟩ := Nat.exists_eq_add_one.2 (Nat.zero_lt_of_lt enough)
    simp only [List.length_append, List.length_cons] at enough
    rw [List.append_assoc, List.cons_append]
    refine readMembers_lastMember hgap hcolon ?_ hgap'
    rw [List.append_assoc, List.append_assoc, readValue_gap _ _ hvalue]
    exact ih n _ (by omega) (follows_gap hgap' (.inr (.inr rfl)))
  | member name hgap hcolon hvalue value hgap' others ih ihOthers =>
    intro n rest enough
    obtain ⟨n, rfl⟩ := Nat.exists_eq_add_one.2 (Nat.zero_lt_of_lt enough)
    simp only [List.length_append, List.length_cons] at enough
    rw [List.append_assoc, List.cons_append]
    refine readMembers_member hgap hcolon ?_ hgap' (ihOthers n rest (by omega))
    rw [List.append_assoc, List.append_assoc, List.append_assoc, readValue_gap _ _ hvalue]
    exact ih n _ (by omega) (follows_gap hgap' (.inl rfl))

theorem read?_of_spelled {text : String} (h : Spelled maxDepth (.value v) text.toList) :
    read? text = some v := by
  have read := h.reads (2 * text.toList.length + 2) [] (Nat.le_add_right _ _) nofun
  rw [List.append_nil] at read
  simp only [read?, read]
  rfl

theorem read?_compact (h : Plain maxDepth v) : read? v.compact = some v :=
  read?_of_spelled (spelled_compact h)

theorem read?_pretty (h : Plain maxDepth v) : read? v.pretty = some v :=
  read?_of_spelled (spelled_prettyAt h 0)

end Wordhoard.Json
