import Wordhoard.Proofs.Pattern.Spans
import Wordhoard.Proofs.Query.Derivation
import Wordhoard.Proofs.Text.Digits

/-! Lexemes that a query is printed with, and how the scanner cuts them apart again. -/
namespace Wordhoard.Query

open Grammar (Leaf Terminal)
open Pattern (Takes Refuses CharSet)
open Text (isDigit_of_mem_repr mem_digits repr_ne_nil)

inductive Mark where
  | openParen
  | closeParen
  | colon
  | comma
  | semicolon
  | pipe
  | star
  deriving DecidableEq

def Mark.kind : Mark → Kind
  | openParen => .openParen
  | closeParen => .closeParen
  | colon => .colon
  | comma => .comma
  | semicolon => .semicolon
  | pipe => .pipe
  | star => .star

def Mark.char : Mark → Char
  | openParen => '('
  | closeParen => ')'
  | colon => ':'
  | comma => ','
  | semicolon => ';'
  | pipe => '|'
  | star => '*'

def Comparison.symbol : Comparison → String
  | eq => "="
  | ne => "!="
  | lt => "<"
  | le => "<="
  | gt => ">"
  | ge => ">="

def escaped (s : List Char) : List Char :=
  s.flatMap fun c => if c = '"' ∨ c = '\\' then ['\\', c] else [c]

inductive Lexeme where
  | blank
  | word (text : String)
  | number (value : Nat)
  | literal (text : String)
  | tag (name : String)
  | compare (op : Comparison)
  | mark (mark : Mark)
  deriving DecidableEq

namespace Lexeme

def chars : Lexeme → List Char
  | blank => [' ']
  | word text => text.toList
  | number value => value.repr.toList
  | literal text => '"' :: (escaped text.toList ++ ['"'])
  | tag name => '#' :: name.toList
  | compare op => op.symbol.toList
  | mark m => [m.char]

def visible : Lexeme → Bool
  | blank => false
  | _ => true

def terminal? : Lexeme → Option (Terminal Kind)
  | blank => none
  | word text => some (.word .ident text)
  | number _ => some (.kind .number)
  | literal _ => some (.kind .string)
  | tag _ => some (.kind .tag)
  | compare _ => some (.kind .compare)
  | mark m => some (.kind m.kind)

def Proper : Lexeme → Prop
  | word text => text ∈ keywords
  | tag name => isValidTag name
  | _ => True

def breaks : Lexeme → Bool
  | blank => true
  | mark m => m ≠ .star
  | _ => false

/-- The second lexeme may stand right behind the first one. -/
def joins : Lexeme → Lexeme → Bool
  | blank, y => y.visible
  | literal _, _ => true
  | mark _, _ => true
  | _, y => y.breaks

end Lexeme

theorem dropBackslashes_cons {c : Char} (h : c ≠ '\\') (s : List Char) :
    dropBackslashes (c :: s) = c :: dropBackslashes s := by
  cases s with
  | nil => simp only [dropBackslashes, if_neg h]
  | cons d others => rw [dropBackslashes, if_neg h]

theorem dropBackslashes_escaped (s : List Char) : dropBackslashes (escaped s) = s := by
  induction s with
  | nil => rfl
  | cons c others ih =>
    have step : escaped (c :: others) =
        (if c = '"' ∨ c = '\\' then ['\\', c] else [c]) ++ escaped others := rfl
    rw [step]
    split
    · rw [List.cons_append, List.cons_append, List.nil_append, dropBackslashes, if_pos rfl, ih]
    · rename_i plain
      rw [List.singleton_append, dropBackslashes_cons fun same => plain (.inr same), ih]

theorem unquote_literal (text : String) :
    unquote (String.ofList (Lexeme.literal text).chars) = text := by
  simp only [unquote, Lexeme.chars, String.toList_ofList, List.getLast?_concat,
    List.dropLast_concat, if_true, dropBackslashes_escaped, String.ofList_toList]

theorem valid_chars {name : String} (h : isValidTag name) :
    name.toList ≠ [] ∧ ∀ c ∈ name.toList, tagEnd.contains c = false := by
  rw [isValidTag, Bool.and_eq_true, decide_eq_true_eq] at h
  refine ⟨fun empty => h.1 (String.toList_eq_nil_iff.1 empty), fun c hc => ?_⟩
  have valid := List.all_eq_true.1 h.2 c hc
  rw [Bool.and_eq_true, Bool.not_eq_true', Bool.not_eq_true', List.contains_eq_mem,
    decide_eq_false_iff_not] at valid
  have ends : (CharSet.ofList ['#', ';', '|', ',', '(', ')', ':', '"']).contains c = false := by
    rw [← Bool.not_eq_true, Pattern.CharSet.contains_ofList]
    intro mem
    refine valid.2 ?_
    simp only [tagDelimiters, List.mem_cons, List.not_mem_nil, or_false] at mem ⊢
    tauto
  rw [tagEnd, CharSet.contains, ends, Bool.or_false]
  exact valid.1

theorem tagName_tag {name : String} {t : Token Kind} (h : isValidTag name)
    (text : t.text = String.ofList (Lexeme.tag name).chars) : tagName t = name := by
  obtain ⟨nonempty, valid⟩ := valid_chars h
  rw [tagName, text, String.toList_ofList, Lexeme.chars, List.dropWhile_cons_of_pos (by decide)]
  cases chars : name.toList with
  | nil => exact absurd chars nonempty
  | cons c others =>
    have other : c ≠ '#' := by
      rintro rfl
      have := valid '#' (by rw [chars]; exact List.mem_cons_self)
      exact absurd this (by decide)
    rw [List.dropWhile_cons_of_neg (by simpa using other), ← chars, String.ofList_toList]

def Lexeme.kind : Lexeme → Kind
  | blank => .whitespace
  | word _ => .ident
  | number _ => .number
  | literal _ => .string
  | tag _ => .tag
  | compare _ => .compare
  | mark m => m.kind

def breakChars : List Char := [' ', '(', ')', ':', ',', ';', '|']

def Lexeme.Ends : Lexeme → List Char → Prop
  | blank, rest => ∀ c ∈ rest.head?, CharSet.blank.contains c = false
  | literal _, _ => True
  | mark _, _ => True
  | _, rest => ∀ c ∈ rest.head?, c ∈ breakChars

def CutOff (x : Lexeme) (rest : List Char) : Prop :=
  ∃ r : Rule Kind, Rule.first? rules (x.chars ++ rest) = some (r, x.chars, rest) ∧
    r.kind = x.kind ∧ r.keep = x.visible

theorem cutOff_of_takes {x : Lexeme} {rest : List Char} (i : Nat) {r : Rule Kind} {p : Pattern}
    {c : Char} {cs : List Char} (split : rules = rules.take i ++ r :: rules.drop (i + 1))
    (pattern : r.pattern = .seq .textStart p) (kind : r.kind = x.kind)
    (keep : r.keep = x.visible) (chars : x.chars = c :: cs)
    (takes : Takes p.run x.chars rest) (shuns : (rules.take i).all (·.pattern.shuns c)) :
    CutOff x rest := by
  refine ⟨r, ?_, kind, keep⟩
  rw [chars] at takes ⊢
  rw [split]
  exact Rule.first?_of_takes _ _ pattern takes (List.all_eq_true.1 shuns)

theorem not_contains_of_break {set : CharSet} (h : breakChars.all fun c => !set.contains c)
    {rest : List Char} (ends : ∀ c ∈ rest.head?, c ∈ breakChars) :
    ∀ c ∈ rest.head?, set.contains c = false := by
  intro c hc
  have := List.all_eq_true.1 h c (ends c hc)
  simpa using this

theorem cutOff_mark (m : Mark) (rest : List Char) : CutOff (.mark m) rest := by
  have takes : Takes (Pattern.run (.one (.single m.char))) [m.char] rest :=
    Pattern.takes_one (CharSet.contains_single.2 rfl)
  cases m with
  | openParen => exact cutOff_of_takes 9 rfl rfl rfl rfl rfl takes (by decide)
  | closeParen => exact cutOff_of_takes 10 rfl rfl rfl rfl rfl takes (by decide)
  | colon => exact cutOff_of_takes 11 rfl rfl rfl rfl rfl takes (by decide)
  | comma => exact cutOff_of_takes 8 rfl rfl rfl rfl rfl takes (by decide)
  | semicolon => exact cutOff_of_takes 7 rfl rfl rfl rfl rfl takes (by decide)
  | pipe => exact cutOff_of_takes 6 rfl rfl rfl rfl rfl takes (by decide)
  | star => exact cutOff_of_takes 12 rfl rfl rfl rfl rfl takes (by decide)

theorem cutOff_blank {rest : List Char} (ends : Lexeme.blank.Ends rest) : CutOff .blank rest := by
  have member : ∀ c ∈ [' '], CharSet.blank.contains c := List.forall_mem_singleton.2 (by decide)
  exact cutOff_of_takes 0 rfl rfl rfl rfl rfl
    (Pattern.takes_many1 member (List.cons_ne_nil _ _) ends) rfl

def bareOrEscaped : Pattern :=
  .either (.one (.complement (.ofList ['"', '\\'])))
    (.seq (.one (.single '\\')) (.one (.complement (.single '\n'))))

theorem takes_bareOrEscaped {xs : List Char} (h : bareOrEscaped.Spans xs) :
    xs ≠ [] ∧ ∀ rest, Takes bareOrEscaped.run xs rest := by
  rcases h with ⟨c, rfl, bare⟩ | ⟨ys, zs, rfl, ⟨c, rfl, sign⟩, d, rfl, other⟩
  · exact ⟨List.cons_ne_nil _ _, fun rest => (Pattern.takes_one bare).left⟩
  · obtain rfl := CharSet.contains_single.1 sign
    refine ⟨List.cons_ne_nil _ _, fun rest => ?_⟩
    have both : Takes (Pattern.run (.seq (.one (.single '\\')) (.one (.complement (.single '\n')))))
        (['\\'] ++ [d]) rest := (Pattern.takes_one sign).seq (Pattern.takes_one other)
    exact both.right (Pattern.refuses_of_shuns (by decide))

theorem takes_string {xs : List Char} (h : stringPattern.Spans xs) :
    ∃ cs, xs = '"' :: cs ∧ ∀ rest, Takes stringPattern.run xs rest := by
  obtain ⟨_, _, rfl, ⟨c, rfl, opening⟩, _, _, rfl, ⟨inner, rfl, -, each⟩, d, rfl, closing⟩ := h
  obtain rfl := CharSet.contains_single.1 opening
  obtain rfl := CharSet.contains_single.1 closing
  refine ⟨_, rfl, fun rest => (Pattern.takes_one opening).seq (.seq ?_ (Pattern.takes_one closing))⟩
  exact Pattern.takes_loop (Pattern.refuses_of_shuns (by decide)) inner fun xs hxs =>
    takes_bareOrEscaped (each xs hxs)

theorem spans_literal (text : String) : stringPattern.Spans (Lexeme.literal text).chars := by
  have quote : (Pattern.one (.single '"')).Spans ['"'] := ⟨'"', rfl, CharSet.contains_single.2 rfl⟩
  refine ⟨['"'], _, rfl, quote, escaped text.toList, ['"'], rfl,
    ⟨_, List.flatMap_def, Nat.zero_le _, fun xs hxs => ?_⟩, quote⟩
  obtain ⟨c, -, rfl⟩ := List.mem_map.1 hxs
  split
  · rename_i special
    have other : (CharSet.complement (.single '\n')).contains c := by
      rcases special with rfl | rfl <;> decide
    exact .inr ⟨['\\'], [c], rfl, ⟨'\\', rfl, CharSet.contains_single.2 rfl⟩, c, rfl, other⟩
  · rename_i plain
    have bare : (CharSet.complement (.ofList ['"', '\\'])).contains c := by
      rw [CharSet.contains, Bool.not_eq_true', ← Bool.not_eq_true, Pattern.CharSet.contains_ofList]
      simpa using plain
    exact .inl ⟨c, rfl, bare⟩

theorem cutOff_literal (text : String) (rest : List Char) : CutOff (.literal text) rest := by
  obtain ⟨_, -, takes⟩ := takes_string (spans_literal text)
  exact cutOff_of_takes 1 rfl rfl rfl rfl rfl (takes rest) (by decide)

theorem cutOff_number {n : Nat} {rest : List Char} (ends : (Lexeme.number n).Ends rest) :
    CutOff (.number n) rest := by
  have digits : ∀ c ∈ n.repr.toList, c ∈ "0123456789".toList := fun c hc =>
    mem_digits (isDigit_of_mem_repr hc)
  have members : ∀ c ∈ n.repr.toList, (CharSet.range '0' '9').contains c := by
    have all : "0123456789".toList.all (CharSet.range '0' '9').contains := by decide
    exact fun c hc => List.all_eq_true.1 all c (digits c hc)
  have nonempty := repr_ne_nil n
  have stops : ∀ c ∈ rest.head?, (CharSet.range '0' '9').contains c = false :=
    not_contains_of_break (by decide) ends
  have takes := Pattern.takes_many1 members nonempty stops
  have shuns : "0123456789".toList.all fun c => (rules.take 2).all (·.pattern.shuns c) := by
    decide
  cases chars : n.repr.toList with
  | nil => exact absurd chars nonempty
  | cons c cs =>
    have first : c ∈ n.repr.toList := by rw [chars]; exact List.mem_cons_self
    exact cutOff_of_takes 2 rfl rfl rfl rfl chars takes
      (List.all_eq_true.1 shuns c (digits c first))

theorem cutOff_tag {name : String} {rest : List Char} (valid : isValidTag name)
    (ends : (Lexeme.tag name).Ends rest) : CutOff (.tag name) rest := by
  obtain ⟨nonempty, chars⟩ := valid_chars valid
  have members : ∀ c ∈ name.toList, (CharSet.complement tagEnd).contains c := fun c hc => by
    rw [CharSet.contains, chars c hc]; rfl
  have stops : ∀ c ∈ rest.head?, (CharSet.complement tagEnd).contains c = false :=
    not_contains_of_break (by decide) ends
  have takes : Takes (Pattern.run (.seq (.one (.single '#')) (.many1 (.complement tagEnd))))
      (['#'] ++ name.toList) rest :=
    (Pattern.takes_one (CharSet.contains_single.2 rfl)).seq
      (Pattern.takes_many1 members nonempty stops)
  exact cutOff_of_takes 14 rfl rfl rfl rfl rfl takes (by decide)

def isBareWord : List Char → Bool
  | [] => false
  | c :: cs => identStart.contains c && cs.all identPart.contains &&
      !CharSet.blank.contains c && (rules.take 15).all (·.pattern.shuns c)

theorem keyword_chars {word : String} (listed : word ∈ keywords) :
    ∃ c cs, word.toList = c :: cs ∧ identStart.contains c ∧ (∀ d ∈ cs, identPart.contains d) ∧
      CharSet.blank.contains c = false ∧ (rules.take 15).all (·.pattern.shuns c) := by
  have all : keywords.all fun word => isBareWord word.toList := by decide
  have spelled := List.all_eq_true.1 all word listed
  cases chars : word.toList with
  | nil => simp [chars, isBareWord] at spelled
  | cons c cs =>
    simp only [chars, isBareWord, Bool.and_eq_true, Bool.not_eq_true'] at spelled
    obtain ⟨⟨⟨start, part⟩, visible⟩, shuns⟩ := spelled
    exact ⟨c, cs, rfl, start, List.all_eq_true.1 part, visible, shuns⟩

theorem cutOff_word {word : String} {rest : List Char} (listed : word ∈ keywords)
    (ends : (Lexeme.word word).Ends rest) : CutOff (.word word) rest := by
  obtain ⟨c, cs, chars, start, part, -, shuns⟩ := keyword_chars listed
  have stops : ∀ c ∈ rest.head?, identPart.contains c = false :=
    not_contains_of_break (by decide +kernel) ends
  have takes : Takes (Pattern.run (.seq (.one identStart) (.many identPart))) ([c] ++ cs) rest :=
    (Pattern.takes_one start).seq (Pattern.takes_many part stops)
  have takes : Takes (Pattern.run (.seq (.one identStart) (.many identPart)))
      (Lexeme.word word).chars rest := by
    rw [Lexeme.chars, chars]
    exact takes
  exact cutOff_of_takes 15 rfl rfl rfl rfl chars takes shuns

def comparisons : List String := ["!=", "<=", ">=", "==", "=", "<", ">"]

theorem takes_comparison {s : String} {rest : List Char} (listed : s ∈ comparisons)
    (apart : ¬ ['='] <+: rest) : Takes comparePattern.run s.toList rest := by
  simp only [comparisons, List.mem_cons, List.not_mem_nil, or_false] at listed
  rcases listed with rfl | rfl | rfl | rfl | rfl | rfl | rfl
  · exact Pattern.takes_literals [] (by simp)
  · exact Pattern.takes_literals ["!="] (by simp)
  · exact Pattern.takes_literals ["!=", "<="] (by simp)
  · exact Pattern.takes_literals ["!=", "<=", ">="] (by simp)
  · exact Pattern.takes_literals ["!=", "<=", ">=", "=="] (by simp [apart])
  · exact Pattern.takes_literals ["!=", "<=", ">=", "==", "="] (by simp [apart])
  · exact Pattern.takes_last_literal (by simp [apart])

theorem comparison_chars {s : String} (listed : s ∈ comparisons) :
    ∃ c cs, s.toList = c :: cs ∧ CharSet.blank.contains c = false ∧
      (rules.take 3).all (·.pattern.shuns c) := by
  simp only [comparisons, List.mem_cons, List.not_mem_nil, or_false] at listed
  rcases listed with rfl | rfl | rfl | rfl | rfl | rfl | rfl
  all_goals exact ⟨_, _, rfl, by decide, by decide⟩

theorem cutOff_compare {op : Comparison} {rest : List Char}
    (ends : (Lexeme.compare op).Ends rest) : CutOff (.compare op) rest := by
  have apart : ¬ ['='] <+: rest := by
    rintro ⟨others, rfl⟩
    exact absurd (ends '=' rfl) (by decide)
  have listed : op.symbol ∈ comparisons := by cases op <;> decide
  obtain ⟨c, cs, chars, -, shuns⟩ := comparison_chars listed
  exact cutOff_of_takes 3 rfl rfl rfl rfl chars (takes_comparison listed apart) shuns

theorem cutOff_of_proper {x : Lexeme} {rest : List Char} (proper : x.Proper) (ends : x.Ends rest) :
    CutOff x rest := by
  cases x with
  | blank => exact cutOff_blank ends
  | word w => exact cutOff_word proper ends
  | number n => exact cutOff_number ends
  | literal text => exact cutOff_literal text rest
  | tag name => exact cutOff_tag proper ends
  | compare op => exact cutOff_compare ends
  | mark m => exact cutOff_mark m rest

theorem not_blank_head {x : Lexeme} (proper : x.Proper) (visible : x.visible) :
    ∃ c cs, x.chars = c :: cs ∧ CharSet.blank.contains c = false := by
  cases x with
  | blank => cases visible
  | word word =>
    obtain ⟨c, cs, chars, -, -, visible, -⟩ := keyword_chars proper
    exact ⟨c, cs, chars, visible⟩
  | number n =>
    have all : "0123456789".toList.all fun c => !CharSet.blank.contains c := by decide
    have nonempty := repr_ne_nil n
    obtain ⟨c, cs, chars⟩ := List.exists_cons_of_ne_nil nonempty
    have digit : c ∈ n.repr.toList := by rw [chars]; exact List.mem_cons_self
    have visible := List.all_eq_true.1 all c (mem_digits (isDigit_of_mem_repr digit))
    rw [Bool.not_eq_true'] at visible
    exact ⟨c, cs, chars, visible⟩
  | literal text => exact ⟨_, _, rfl, by decide⟩
  | tag name => exact ⟨_, _, rfl, by decide⟩
  | compare op => cases op <;> exact ⟨_, _, rfl, by decide⟩
  | mark m => cases m <;> exact ⟨_, _, rfl, by decide⟩

theorem Lexeme.eq_blank_or_visible (x : Lexeme) : x = .blank ∨ x.visible := by
  cases x with
  | blank => exact .inl rfl
  | _ => exact .inr rfl

theorem chars_ne_nil {x : Lexeme} (proper : x.Proper) : x.chars ≠ [] := by
  rcases x.eq_blank_or_visible with rfl | visible
  · exact List.cons_ne_nil _ _
  · obtain ⟨c, cs, chars, -⟩ := not_blank_head proper visible
    rw [chars]
    exact List.cons_ne_nil _ _

theorem ends_nil (x : Lexeme) : x.Ends [] := by
  cases x <;> first | trivial | (intro c hc; cases hc)

theorem ends_of_joins {x y : Lexeme} {rest : List Char} (proper : y.Proper) (h : x.joins y) :
    x.Ends (y.chars ++ rest) := by
  have broken (h : y.breaks) : ∀ c ∈ (y.chars ++ rest).head?, c ∈ breakChars := by
    cases y with
    | blank => rintro c ⟨⟩; decide
    | mark m => cases m <;> first | (rintro c ⟨⟩; decide) | cases h
    | _ => cases h
  cases x with
  | blank =>
    obtain ⟨c, cs, chars, visible⟩ := not_blank_head proper h
    rw [chars]
    rintro d ⟨⟩
    exact visible
  | literal text => trivial
  | mark m => trivial
  | word word => exact broken h
  | number n => exact broken h
  | tag name => exact broken h
  | compare op => exact broken h

/-- The leaves spell the lexemes, blanks apart. -/
inductive Spells : List Lexeme → List (Leaf Kind) → Prop where
  | nil : Spells [] []
  | blank {xs : List Lexeme} {ls : List (Leaf Kind)} (others : Spells xs ls) :
      Spells (.blank :: xs) ls
  | leaf {x : Lexeme} {xs : List Lexeme} {l : Leaf Kind} {ls : List (Leaf Kind)}
      (terminal : x.terminal? = some l.terminal)
      (text : l.token.text = String.ofList x.chars) (others : Spells xs ls) :
      Spells (x :: xs) (l :: ls)

theorem exists_leaf_of_lexeme {x : Lexeme} (visible : x.visible) {t : Token Kind}
    (kind : t.kind = x.kind) (text : t.text = String.ofList x.chars) :
    ∃ l : Leaf Kind, l.token = t ∧ x.terminal? = some l.terminal := by
  have fits : ∀ T, x.terminal? = some T → T.fits t = true := by
    intro T hT
    cases x with
    | blank => cases hT
    | word word =>
      cases hT
      simp [Terminal.fits, kind, Lexeme.kind, text, Lexeme.chars, sameIgnoringCase]
    | _ => cases hT; simp [Terminal.fits, kind, Lexeme.kind]
  have some : ∃ T, x.terminal? = some T := by
    cases x with
    | blank => cases visible
    | _ => exact ⟨_, rfl⟩
  obtain ⟨T, hT⟩ := some
  exact ⟨⟨T, t, fits T hT⟩, rfl, hT⟩

theorem spells_scan (xs : List Lexeme) (proper : ∀ x ∈ xs, x.Proper)
    (chain : xs.IsChain fun x y => x.joins y) (n : Nat) (m : Text.Mark)
    (enough : (xs.flatMap Lexeme.chars).length ≤ n) :
    ∃ ls p, Rule.scan rules n m (xs.flatMap Lexeme.chars) = ⟨ls.map Leaf.token, .finished p⟩ ∧
      Spells xs ls := by
  induction xs generalizing n m with
  | nil => exact ⟨[], m.position, by cases n <;> rfl, .nil⟩
  | cons x others ih =>
    obtain ⟨first, proper⟩ := List.forall_mem_cons.1 proper
    have ends : x.Ends (others.flatMap Lexeme.chars) := by
      cases others with
      | nil => exact ends_nil x
      | cons y others =>
        exact ends_of_joins (List.forall_mem_cons.1 proper).1 (List.isChain_cons_cons.1 chain).1
    obtain ⟨r, found, kind, keep⟩ := cutOff_of_proper first ends
    have nonempty := List.length_pos_iff.2 (chars_ne_nil first)
    rw [List.flatMap_cons, List.length_append] at enough
    obtain ⟨n, rfl⟩ := Nat.exists_eq_add_one.2 (show 0 < n by omega)
    obtain ⟨ls, p, scanned, spelled⟩ := ih proper chain.of_cons n (m.advance x.chars) (by omega)
    rw [List.flatMap_cons, Rule.scan_of_first? found (by simp [chars_ne_nil first]), scanned, keep]
    rcases x.eq_blank_or_visible with rfl | visible
    · exact ⟨ls, p, rfl, .blank spelled⟩
    · obtain ⟨l, token, terminal⟩ :=
        exists_leaf_of_lexeme visible (t := r.token m x.chars) kind rfl
      have text : l.token.text = String.ofList x.chars := by rw [token]; rfl
      refine ⟨l :: ls, p, ?_, .leaf terminal text spelled⟩
      rw [if_pos visible, List.map_cons, token]

end Wordhoard.Query
