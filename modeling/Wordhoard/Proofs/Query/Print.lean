import Wordhoard.Proofs.Markup.RoundTrip
import Wordhoard.Proofs.Query.Lexeme

/-! Queries as texts. Strings stand in quotes, and an operand stands in parentheses just where the
binding of its operators or the lean of a chain asks for it. -/
namespace Wordhoard.Query

def Level.looseness : Level → Nat
  | primary => 0
  | unary => 1
  | conjunction => 2
  | expr => 3

def Condition.level : Condition → Level
  | or _ _ => .expr
  | and _ _ => .conjunction
  | not _ => .unary
  | _ => .primary

/-- The condition binds too loosely to stand bare in a place of the level. -/
def Condition.loose (c : Condition) (place : Level) : Bool :=
  place.looseness < c.level.looseness

def enclosed (needed : Bool) (xs : List Lexeme) : List Lexeme :=
  if needed then .mark .openParen :: xs ++ [.mark .closeParen] else xs

def Field.name : Field → String
  | reviews => "reviews"
  | days => "days"

def sought (word text : String) : List Lexeme := [.word word, .mark .colon, .literal text]

def Condition.lexemes : Condition → List Lexeme
  | all => [.mark .star]
  | reviewed => [.word "reviewed"]
  | hasTag tag => sought "tag" tag
  | contentContains needle => sought "word" needle
  | descriptionContains needle => sought "desc" needle
  | textContains needle => sought "text" needle
  | compare field op bound =>
    [.word field.name, .blank, .compare op, .blank, .number bound.toNat]
  | and left right =>
    enclosed (left.loose .conjunction) left.lexemes ++
      .blank :: .word "and" :: .blank :: enclosed (right.loose .unary) right.lexemes
  | or left right =>
    left.lexemes ++
      .blank :: .word "or" :: .blank :: enclosed (right.loose .conjunction) right.lexemes
  | not inner => .word "not" :: .blank :: enclosed (inner.loose .unary) inner.lexemes

def SortKey.name : SortKey → String
  | reviews => "reviews"
  | lastReviewed => "last"
  | word => "word"
  | description => "description"

def Direction.name : Direction → String
  | ascending => "asc"
  | descending => "desc"

def called (word : String) (xs : List Lexeme) : List Lexeme := .word word :: enclosed true xs

def Step.lexemes : Step → List Lexeme
  | limit count => called "limit" [.number count]
  | skip count => called "skip" [.number count]
  | sort key direction =>
    called "sort" [.word key.name, .mark .comma, .blank, .word direction.name]
  | shuffle => [.word "shuffle"]
  | reverse => [.word "reverse"]

def further {α : Type} (before : List Lexeme) (lexemes : α → List Lexeme) (xs : List α) :
    List Lexeme :=
  xs.flatMap fun x => before ++ .blank :: lexemes x

def draftLexemes (content description : String) (tags : List String) : List Lexeme :=
  .literal content :: .blank :: .literal description :: further [] (fun tag => [.tag tag]) tags

def entryLexemes (d : Definition) : List Lexeme :=
  .literal (Markup.render d.content) :: .blank :: .literal d.description ::
    further [] (fun tag => [.tag tag]) d.tags.toList

def lexemes : Query → List Lexeme
  | insert [] => [.word "insert"]
  | insert (d :: ds) =>
    .word "insert" :: .blank :: (entryLexemes d ++ further [.mark .semicolon] entryLexemes ds)
  | filter c steps => c.lexemes ++ further [.blank, .mark .pipe] Step.lexemes steps
  | session => [.word "session"]
  | dump => [.word "dump"]

def print (q : Query) : String := String.ofList (q.lexemes.flatMap Lexeme.chars)

def Condition.operators : Condition → Nat
  | and left right => left.operators + right.operators + 1
  | or left right => left.operators + right.operators + 1
  | not inner => inner.operators
  | _ => 0

/-- The most parentheses and negations that are open at once where the condition is printed. -/
def Condition.levels : Condition → Nat
  | and left right =>
    max ((left.loose .conjunction).toNat + left.levels) ((right.loose .unary).toNat + right.levels)
  | or left right => max left.levels ((right.loose .conjunction).toNat + right.levels)
  | not inner => 1 + ((inner.loose .unary).toNat + inner.levels)
  | _ => 0

def Condition.InRange : Condition → Prop
  | compare _ _ bound => 0 ≤ bound ∧ bound < Reader.boundLimit
  | and left right => left.InRange ∧ right.InRange
  | or left right => left.InRange ∧ right.InRange
  | not inner => inner.InRange
  | _ => True

def Step.InRange : Step → Prop
  | limit count => count < UInt64.size
  | skip count => count < UInt64.size
  | _ => True

/-- A definition that can be written: its content is canonical, and its tags are valid. -/
structure Writable (d : Definition) : Prop where
  content : Markup.Canonical d.content
  tags : ∀ tag ∈ d.tags.toList, isValidTag tag

structure Condition.Printable (c : Condition) : Prop where
  inRange : c.InRange
  operators : c.operators ≤ maxOperators
  levels : c.levels ≤ maxNesting

def Printable : Query → Prop
  | insert definitions => definitions ≠ [] ∧ ∀ d ∈ definitions, Writable d
  | filter c steps => c.Printable ∧ ∀ step ∈ steps, step.InRange
  | session => True
  | dump => True

theorem joins_blank {x : Lexeme} (visible : x.visible) : x.joins .blank := by
  cases x with
  | blank => cases visible
  | _ => rfl

theorem joins_mark {m : Mark} (h : m ≠ .star) (x : Lexeme) : x.joins (.mark m) := by
  cases x with
  | _ => simp [Lexeme.joins, Lexeme.breaks, Lexeme.visible, h]

/-- Proper lexemes that the scanner tells apart, between two that are no blanks. -/
structure Tidy (xs : List Lexeme) : Prop where
  proper : ∀ x ∈ xs, x.Proper
  chain : xs.IsChain fun x y => x.joins y
  first : ∃ x, xs.head? = some x ∧ x.visible
  last : ∃ x, xs.getLast? = some x ∧ x.visible

variable {xs ys : List Lexeme} {x : Lexeme}

theorem tidy_single (proper : x.Proper) (visible : x.visible) : Tidy [x] where
  proper := List.forall_mem_singleton.2 proper
  chain := .singleton x
  first := ⟨x, rfl, visible⟩
  last := ⟨x, rfl, visible⟩

theorem tidy_word {word : String} (listed : word ∈ keywords) : Tidy [.word word] :=
  tidy_single listed rfl

theorem tidy_mark (m : Mark) : Tidy [.mark m] := tidy_single trivial rfl

theorem tidy_number (n : Nat) : Tidy [.number n] := tidy_single trivial rfl

theorem tidy_literal (text : String) : Tidy [.literal text] := tidy_single trivial rfl

theorem Tidy.append (h : Tidy xs) (h' : Tidy ys)
    (meets : ∀ x ∈ xs.getLast?, ∀ y ∈ ys.head?, x.joins y) : Tidy (xs ++ ys) where
  proper x hx := (List.mem_append.1 hx).elim (h.proper x) (h'.proper x)
  chain := List.isChain_append.2 ⟨h.chain, h'.chain, meets⟩
  first := by
    obtain ⟨x, head, visible⟩ := h.first
    exact ⟨x, by rw [List.head?_append, head, Option.some_or], visible⟩
  last := by
    obtain ⟨x, last, visible⟩ := h'.last
    exact ⟨x, by rw [List.getLast?_append, last, Option.some_or], visible⟩

theorem Tidy.spaced (h : Tidy xs) (h' : Tidy ys) : Tidy (xs ++ .blank :: ys) where
  proper x hx := by
    rcases List.mem_append.1 hx with early | late
    · exact h.proper x early
    · rcases List.mem_cons.1 late with rfl | late
      · trivial
      · exact h'.proper x late
  chain := by
    refine List.isChain_append.2 ⟨h.chain, ?_, ?_⟩
    · obtain ⟨y, head, visible⟩ := h'.first
      obtain ⟨others, rfl⟩ := List.head?_eq_some_iff.1 head
      exact List.isChain_cons_cons.2 ⟨visible, h'.chain⟩
    · obtain ⟨x, last, visible⟩ := h.last
      intro y hy z hz
      rw [last] at hy
      cases hy
      cases hz
      exact joins_blank visible
  first := by
    obtain ⟨x, head, visible⟩ := h.first
    exact ⟨x, by rw [List.head?_append, head, Option.some_or], visible⟩
  last := by
    obtain ⟨y, last, visible⟩ := h'.last
    refine ⟨y, ?_, visible⟩
    rw [List.getLast?_append, List.getLast?_cons, last]
    rfl

theorem Tidy.before_mark {m : Mark} (h : Tidy xs) (other : m ≠ .star) (h' : Tidy (.mark m :: ys)) :
    Tidy (xs ++ .mark m :: ys) := by
  apply h.append h'
  rintro x - _ ⟨⟩
  exact joins_mark other x

theorem Tidy.behind_mark {m : Mark} (h : Tidy xs) : Tidy (.mark m :: xs) := by
  apply (tidy_mark m).append h
  rintro _ ⟨⟩ y -
  rfl

theorem Tidy.enclosed (h : Tidy xs) (needed : Bool) : Tidy (enclosed needed xs) := by
  cases needed with
  | false => exact h
  | true =>
    exact h.behind_mark.before_mark (by decide) (tidy_mark .closeParen)

theorem Tidy.further {α : Type} {before : List Lexeme} {lexemes : α → List Lexeme} {items : List α}
    (h : Tidy xs) (each : ∀ item ∈ items, Tidy (lexemes item))
    (behind : ∀ xs ys, Tidy xs → Tidy ys → Tidy (xs ++ (before ++ .blank :: ys))) :
    Tidy (xs ++ further before lexemes items) := by
  induction items generalizing xs with
  | nil => simpa [Query.further] using h
  | cons item others ih =>
    obtain ⟨first, each⟩ := List.forall_mem_cons.1 each
    have step := ih (behind xs _ h first) each
    simpa [Query.further] using step

theorem tidy_sought {word text : String} (listed : word ∈ keywords) : Tidy (sought word text) :=
  (tidy_word listed).before_mark (by decide) (tidy_literal text).behind_mark

theorem tidy_condition (c : Condition) : Tidy c.lexemes := by
  induction c with
  | all => exact tidy_mark .star
  | reviewed => exact tidy_word (by decide)
  | hasTag tag => exact tidy_sought (by decide)
  | contentContains needle => exact tidy_sought (by decide)
  | descriptionContains needle => exact tidy_sought (by decide)
  | textContains needle => exact tidy_sought (by decide)
  | compare field op bound =>
    have name : Tidy [.word field.name] := by
      cases field
      · exact tidy_word (by decide)
      · exact tidy_word (by decide)
    have symbol : Tidy [.compare op] := tidy_single trivial rfl
    exact name.spaced (symbol.spaced (tidy_number _))
  | and left right ihl ihr =>
    have operator : Tidy [.word "and"] := tidy_word (by decide)
    exact (ihl.enclosed _).spaced (operator.spaced (ihr.enclosed _))
  | or left right ihl ihr =>
    have operator : Tidy [.word "or"] := tidy_word (by decide)
    exact ihl.spaced (operator.spaced (ihr.enclosed _))
  | not inner ih =>
    have operator : Tidy [.word "not"] := tidy_word (by decide)
    exact operator.spaced (ih.enclosed _)

theorem tidy_called {word : String} (listed : word ∈ keywords) (h : Tidy xs) :
    Tidy (called word xs) :=
  (tidy_word listed).before_mark (by decide) (h.enclosed true)

theorem tidy_step (step : Step) : Tidy step.lexemes := by
  cases step with
  | limit count => exact tidy_called (by decide) (tidy_number count)
  | skip count => exact tidy_called (by decide) (tidy_number count)
  | sort key direction =>
    have key : Tidy [.word key.name] := by
      cases key <;> exact tidy_word (by decide)
    have direction : Tidy [.word direction.name] := by
      cases direction <;> exact tidy_word (by decide)
    have comma : Tidy (.mark .comma :: .blank :: [.word _]) := (tidy_mark .comma).spaced direction
    exact tidy_called (by decide) (key.before_mark (by decide) comma)
  | shuffle => exact tidy_word (by decide)
  | reverse => exact tidy_word (by decide)

theorem tidy_draft {tags : List String} (valid : ∀ tag ∈ tags, isValidTag tag)
    (content description : String) : Tidy (draftLexemes content description tags) := by
  have texts : Tidy [.literal content, .blank, .literal description] :=
    (tidy_literal _).spaced (tidy_literal _)
  refine texts.further (fun tag mem => ?_) (fun xs ys hx hy => hx.spaced hy)
  exact tidy_single (valid tag mem) rfl

theorem tidy_entry {d : Definition} (h : Writable d) : Tidy (entryLexemes d) :=
  tidy_draft h.tags _ _

theorem tidy_lexemes {q : Query} (h : Printable q) : Tidy q.lexemes := by
  cases q with
  | insert definitions =>
    cases definitions with
    | nil => exact absurd rfl h.1
    | cons d others =>
      obtain ⟨first, others⟩ := List.forall_mem_cons.1 h.2
      refine (tidy_word (by decide)).spaced ((tidy_entry first).further
        (fun d mem => tidy_entry (others d mem)) (fun xs ys hx hy => ?_))
      exact hx.before_mark (by decide) ((tidy_mark .semicolon).spaced hy)
  | filter c steps =>
    refine (tidy_condition c).further (fun step _ => tidy_step step) (fun xs ys hx hy => ?_)
    exact hx.spaced ((tidy_mark .pipe).spaced hy)
  | session => exact tidy_word (by decide)
  | dump => exact tidy_word (by decide)

end Wordhoard.Query
