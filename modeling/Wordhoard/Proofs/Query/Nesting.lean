import Wordhoard.Proofs.Query.Neat
import Wordhoard.Proofs.Query.Print
import Wordhoard.Query.Nesting

/-! The bounds on the shape of a query while printed lexemes go by. -/
namespace Wordhoard.Query

open Grammar (Leaf Terminal)

variable {xs ys : List Lexeme} {ls ms : List (Leaf Kind)} {x : Lexeme} {l l' l'' : Levels}

theorem Spells.of_append (h : Spells (xs ++ ys) ls) :
    ∃ as bs, ls = as ++ bs ∧ Spells xs as ∧ Spells ys bs := by
  induction xs generalizing ls with
  | nil => exact ⟨[], ls, rfl, .nil, h⟩
  | cons x others ih =>
    cases h with
    | blank others =>
      obtain ⟨as, bs, rfl, spelled, rest⟩ := ih others
      exact ⟨as, bs, rfl, .blank spelled, rest⟩
    | @leaf _ _ l _ terminal text others =>
      obtain ⟨as, bs, rfl, spelled, rest⟩ := ih others
      exact ⟨l :: as, bs, rfl, .leaf terminal text spelled, rest⟩

def Levels.read (l : Levels) : Lexeme → Levels
  | .blank => l
  | .word word =>
    if word = "not" then { l with negations := l.negations + 1 }
    else if word = "and" ∨ word = "or" then { l with operators := l.operators + 1, negations := 0 }
    else { l with negations := 0 }
  | .mark .openParen =>
    { l with groups := (l.negations + 1) :: l.groups, depth := l.depth + (l.negations + 1),
             negations := 0 }
  | .mark .closeParen =>
    match l.groups with
    | levels :: groups => { l with groups, depth := l.depth - levels, negations := 0 }
    | [] => { l with negations := 0 }
  | _ => { l with negations := 0 }

theorem isWord_iff {t : Token Kind} {word other : String} (listed : word ∈ keywords)
    (listed' : other ∈ keywords) (kind : t.kind = .ident) (text : t.text = word) :
    isWord t other ↔ word = other := by
  rw [isWord, kind, text]
  constructor
  · intro h
    rw [Bool.and_eq_true] at h
    exact eq_of_sameIgnoringCase listed listed' h.2
  · rintro rfl
    simp [sameIgnoringCase]

theorem next_of_kind {t : Token Kind} (kind : t.kind ∉ [.ident, .bang, .openParen, .closeParen, .amp]) :
    l.next t = { l with negations := 0 } := by
  simp only [List.mem_cons, List.not_mem_nil, or_false, not_or] at kind
  simp [Levels.next, isWord, kind]

theorem next_leaf {leaf : Leaf Kind} (proper : x.Proper)
    (terminal : x.terminal? = some leaf.terminal)
    (text : leaf.token.text = String.ofList x.chars) : l.next leaf.token = l.read x := by
  have fits := leaf.fits
  have of_kind {kind : Kind} (same : leaf.terminal = .kind kind) : leaf.token.kind = kind := by
    rw [same] at fits
    exact of_decide_eq_true fits
  cases x with
  | blank => cases terminal
  | word word =>
    rw [← Option.some.inj terminal] at fits
    simp only [Terminal.fits, Bool.and_eq_true, decide_eq_true_eq] at fits
    have text : leaf.token.text = word := by rw [text, Lexeme.chars, String.ofList_toList]
    have is (other : String) (listed : other ∈ keywords) :
        isWord leaf.token other ↔ word = other := isWord_iff proper listed fits.1 text
    simp only [Levels.next, Levels.read, fits.1, is "not" (by decide), is "and" (by decide),
      is "or" (by decide), Bool.or_eq_true]
    simp
  | number _ | literal _ | tag _ | compare _ =>
    have kind := of_kind (Option.some.inj terminal).symm
    exact next_of_kind (by rw [kind]; decide)
  | mark m =>
    have kind := of_kind (Option.some.inj terminal).symm
    cases m with
    | openParen => simp [Levels.next, Levels.read, kind, Mark.kind, isWord]
    | closeParen =>
      obtain ⟨groups, depth, negations, operators⟩ := l
      cases groups <;> simp [Levels.next, Levels.read, kind, Mark.kind, isWord]
    | _ => exact next_of_kind (by rw [kind]; decide)

def Levels.Within (l : Levels) : Prop :=
  l.operators ≤ maxOperators ∧ l.depth + l.negations ≤ maxNesting

/-- The lexemes lead from levels to levels, and no bound is passed on the way. -/
def Goes (l : Levels) (xs : List Lexeme) (l' : Levels) : Prop :=
  ∀ ls, Spells xs ls → ∀ rest, excess? l (ls.map Leaf.token ++ rest) = excess? l' rest

theorem Goes.append (h : Goes l xs l') (h' : Goes l' ys l'') : Goes l (xs ++ ys) l'' := by
  intro ls spelled rest
  obtain ⟨as, bs, rfl, first, second⟩ := spelled.of_append
  rw [List.map_append, List.append_assoc, h as first, h' bs second]

theorem goes_nil : Goes l [] l := by
  rintro _ ⟨⟩ rest
  rfl

theorem Goes.blank (h : Goes l xs l') : Goes l (.blank :: xs) l' := by
  intro ls spelled rest
  cases spelled with
  | blank others => exact h ls others rest
  | leaf terminal text others => cases terminal

theorem Goes.cons (h : Goes (l.read x) xs l') (proper : x.Proper) (visible : x.visible)
    (within : (l.read x).Within) : Goes l (x :: xs) l' := by
  intro ls spelled rest
  cases spelled with
  | blank others => cases visible
  | @leaf _ _ leaf ls terminal text others =>
    obtain ⟨operators, levels⟩ := within
    rw [List.map_cons, List.cons_append, excess?, next_leaf proper terminal text]
    rw [if_neg (Nat.not_lt.2 operators), if_neg (Nat.not_lt.2 levels)]
    exact h ls others rest

theorem Goes.mark {m : Mark} (within : (l.read (.mark m)).Within)
    (h : Goes (l.read (.mark m)) xs l') : Goes l (.mark m :: xs) l' :=
  h.cons trivial rfl within

theorem Goes.word {word : String} (listed : word ∈ keywords)
    (within : (l.read (.word word)).Within) (h : Goes (l.read (.word word)) xs l') :
    Goes l (.word word :: xs) l' :=
  h.cons listed rfl within

/-- The lexeme opens no level, closes none and is no operator. -/
def Lexeme.calm : Lexeme → Bool
  | word text => text ≠ "not" ∧ text ≠ "and" ∧ text ≠ "or"
  | mark m => m ≠ .openParen ∧ m ≠ .closeParen
  | _ => true

def Levels.past (l : Levels) (operators : Nat) : Levels :=
  { l with operators := l.operators + operators, negations := 0 }

theorem Levels.read_calm (calm : x.calm) (visible : x.visible) : l.read x = l.past 0 := by
  cases x with
  | blank => cases visible
  | word text =>
    simp only [Lexeme.calm, decide_eq_true_eq] at calm
    simp [read, past, calm]
  | mark m => cases m <;> first | rfl | cases calm
  | _ => rfl

theorem Levels.Within.past (h : l.Within) : (l.past 0).Within :=
  ⟨h.1, Nat.le_trans (Nat.le_add_right _ _) h.2⟩

theorem goes_still (within : l.Within) (still : l.past 0 = l) (proper : ∀ x ∈ xs, x.Proper)
    (calm : ∀ x ∈ xs, x.calm) : Goes l xs l := by
  induction xs with
  | nil => exact goes_nil
  | cons x others ih =>
    obtain ⟨first, proper'⟩ := List.forall_mem_cons.1 proper
    obtain ⟨quiet, calm'⟩ := List.forall_mem_cons.1 calm
    have rest := ih proper' calm'
    rcases x.eq_blank_or_visible with rfl | visible
    · exact rest.blank
    · have read : l.read x = l := by rw [Levels.read_calm quiet visible, still]
      apply Goes.cons _ first visible
      · rwa [read]
      · rwa [read]

/-- Calm lexemes only end a chain of negations. -/
theorem goes_calm {first : Lexeme} {others : List Lexeme} (within : l.Within)
    (visible : first.visible) (proper : ∀ x ∈ first :: others, x.Proper)
    (calm : ∀ x ∈ first :: others, x.calm) : Goes l (first :: others) (l.past 0) := by
  have read := Levels.read_calm (l := l) (List.forall_mem_cons.1 calm).1 visible
  apply Goes.cons _ (List.forall_mem_cons.1 proper).1 visible
  · rw [read]
    exact within.past
  · rw [read]
    exact goes_still within.past rfl (List.forall_mem_cons.1 proper).2
      (List.forall_mem_cons.1 calm).2

theorem goes_enclosed {c : Condition} {place : Level}
    (inner : ∀ l : Levels, l.operators + c.operators ≤ maxOperators →
      l.depth + l.negations + c.levels ≤ maxNesting → Goes l c.lexemes (l.past c.operators))
    (operators : l.operators + c.operators ≤ maxOperators)
    (levels : l.depth + l.negations + ((c.loose place).toNat + c.levels) ≤ maxNesting) :
    Goes l (enclosed (c.loose place) c.lexemes) (l.past c.operators) := by
  cases loose : c.loose place with
  | false =>
    rw [loose] at levels
    exact inner l operators (by simpa using levels)
  | true =>
    rw [loose, Bool.toNat_true] at levels
    have opened : (l.read (.mark .openParen)).Within := by
      constructor
      · exact Nat.le_trans (Nat.le_add_right _ _) operators
      · simp only [Levels.read]
        omega
    have inside := inner (l.read (.mark .openParen)) operators (by simp only [Levels.read]; omega)
    have closed : ((l.read (.mark .openParen)).past c.operators).read (.mark .closeParen) =
        l.past c.operators := by
      simp [Levels.read, Levels.past]
    have within : (l.past c.operators).Within := by
      constructor
      · exact operators
      · simp only [Levels.past]
        omega
    refine Goes.mark opened (inside.append ?_)
    apply Goes.mark
    · rwa [closed]
    · rw [closed]
      exact goes_nil

theorem goes_predicate {c : Condition} (simple : c.level = .primary) (within : l.Within) :
    Goes l c.lexemes (l.past 0) := by
  have proper := (tidy_condition c).proper
  cases c with
  | all => exact goes_calm within rfl proper (by decide)
  | reviewed => exact goes_calm within rfl proper (by decide)
  | hasTag tag => exact goes_calm within rfl proper (by simp [Lexeme.calm])
  | contentContains needle => exact goes_calm within rfl proper (by simp [Lexeme.calm])
  | descriptionContains needle => exact goes_calm within rfl proper (by simp [Lexeme.calm])
  | textContains needle => exact goes_calm within rfl proper (by simp [Lexeme.calm])
  | compare field op bound =>
    refine goes_calm within rfl proper ?_
    cases field <;> simp [Lexeme.calm, Field.name]
  | and left right => cases simple
  | or left right => cases simple
  | not inner => cases simple

theorem goes_operator {word : String} {a b : Nat} (operator : word = "and" ∨ word = "or")
    (first : Goes l xs (l.past a)) (second : Goes (l.past (a + 1)) ys ((l.past (a + 1)).past b))
    (operators : l.operators + (a + b + 1) ≤ maxOperators)
    (levels : l.depth + l.negations ≤ maxNesting) :
    Goes l (xs ++ .blank :: .word word :: .blank :: ys) (l.past (a + b + 1)) := by
  have listed : word ∈ keywords := by
    rcases operator with rfl | rfl <;> decide
  have read : (l.past a).read (.word word) = l.past (a + 1) := by
    rcases operator with rfl | rfl <;> simp [Levels.read, Levels.past, Nat.add_assoc]
  have past : (l.past (a + 1)).past b = l.past (a + b + 1) := by
    simp only [Levels.past, Levels.mk.injEq, true_and]
    omega
  have within : (l.past (a + 1)).Within := by
    constructor
    · simp only [Levels.past]
      omega
    · simp only [Levels.past]
      omega
  refine first.append (Goes.blank (Goes.word listed ?_ (Goes.blank ?_)))
  · rwa [read]
  · rw [read, ← past]
    exact second

theorem goes_condition (c : Condition) (l : Levels)
    (operators : l.operators + c.operators ≤ maxOperators)
    (levels : l.depth + l.negations + c.levels ≤ maxNesting) :
    Goes l c.lexemes (l.past c.operators) := by
  induction c generalizing l with
  | and left right ihl ihr =>
    simp only [Condition.operators, Condition.levels] at operators levels
    apply goes_operator (.inl rfl)
    · exact goes_enclosed ihl (by omega) (by omega)
    · apply goes_enclosed ihr
      · simp only [Levels.past]
        omega
      · simp only [Levels.past]
        omega
    · exact operators
    · omega
  | or left right ihl ihr =>
    simp only [Condition.operators, Condition.levels] at operators levels
    apply goes_operator (.inr rfl)
    · exact ihl l (by omega) (by omega)
    · apply goes_enclosed ihr
      · simp only [Levels.past]
        omega
      · simp only [Levels.past]
        omega
    · exact operators
    · omega
  | not inner ih =>
    simp only [Condition.operators, Condition.levels] at operators levels
    have read : l.read (.word "not") = { l with negations := l.negations + 1 } := by
      simp [Levels.read]
    have within : (l.read (.word "not")).Within := by
      rw [read]
      constructor
      · exact Nat.le_trans (Nat.le_add_right _ _) operators
      · dsimp only
        omega
    refine Goes.word (by decide) within (Goes.blank ?_)
    rw [read]
    apply goes_enclosed (l := { l with negations := l.negations + 1 }) ih operators
    dsimp only
    omega
  | _ => exact goes_predicate rfl ⟨operators, levels⟩

/-- A part that is let pass outside of all parentheses, whatever operators stand before it. -/
def Passable (xs : List Lexeme) : Prop :=
  ∀ n ≤ maxOperators, Goes { operators := n } xs { operators := n }

theorem Passable.append (h : Passable xs) (h' : Passable ys) : Passable (xs ++ ys) :=
  fun n operators => (h n operators).append (h' n operators)

theorem within_of_operators {n : Nat} (operators : n ≤ maxOperators) :
    Levels.Within { operators := n } :=
  ⟨operators, Nat.zero_le _⟩

theorem passable_of_calm (proper : ∀ x ∈ xs, x.Proper) (calm : ∀ x ∈ xs, x.calm) : Passable xs :=
  fun _ operators => goes_still (within_of_operators operators) rfl proper calm

theorem passable_further {α : Type} {before : List Lexeme} {lexemes : α → List Lexeme}
    {items : List α} (separator : Passable before)
    (each : ∀ item ∈ items, Passable (lexemes item)) : Passable (further before lexemes items) := by
  induction items with
  | nil => exact fun _ _ => goes_nil
  | cons item others ih =>
    obtain ⟨first, others⟩ := List.forall_mem_cons.1 each
    have spaced : Passable (.blank :: lexemes item) := fun n operators => (first n operators).blank
    have step := (separator.append spaced).append (ih others)
    simpa [further] using step

theorem passable_called {word : String} (proper : ∀ x ∈ called word xs, x.Proper)
    (quiet : (Lexeme.word word).calm) (calm : ∀ x ∈ xs, x.calm) : Passable (called word xs) := by
  intro n operators
  have listed : word ∈ keywords := proper _ List.mem_cons_self
  have inside : ∀ x ∈ xs, x.Proper := by
    intro x hx
    apply proper
    simp [called, enclosed, hx]
  have read : Levels.read { operators := n } (.word word) = { operators := n } :=
    Levels.read_calm quiet rfl
  have opened : Levels.Within { operators := n, groups := [1], depth := 1 } :=
    ⟨operators, by simp [maxNesting]⟩
  apply Goes.word listed
  · rw [read]
    exact within_of_operators operators
  · rw [read]
    refine Goes.mark opened ((goes_still opened rfl inside calm).append ?_)
    exact Goes.mark (within_of_operators operators) goes_nil

theorem passable_step (step : Step) : Passable step.lexemes := by
  have proper := (tidy_step step).proper
  cases step with
  | limit count => exact passable_called proper (by decide) (by simp [Lexeme.calm])
  | skip count => exact passable_called proper (by decide) (by simp [Lexeme.calm])
  | sort key direction =>
    refine passable_called proper (by decide) ?_
    cases key <;> cases direction <;> decide
  | shuffle => exact passable_of_calm proper (by decide)
  | reverse => exact passable_of_calm proper (by decide)

theorem calm_further {α : Type} {before : List Lexeme} {lexemes : α → List Lexeme} {items : List α}
    (separator : ∀ x ∈ before, x.calm) (each : ∀ item ∈ items, ∀ x ∈ lexemes item, x.calm) :
    ∀ x ∈ further before lexemes items, x.calm := by
  intro x hx
  obtain ⟨item, mem, hx⟩ := List.mem_flatMap.1 hx
  rcases List.mem_append.1 hx with hx | hx
  · exact separator x hx
  · rcases List.mem_cons.1 hx with rfl | hx
    · rfl
    · exact each item mem x hx

theorem calm_draft (content description : String) (tags : List String) :
    ∀ x ∈ draftLexemes content description tags, x.calm := by
  have tagged : ∀ x ∈ further [] (fun tag => [.tag tag]) tags, x.calm :=
    calm_further (List.forall_mem_nil _) fun tag _ => List.forall_mem_singleton.2 rfl
  simpa [draftLexemes, Lexeme.calm] using tagged

theorem calm_entry (d : Definition) : ∀ x ∈ entryLexemes d, x.calm := calm_draft _ _ _

theorem calm_insert (definitions : List Definition) : ∀ x ∈ (insert definitions).lexemes, x.calm := by
  cases definitions with
  | nil => decide
  | cons d others =>
    have entries : ∀ x ∈ entryLexemes d ++ further [.mark .semicolon] entryLexemes others, x.calm :=
      List.forall_mem_append.2 ⟨calm_entry d, calm_further (by decide) fun d _ => calm_entry d⟩
    exact List.forall_mem_cons.2 ⟨by decide, List.forall_mem_cons.2 ⟨rfl, entries⟩⟩

theorem excess?_of_goes (goes : Goes {} xs l') (spelled : Spells xs ls) :
    excess? {} (ls.map Leaf.token) = none := by
  have ended := goes ls spelled []
  rw [List.append_nil] at ended
  exact ended

theorem excess?_of_spells {q : Query} (h : Printable q) (spelled : Spells q.lexemes ls) :
    excess? {} (ls.map Leaf.token) = none := by
  have proper := (tidy_lexemes h).proper
  have passed : ∃ l', Goes {} q.lexemes l' := by
    cases q with
    | insert definitions =>
      exact ⟨_, passable_of_calm proper (calm_insert definitions) 0 (Nat.zero_le _)⟩
    | session => exact ⟨_, passable_of_calm proper (by decide) 0 (Nat.zero_le _)⟩
    | dump => exact ⟨_, passable_of_calm proper (by decide) 0 (Nat.zero_le _)⟩
    | filter c steps =>
      have operators : ({} : Levels).operators + c.operators ≤ maxOperators := by
        simpa using h.1.operators
      have levels : ({} : Levels).depth + ({} : Levels).negations + c.levels ≤ maxNesting := by
        simpa using h.1.levels
      have bar : Passable [.blank, .mark .pipe] :=
        passable_of_calm (by simp [Lexeme.Proper]) (by decide)
      have piped := passable_further bar fun step (_ : step ∈ steps) => passable_step step
      exact ⟨_, (goes_condition c {} operators levels).append (piped _ operators)⟩
  obtain ⟨l', goes⟩ := passed
  exact excess?_of_goes goes spelled

end Wordhoard.Query
