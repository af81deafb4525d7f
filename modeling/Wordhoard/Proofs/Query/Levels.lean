import Wordhoard.Proofs.Query.Nesting

/-! What the tokens of a derivation do to the levels. The groups that a condition opens it closes,
every operator of it is counted, and so is a bare value that is spelled like an operator. -/
namespace Wordhoard.Query

open Grammar (Leaf Terminal)

variable {ts us : List (Token Kind)} {ls ms : List (Leaf Kind)} {leaf : Leaf Kind}
  {l l' l'' : Levels} {P Q : Levels → Prop}

def Levels.after (l : Levels) (ts : List (Token Kind)) : Levels := ts.foldl Levels.next l

@[simp] theorem Levels.after_nil : l.after [] = l := rfl

@[simp] theorem Levels.after_cons (t : Token Kind) : l.after (t :: ts) = (l.next t).after ts := rfl

@[simp] theorem Levels.after_append : l.after (ts ++ us) = (l.after ts).after us :=
  List.foldl_append

def Levels.Throughout (P : Levels → Prop) : Levels → List (Token Kind) → Prop
  | _, [] => True
  | l, t :: ts => P (l.next t) ∧ Throughout P (l.next t) ts

@[simp] theorem throughout_nil : l.Throughout P [] := trivial

@[simp] theorem throughout_cons {t : Token Kind} :
    l.Throughout P (t :: ts) ↔ P (l.next t) ∧ (l.next t).Throughout P ts := Iff.rfl

@[simp] theorem throughout_append :
    l.Throughout P (ts ++ us) ↔ l.Throughout P ts ∧ (l.after ts).Throughout P us := by
  induction ts generalizing l with
  | nil => simp
  | cons t ts ih => simp [ih, and_assoc]

theorem Levels.Throughout.imp (h : l.Throughout P ts) (imp : ∀ l, P l → Q l) :
    l.Throughout Q ts := by
  induction ts generalizing l with
  | nil => trivial
  | cons t ts ih => exact ⟨imp _ h.1, ih h.2⟩

theorem Levels.Throughout.after (h : l.Throughout P ts) (start : P l) : P (l.after ts) := by
  induction ts generalizing l with
  | nil => exact start
  | cons t ts ih => exact ih h.2 h.1

theorem excess?_eq_none_iff : excess? l ts = none ↔ l.Throughout Levels.Within ts := by
  induction ts generalizing l with
  | nil => simp [excess?]
  | cons t ts ih =>
    simp only [excess?, throughout_cons, Levels.Within]
    split
    · simp only [reduceCtorEq, false_iff]
      omega
    · split
      · simp only [reduceCtorEq, false_iff]
        omega
      · rw [ih]
        constructor
        · exact fun h => ⟨⟨by omega, by omega⟩, h⟩
        · exact fun h => h.2

theorem not_throughout_of_tooLong {p : Text.Position} (h : excess? l ts = some (.tooLong p)) :
    ¬ l.Throughout (·.operators ≤ maxOperators) ts := by
  induction ts generalizing l with
  | nil => cases h
  | cons t ts ih =>
    simp only [excess?] at h
    rintro ⟨first, others⟩
    split at h
    · omega
    · split at h
      · cases h
      · exact ih h others

theorem not_throughout_of_tooDeep {p : Text.Position} (h : excess? l ts = some (.tooDeep p)) :
    ¬ l.Throughout (fun l => l.depth + l.negations ≤ maxNesting) ts := by
  induction ts generalizing l with
  | nil => cases h
  | cons t ts ih =>
    simp only [excess?] at h
    rintro ⟨first, others⟩
    split at h
    · cases h
    · split at h
      · omega
      · exact ih h others

theorem operators_le_next (t : Token Kind) : l.operators ≤ (l.next t).operators := by
  simp only [Levels.next]
  split
  · exact Nat.le_refl _
  · split
    · exact Nat.le_refl _
    · split
      · split <;> exact Nat.le_refl _
      · split
        · exact Nat.le_succ _
        · exact Nat.le_refl _

theorem throughout_operators {n : Nat} (h : (l.after ts).operators ≤ n) :
    l.Throughout (·.operators ≤ n) ts := by
  have grows : ∀ (ts : List (Token Kind)) (l : Levels), l.operators ≤ (l.after ts).operators := by
    intro ts
    induction ts with
    | nil => exact fun _ => Nat.le_refl _
    | cons t ts ih => exact fun l => Nat.le_trans (operators_le_next t) (ih _)
  induction ts generalizing l with
  | nil => trivial
  | cons t ts ih => exact ⟨Nat.le_trans (grows ts _) h, ih h⟩

theorem kind_of_isKind {kind : Kind} (h : IsKind kind leaf) : leaf.token.kind = kind := by
  have fits := leaf.fits
  rw [h] at fits
  exact of_decide_eq_true fits

theorem isWord_of_named {word other : String} (listed : word ∈ keywords)
    (listed' : other ∈ keywords) (named : IsWord word leaf) :
    isWord leaf.token other ↔ word = other := by
  have fits := leaf.fits
  rw [named] at fits
  constructor
  · intro h
    rw [isWord, Bool.and_eq_true] at h
    rw [Terminal.fits, Bool.and_eq_true] at fits
    exact eq_of_sameIgnoringCase listed listed' (Grammar.sameIgnoringCase_trans fits.2 h.2)
  · rintro rfl
    exact fits

theorem kind_of_isWord {word : String} (named : IsWord word leaf) : leaf.token.kind = .ident := by
  have fits := leaf.fits
  rw [named, Terminal.fits, Bool.and_eq_true] at fits
  exact of_decide_eq_true fits.1

theorem next_negation (h : IsWord "not" leaf ∨ IsKind .bang leaf) :
    l.next leaf.token = { l with negations := l.negations + 1 } := by
  rcases h with named | bang
  · have is : isWord leaf.token "not" := (isWord_of_named (by decide) (by decide) named).2 rfl
    simp [Levels.next, is]
  · simp [Levels.next, kind_of_isKind bang]

theorem next_operator (h : IsWord "and" leaf ∨ IsKind .amp leaf ∨ IsWord "or" leaf) :
    l.next leaf.token = { l with operators := l.operators + 1, negations := 0 } := by
  have word {word : String} (named : IsWord word leaf) (joins : word = "and" ∨ word = "or") :
      l.next leaf.token = { l with operators := l.operators + 1, negations := 0 } := by
    have listed : word ∈ keywords := by rcases joins with rfl | rfl <;> decide
    have is (other : String) (listed' : other ∈ keywords) := isWord_of_named listed listed' named
    simp only [Levels.next, kind_of_isWord named, is "not" (by decide), is "and" (by decide),
      is "or" (by decide), Bool.or_eq_true]
    rcases joins with rfl | rfl <;> simp
  rcases h with named | amp | named
  · exact word named (.inl rfl)
  · simp [Levels.next, kind_of_isKind amp, isWord]
  · exact word named (.inr rfl)

theorem next_opened (h : IsKind .openParen leaf) :
    l.next leaf.token =
      { l with groups := (l.negations + 1) :: l.groups, depth := l.depth + (l.negations + 1),
               negations := 0 } := by
  simp [Levels.next, kind_of_isKind h, isWord]

theorem next_closed {levels : Nat} {groups : List Nat} (h : IsKind .closeParen leaf)
    (opened : l.groups = levels :: groups) :
    l.next leaf.token = { l with groups, depth := l.depth - levels, negations := 0 } := by
  simp [Levels.next, kind_of_isKind h, isWord, opened]

def Quiet (leaf : Leaf Kind) : Prop := ∀ l : Levels, l.next leaf.token = { l with negations := 0 }

theorem quiet_of_kind {kind : Kind} (h : IsKind kind leaf)
    (calm : kind ∉ [.ident, .bang, .openParen, .closeParen, .amp]) : Quiet leaf :=
  fun _ => next_of_kind (by rwa [kind_of_isKind h])

theorem quiet_of_word {word : String} (named : IsWord word leaf) (listed : word ∈ keywords)
    (calm : word ∉ ["not", "and", "or"]) : Quiet leaf := by
  intro l
  simp only [List.mem_cons, List.not_mem_nil, or_false, not_or] at calm
  have is (other : String) (listed' : other ∈ keywords) := isWord_of_named listed listed' named
  simp only [Levels.next, kind_of_isWord named, is "not" (by decide), is "and" (by decide),
    is "or" (by decide), Bool.or_eq_true, calm]
  simp

/-- A bare value that is spelled like one of the words. -/
def echoes (words : List String) (leaf : Leaf Kind) : Bool :=
  leaf.terminal = .kind .ident && words.any (isWord leaf.token)

def echoed (ls : List (Leaf Kind)) : Nat := ls.countP (echoes ["and", "or"])

@[simp] theorem echoed_nil : echoed [] = 0 := rfl

@[simp] theorem echoed_append : echoed (ls ++ ms) = echoed ls + echoed ms := List.countP_append

theorem echoed_cons : echoed (leaf :: ls) = echoed [leaf] + echoed ls := by
  rw [← echoed_append, List.singleton_append]

theorem echoed_of_ne {T : Terminal Kind} (h : leaf.terminal = T) (other : T ≠ .kind .ident) :
    echoed [leaf] = 0 := by
  simp [echoed, echoes, h, other]

theorem next_bare (bare : IsKind .ident leaf) (l : Levels) :
    echoes ["not"] leaf ∧ echoed [leaf] = 0 ∧
        l.next leaf.token = { l with negations := l.negations + 1 } ∨
      echoed [leaf] = 1 ∧
        l.next leaf.token = { l with operators := l.operators + 1, negations := 0 } ∨
      echoed [leaf] = 0 ∧ l.next leaf.token = { l with negations := 0 } := by
  have kind := kind_of_isKind bare
  have terminal : leaf.terminal = .kind .ident := bare
  have alone : isWord leaf.token "not" → ¬ isWord leaf.token "and" ∧ ¬ isWord leaf.token "or" := by
    have apart : ∀ other ∈ ["and", "or"], sameIgnoringCase "not" other = false := by decide +kernel
    simp only [isWord, kind, decide_true, Bool.true_and]
    refine fun is => ⟨fun other => ?_, fun other => ?_⟩
    · exact absurd (Grammar.sameIgnoringCase_trans is other) (by rw [apart _ (by simp)]; simp)
    · exact absurd (Grammar.sameIgnoringCase_trans is other) (by rw [apart _ (by simp)]; simp)
  by_cases negation : isWord leaf.token "not"
  · refine .inl ⟨by simp [echoes, terminal, negation], ?_, by simp [Levels.next, negation]⟩
    simp [echoed, echoes, alone negation]
  · refine .inr ?_
    by_cases joining : isWord leaf.token "and" ∨ isWord leaf.token "or"
    · refine .inl ⟨?_, by simp [Levels.next, kind, negation, joining]⟩
      simp [echoed, echoes, terminal, joining]
    · refine .inr ⟨?_, by simp [Levels.next, kind, negation, joining]⟩
      simp [echoed, echoes, joining]

/-- The same groups are open, and so many operators more are counted. -/
structure Levels.Past (l l' : Levels) (operators : Nat) : Prop where
  groups : l'.groups = l.groups
  depth : l'.depth = l.depth
  operators : l'.operators = l.operators + operators

theorem Levels.Past.trans {m n k : Nat} (h : l.Past l' m) (h' : l'.Past l'' n) (sum : m + n = k) :
    l.Past l'' k where
  groups := h'.groups.trans h.groups
  depth := h'.depth.trans h.depth
  operators := by
    rw [h'.operators, h.operators]
    omega

theorem Levels.past_quiet (quiet : Quiet leaf) : l.Past (l.next leaf.token) 0 := by
  rw [quiet l]
  exact ⟨rfl, rfl, rfl⟩

theorem Levels.past_operator (h : IsWord "and" leaf ∨ IsKind .amp leaf ∨ IsWord "or" leaf) :
    l.Past (l.next leaf.token) 1 := by
  rw [next_operator h]
  exact ⟨rfl, rfl, rfl⟩

theorem echoed_operator (h : IsWord "and" leaf ∨ IsKind .amp leaf ∨ IsWord "or" leaf) :
    echoed [leaf] = 0 := by
  rcases h with named | amp | named
  · exact echoed_of_ne named (by simp)
  · exact echoed_of_ne amp (by simp)
  · exact echoed_of_ne named (by simp)

theorem keyword_of_textField {word : String} {make : String → Condition}
    (listed : (word, make) ∈ textFields) : word ∈ keywords ∧ word ∉ ["not", "and", "or"] := by
  have all : ∀ word ∈ textFields.map Prod.fst,
      word ∈ keywords ∧ word ∉ ["not", "and", "or"] := by decide
  exact all word (List.mem_map_of_mem listed)

theorem keyword_of_numberField {word : String} {field : Field}
    (listed : (word, field) ∈ numberFields) : word ∈ keywords ∧ word ∉ ["not", "and", "or"] := by
  have all : ∀ word ∈ numberFields.map Prod.fst,
      word ∈ keywords ∧ word ∉ ["not", "and", "or"] := by decide
  exact all word (List.mem_map_of_mem listed)

theorem level_of_predicate {c : Condition} (h : Predicate ls c) : c.level = .primary := by
  cases h with
  | field listed named separated sought =>
    simp only [textFields, List.mem_cons, Prod.mk.injEq, List.not_mem_nil, or_false] at listed
    rcases listed with ⟨-, rfl⟩ | ⟨-, rfl⟩ | ⟨-, rfl⟩ | ⟨-, rfl⟩ | ⟨-, rfl⟩ | ⟨-, rfl⟩ <;> rfl
  | _ => rfl

theorem operators_of_primary {c : Condition} (h : c.level = .primary) : c.operators = 0 := by
  cases c <;> first | rfl | cases h

theorem leaves_of_predicate {c : Condition} (h : Predicate ls c) :
    ∃ before last, ls = before ++ [last] ∧ echoed before = 0 ∧
      (∀ leaf ∈ before, Quiet leaf) ∧
      (Quiet last ∧ echoed [last] = 0 ∨ before ≠ [] ∧ IsKind .ident last) := by
  have word {word : String} {leaf : Leaf Kind} (named : IsWord word leaf)
      (keyword : word ∈ keywords ∧ word ∉ ["not", "and", "or"]) :
      Quiet leaf ∧ echoed [leaf] = 0 :=
    ⟨quiet_of_word named keyword.1 keyword.2, echoed_of_ne named (by simp)⟩
  have mark {kind : Kind} {leaf : Leaf Kind} (h : IsKind kind leaf)
      (calm : kind ∉ [.ident, .bang, .openParen, .closeParen, .amp]) :
      Quiet leaf ∧ echoed [leaf] = 0 :=
    ⟨quiet_of_kind h calm, echoed_of_ne h (by rintro ⟨⟩; exact calm (by simp))⟩
  have alone {last : Leaf Kind} (quiet : Quiet last ∧ echoed [last] = 0) :
      ∃ before last', [last] = before ++ [last'] ∧ echoed before = 0 ∧
        (∀ leaf ∈ before, Quiet leaf) ∧
        (Quiet last' ∧ echoed [last'] = 0 ∨ before ≠ [] ∧ IsKind .ident last') :=
    ⟨[], last, rfl, rfl, List.forall_mem_nil _, .inl quiet⟩
  have three {a b last : Leaf Kind} (first : Quiet a ∧ echoed [a] = 0)
      (second : Quiet b ∧ echoed [b] = 0)
      (third : Quiet last ∧ echoed [last] = 0 ∨ IsKind .ident last) :
      ∃ before last', [a, b, last] = before ++ [last'] ∧ echoed before = 0 ∧
        (∀ leaf ∈ before, Quiet leaf) ∧
        (Quiet last' ∧ echoed [last'] = 0 ∨ before ≠ [] ∧ IsKind .ident last') :=
    ⟨[a, b], last, rfl, by rw [echoed_cons, first.2, second.2], by simp [first.1, second.1],
      third.imp_right fun bare => ⟨by simp, bare⟩⟩
  cases h with
  | all every =>
    refine alone ?_
    rcases every with star | named
    · exact mark star (by simp)
    · exact word named (by decide)
  | reviewed named => exact alone (word named (by decide))
  | tag tag => exact alone (mark tag (by simp))
  | field listed named separated sought =>
    refine three (word named (keyword_of_textField listed)) (mark separated (by simp)) ?_
    cases sought with
    | string literal => exact .inl (mark literal (by simp))
    | ident bare => exact .inr bare
    | number digits => exact .inl (mark digits (by simp))
  | compare listed named compared known bound =>
    exact three (word named (keyword_of_numberField listed)) (mark compared (by simp))
      (.inl (mark bound.digits (by simp)))

theorem after_quiet (quiet : ∀ leaf ∈ ls, Quiet leaf) :
    l.Past (l.after (ls.map Leaf.token)) 0 ∧
      (ls ≠ [] → (l.after (ls.map Leaf.token)).negations = 0) := by
  induction ls generalizing l with
  | nil => exact ⟨⟨rfl, rfl, rfl⟩, fun h => absurd rfl h⟩
  | cons leaf ls ih =>
    obtain ⟨first, others⟩ := List.forall_mem_cons.1 quiet
    rw [List.map_cons, Levels.after_cons, first l]
    obtain ⟨past, reset⟩ := ih (l := { l with negations := 0 }) others
    refine ⟨⟨past.groups, past.depth, past.operators⟩, ?_⟩
    intro _
    cases ls with
    | nil => rfl
    | cons leaf' ls => exact reset (List.cons_ne_nil _ _)

theorem past_predicate {c : Condition} (h : Predicate ls c) (l : Levels) :
    l.Past (l.after (ls.map Leaf.token)) (c.operators + echoed ls) := by
  have none := operators_of_primary (level_of_predicate h)
  obtain ⟨before, last, rfl, silent, quiet, ends⟩ := leaves_of_predicate h
  obtain ⟨past, -⟩ := after_quiet (l := l) quiet
  rw [List.map_append, Levels.after_append, none, echoed_append, silent]
  refine past.trans ?_ rfl
  rcases ends with ⟨quiet, silent⟩ | ⟨-, bare⟩
  · rw [silent]
    exact Levels.past_quiet quiet
  · rw [List.map_singleton, Levels.after_cons, Levels.after_nil]
    rcases next_bare bare (l.after (before.map Leaf.token)) with
      ⟨-, count, next⟩ | ⟨count, next⟩ | ⟨count, next⟩
    · rw [next, count]
      exact ⟨rfl, rfl, rfl⟩
    · rw [next, count]
      exact ⟨rfl, rfl, rfl⟩
    · rw [next, count]
      exact ⟨rfl, rfl, rfl⟩

theorem operators_chained {join : Condition → Condition → Condition}
    (counts : ∀ a b, (join a b).operators = a.operators + b.operators + 1) (c : Condition)
    (links : List Link) :
    (chained join c links).operators =
      c.operators + (links.map fun k => k.value.operators + 1).sum := by
  induction links generalizing c with
  | nil => rfl
  | cons k links ih =>
    have step : chained join c (k :: links) = chained join (join c k.value) links := rfl
    rw [step, ih, counts, List.map_cons, List.sum_cons]
    omega

theorem past_links {links : List Link}
    (operators : ∀ k ∈ links,
      IsWord "and" k.operator ∨ IsKind .amp k.operator ∨ IsWord "or" k.operator)
    (operands : ∀ k ∈ links, ∀ l : Levels,
      l.Past (l.after (k.operand.map Leaf.token)) (k.value.operators + echoed k.operand))
    (l : Levels) :
    l.Past (l.after ((links.flatMap Link.leaves).map Leaf.token))
      ((links.map fun k => k.value.operators + 1).sum + echoed (links.flatMap Link.leaves)) := by
  induction links generalizing l with
  | nil => exact ⟨rfl, rfl, rfl⟩
  | cons k links ih =>
    obtain ⟨operator, operators⟩ := List.forall_mem_cons.1 operators
    obtain ⟨operand, operands⟩ := List.forall_mem_cons.1 operands
    have link := (Levels.past_operator operator).trans (operand (l.next k.operator.token)) rfl
    have none := echoed_operator operator
    rw [List.flatMap_cons, Link.leaves, List.map_append, Levels.after_append, List.map_cons,
      Levels.after_cons, echoed_append, echoed_cons, none, List.map_cons, List.sum_cons]
    refine link.trans (ih operators operands _) ?_
    omega

/-- A condition closes the groups it opens, and its operators are counted with the bare values that
are spelled like one. -/
theorem past_derives {place : Level} {c : Condition} (h : Derives place ls c) (l : Levels) :
    l.Past (l.after (ls.map Leaf.token)) (c.operators + echoed ls) := by
  induction h generalizing l with
  | expr _ operators _ first operands =>
    have links := past_links (fun k hk => .inr (.inr (operators k hk))) operands
    rw [List.map_append, Levels.after_append, echoed_append,
      operators_chained (fun _ _ => rfl)]
    exact (first l).trans (links _) (by omega)
  | conjunction _ operators _ first operands =>
    have links := past_links (fun k hk => (operators k hk).imp_right .inl) operands
    rw [List.map_append, Levels.after_append, echoed_append,
      operators_chained (fun _ _ => rfl)]
    exact (first l).trans (links _) (by omega)
  | @not leaf ls c negation _ ih =>
    have none : echoed [leaf] = 0 := by
      rcases negation with named | bang
      · exact echoed_of_ne named (by simp)
      · exact echoed_of_ne bang (by simp)
    obtain ⟨groups, depth, operators⟩ := ih { l with negations := l.negations + 1 }
    rw [List.map_cons, Levels.after_cons, next_negation negation, echoed_cons, none]
    exact ⟨groups, depth, by simpa [Condition.operators] using operators⟩
  | primary _ ih => exact ih l
  | @group left right ls c opened _ closed ih =>
    have none : echoed [left] = 0 := echoed_of_ne opened (by simp)
    have none' : echoed [right] = 0 := echoed_of_ne closed (by simp)
    obtain ⟨groups, depth, operators⟩ := ih (l.next left.token)
    rw [next_opened opened] at groups depth operators
    rw [List.cons_append, List.map_cons, Levels.after_cons, List.map_append, Levels.after_append,
      List.map_singleton, Levels.after_cons, Levels.after_nil, next_opened opened,
      next_closed closed groups, echoed_cons, echoed_append, none, none']
    refine ⟨rfl, ?_, ?_⟩
    · dsimp only at depth ⊢
      rw [depth]
      exact Nat.add_sub_cancel _ _
    · dsimp only at operators ⊢
      rw [operators]
      omega
  | predicate simple => exact past_predicate simple l

end Wordhoard.Query
