import Wordhoard.Proofs.Grammar.Calls
import Wordhoard.Proofs.Query.Levels
import Wordhoard.Proofs.Query.Parse
import Wordhoard.Query.Evaluate

/-! How deep the reader of queries goes. Main statement: on a text within the bounds on its shape,
read or refused, the grammar never has more groups and negations open at once than the bound allows,
and the condition that is read is as high as the bounds allow at most. -/
namespace Wordhoard.Query

open Grammar (Leaf Row Means Passes Makes Before before_of_makes)

variable {ls : List (Leaf Kind)} {l : Levels} {c d e : Cursor Kind} {depth k : Nat} {n m : Name}

/-- The levels that a call from the body of the grammar stands behind: an operand calls only behind a
negation and in a group, and a chain of operands calls its operands where it stands itself. -/
def Name.opens : Name → Nat
  | .unary => 1
  | .condition => 0

/-- In the run on a text that starts at the first cursor, the grammar is called at the second one
with so many levels open. The depth is what is left of the depth of calls. -/
inductive Enters (c : Cursor Kind) : Nat → Name → Nat → Cursor Kind → Prop where
  | start {n : Name} {d : Cursor Kind}
      (made : Makes (Reader.named.call (Reader.named.depth c)) Reader.command c n d) :
      Enters c (Reader.named.depth c) n 0 d
  | inside {depth k : Nat} {n m : Name} {d e : Cursor Kind} (outer : Enters c (depth + 1) n k d)
      (made : Makes (Reader.named.call depth) (Reader.named.body n) d m e) :
      Enters c depth m (k + n.opens) e

/-- Behind the leaves as many levels of groups are open as before them. -/
def Restores (ls : List (Leaf Kind)) : Prop :=
  ∀ l : Levels, (l.after (ls.map Leaf.token)).depth = l.depth

theorem restores_append {ms : List (Leaf Kind)} (h : Restores ls) (h' : Restores ms) :
    Restores (ls ++ ms) := by
  intro l
  rw [List.map_append, Levels.after_append, h', h]

theorem restores_derived {place : Level} {c : Condition} (h : Derives place ls c) : Restores ls :=
  fun l => (past_derives h l).depth

theorem restores_operator {leaf : Leaf Kind}
    (h : IsWord "and" leaf ∨ IsKind .amp leaf ∨ IsWord "or" leaf) : Restores [leaf] :=
  fun _ => (Levels.past_operator h).depth

theorem before_unary (h : Before Reads Reader.unary n ls) :
    ∃ leaf, ls = [leaf] ∧ (n = .unary ∧ (IsWord "not" leaf ∨ IsKind .bang leaf) ∨
      n = .condition ∧ IsKind .openParen leaf) := by
  rcases h with (h | h) | (h | h) | h
  · exact h.elim False.elim False.elim
  · obtain ⟨ms, ns, t, rfl, before, rfl, rfl⟩ := h
    rw [List.append_nil]
    obtain ⟨leaf, rfl, negation⟩ := means_word_or_kind before
    exact ⟨leaf, rfl, .inl ⟨rfl, negation⟩⟩
  · rcases h with h | ⟨ms, ns, t, rfl, opened, rfl, rfl⟩
    · exact h.elim
    · rw [List.append_nil]
      obtain ⟨leaf, rfl, opened, -⟩ := means_kind opened
      exact ⟨leaf, rfl, .inr ⟨rfl, opened⟩⟩
  · obtain ⟨_, _, _, _, _, h⟩ := h
    exact h.elim
  · simp [Before, Reader.simple, Reader.fieldCondition, Reader.fieldNamed, Reader.comparison,
      Reader.bound, Reader.text, Reader.oneOf, Reader.means, Reader.word, Grammar.preceded] at h

theorem before_chain {join : Condition → Condition → Condition} {operator : Reader (Token Kind)}
    {operand : Reader Condition} (plain : ∀ ms, ¬ Before Reads operator n ms)
    (operators : ∀ ms t, Means Reads operator ms t → Restores ms)
    (operands : ∀ ms c, Means Reads operand ms c → Restores ms)
    (inner : ∀ ms, Before Reads operand n ms → n = .unary ∧ Restores ms)
    (h : Before Reads (Reader.chain join operator operand) n ls) : n = .unary ∧ Restores ls := by
  rcases h with h | ⟨ms, ns, c, rfl, first, ks, os, vs, rfl, row, h⟩
  · exact inner ls h
  · have taken : Restores (ms ++ ks) := by
      refine restores_append (operands ms c first) ?_
      clear h
      change Row _ ks vs at row
      induction row with
      | nil => exact fun _ => rfl
      | cons link _ ih =>
        obtain ⟨_, _, t, rfl, operator, operand⟩ := means_preceded link
        exact restores_append (restores_append (operators _ t operator) (operands _ _ operand)) ih
    rw [← List.append_assoc]
    rcases h with h | ⟨as, bs, t, rfl, operator, h⟩
    · exact absurd h (plain os)
    · obtain ⟨unary, inside⟩ := inner bs h
      exact ⟨unary, restores_append taken (restores_append (operators as t operator) inside)⟩

theorem before_condition (h : Before Reads Reader.condition n ls) : n = .unary ∧ Restores ls := by
  have operator (ms : List (Leaf Kind)) (t : Token Kind)
      (h : Means Reads (.either (Reader.word "and") (.token .amp)) ms t) : Restores ms := by
    obtain ⟨leaf, rfl, joins⟩ := means_word_or_kind h
    exact restores_operator (joins.imp_right .inl)
  have conjunction (ms : List (Leaf Kind)) (h : Before Reads Reader.conjunction n ms) :
      n = .unary ∧ Restores ms := by
    refine before_chain ?_ operator ?_ ?_ h
    · rintro ms (h | h)
      · exact h
      · exact h
    · exact fun ms c h => restores_derived (show Derives .unary ms c from h)
    · rintro ms ⟨rfl, rfl⟩
      exact ⟨rfl, fun _ => rfl⟩
  refine before_chain ?_ ?_ ?_ conjunction h
  · exact fun _ => id
  · intro ms t h
    obtain ⟨leaf, rfl, joins⟩ := means_word h
    exact restores_operator (.inr (.inr joins))
  · exact fun ms c h => restores_derived (sound_conjunction h)

/-- The levels open for a grammar that is called now: negations only negate an operand. -/
def Levels.open (l : Levels) : Name → Nat
  | .condition => l.depth
  | .unary => l.depth + l.negations

theorem Levels.depth_le_open (l : Levels) (n : Name) : l.depth ≤ l.open n := by
  cases n with
  | condition => exact Nat.le_refl _
  | unary => exact Nat.le_add_right _ _

theorem open_of_enters (h : Enters c depth n k d) :
    ∃ ls, Passes c ls d ∧ k ≤ (Levels.after {} (ls.map Leaf.token)).open n := by
  -- on the chain of calls, each of which stands behind the tokens of the calls around it
  induction h with
  | start made =>
    obtain ⟨ls, passes, -⟩ := before_of_makes sound_named plain_named plain_command made
    exact ⟨ls, passes, Nat.zero_le _⟩
  | @inside depth k n m d e _ made ih =>
    obtain ⟨ls, passes, inner⟩ := ih
    obtain ⟨ms, passes', before⟩ := before_of_makes sound_named plain_named (plain_named n) made
    refine ⟨ls ++ ms, passes.trans passes', ?_⟩
    rw [List.map_append, Levels.after_append]
    cases n with
    | condition =>
      obtain ⟨rfl, level⟩ := before_condition before
      refine Nat.le_trans ?_ (Levels.depth_le_open _ _)
      rw [level]
      exact inner
    | unary =>
      obtain ⟨leaf, rfl, ⟨rfl, negation⟩ | ⟨rfl, opened⟩⟩ := before_unary before
      · rw [List.map_singleton, Levels.after_cons, Levels.after_nil, next_negation negation]
        simp only [Levels.open, Name.opens] at inner ⊢
        omega
      · rw [List.map_singleton, Levels.after_cons, Levels.after_nil, next_opened opened]
        simp only [Levels.open, Name.opens] at inner ⊢
        omega

theorem enters_le (allowed : excess? {} c.stream.tokens = none) (h : Enters c depth n k d) :
    k ≤ maxNesting := by
  obtain ⟨ls, passes, inner⟩ := open_of_enters h
  have tokens : c.stream.tokens = ls.map Leaf.token ++ d.stream.tokens :=
    congrArg Stream.tokens passes
  rw [tokens, excess?_eq_none_iff, throughout_append] at allowed
  have within := allowed.1.after ⟨Nat.zero_le _, Nat.zero_le _⟩
  refine Nat.le_trans inner (Nat.le_trans ?_ within.2)
  cases n with
  | condition => exact Nat.le_add_right _ _
  | unary => exact Nat.le_refl _

theorem command_ne_endless (c : Cursor Kind) :
    Grammar.interpret (Reader.named.call (Reader.named.depth c)) Reader.command c ≠
      .error .endless := by
  intro endless
  have reports := Grammar.reports_run Reader.named (Reader.named.depth c) Reader.command c
  rw [endless] at reports
  exact watch_command_ne_endless c reports

theorem call_ne_endless (h : Enters c depth n k d) :
    Reader.named.call depth n d ≠ .error .endless := by
  induction h with
  | start made => exact fun endless => command_ne_endless c (Grammar.interpret_endless made endless)
  | inside _ made ih => exact fun endless => ih (Grammar.interpret_endless made endless)

def calling (operand : Cursor Kind → Outcome Kind Condition) :
    (n : Name) → Cursor Kind → Outcome Kind Condition
  | .condition => Grammar.interpret (fun _ => operand) Reader.condition
  | .unary => operand

/-- Runs an operand that opens at most so many levels; where one level more would be opened, nothing
is run any further. -/
def operandWithin : Nat → Cursor Kind → Outcome Kind Condition
  | 0 => Grammar.interpret (fun _ _ => .error .endless) Reader.unary
  | n + 1 => Grammar.interpret (calling (operandWithin n)) Reader.unary

theorem call_eq_within (allowed : excess? {} c.stream.tokens = none) (h : Enters c depth n k d) :
    Reader.named.call depth n d = calling (operandWithin (maxNesting - k)) n d := by
  induction depth generalizing n k d with
  | zero => exact absurd rfl (call_ne_endless h)
  | succ depth ih =>
    cases n with
    | condition =>
      apply Grammar.interpret_congr
      intro m e made
      obtain ⟨ms, -, before⟩ := before_of_makes sound_named plain_named plain_condition made
      obtain ⟨rfl, -⟩ := before_condition before
      exact ih (.inside h made)
    | unary =>
      have deeper {m : Name} {e : Cursor Kind}
          (made : Makes (Reader.named.call depth) Reader.unary d m e) :
          Enters c depth m (k + 1) e := .inside h made
      cases left : maxNesting - k with
      | zero =>
        apply Grammar.interpret_congr
        intro m e made
        have := enters_le allowed (deeper made)
        omega
      | succ left' =>
        apply Grammar.interpret_congr
        intro m e made
        have same := ih (deeper made)
        rwa [show maxNesting - (k + 1) = left' by omega] at same

def Condition.nots : Condition → Nat
  | and left right => max left.nots right.nots
  | or left right => max left.nots right.nots
  | not inner => inner.nots + 1
  | _ => 0

def Condition.height : Condition → Nat
  | and left right => max left.height right.height + 1
  | or left right => max left.height right.height + 1
  | not inner => inner.height + 1
  | _ => 1

/-- Checks a condition with so many calls inside each other at most. -/
def Condition.holdsWithin (now : Time.Instant) (w : Word) : Nat → Condition → Option Bool
  | 0, _ => none
  | n + 1, and left right =>
    return (← left.holdsWithin now w n) && (← right.holdsWithin now w n)
  | n + 1, or left right =>
    return (← left.holdsWithin now w n) || (← right.holdsWithin now w n)
  | n + 1, not inner => return !(← inner.holdsWithin now w n)
  | _ + 1, c => some (c.holds now w)

theorem Condition.height_le (c : Condition) : c.height ≤ 1 + c.operators + c.nots := by
  induction c with
  | and left right ihl ihr =>
    simp only [height, operators, nots]
    omega
  | or left right ihl ihr =>
    simp only [height, operators, nots]
    omega
  | not inner ih =>
    simp only [height, operators, nots]
    omega
  | _ => exact Nat.le_refl _

theorem Condition.holdsWithin_of_height_le {now : Time.Instant} {w : Word} {n : Nat} (c : Condition)
    (h : c.height ≤ n) : c.holdsWithin now w n = some (c.holds now w) := by
  induction c generalizing n with
  | and left right ihl ihr =>
    simp only [height] at h
    obtain ⟨n, rfl⟩ := Nat.exists_eq_add_one.2 (show 0 < n by omega)
    simp only [holdsWithin, ihl (n := n) (by omega), ihr (n := n) (by omega)]
    rfl
  | or left right ihl ihr =>
    simp only [height] at h
    obtain ⟨n, rfl⟩ := Nat.exists_eq_add_one.2 (show 0 < n by omega)
    simp only [holdsWithin, ihl (n := n) (by omega), ihr (n := n) (by omega)]
    rfl
  | not inner ih =>
    simp only [height] at h
    obtain ⟨n, rfl⟩ := Nat.exists_eq_add_one.2 (show 0 < n by omega)
    simp only [holdsWithin, ih (n := n) (by omega)]
    rfl
  | _ =>
    obtain ⟨n, rfl⟩ := Nat.exists_eq_add_one.2 (show 0 < n from h)
    rfl

theorem nots_chained {join : Condition → Condition → Condition}
    (nots : ∀ a b, (join a b).nots = max a.nots b.nots) {c : Condition} {links : List Link}
    {outside bound : Nat} (first : outside + c.nots ≤ bound)
    (others : ∀ k ∈ links, outside + k.value.nots ≤ bound) :
    outside + (chained join c links).nots ≤ bound := by
  induction links generalizing c with
  | nil => exact first
  | cons k links ih =>
    obtain ⟨second, others⟩ := List.forall_mem_cons.1 others
    refine ih (c := join c k.value) ?_ others
    rw [nots]
    omega

theorem nots_of_primary {c : Condition} (h : c.level = .primary) : c.nots = 0 := by
  cases c <;> first | rfl | cases h

def Level.pending (l : Levels) : Level → Nat
  | .unary => l.negations
  | .primary => l.negations
  | _ => 0

theorem nots_links {place : Level} {links : List Link} {bound : Nat}
    (operators : ∀ k ∈ links,
      IsWord "and" k.operator ∨ IsKind .amp k.operator ∨ IsWord "or" k.operator)
    (derived : ∀ k ∈ links, Derives place k.operand k.value)
    (operands : ∀ k ∈ links, ∀ l : Levels, l.depth + l.negations ≤ bound →
      l.Throughout (fun l => l.depth + l.negations ≤ bound) (k.operand.map Leaf.token) →
      l.depth + place.pending l + k.value.nots ≤ bound)
    (all : l.Throughout (fun l => l.depth + l.negations ≤ bound)
      ((links.flatMap Link.leaves).map Leaf.token)) :
    ∀ k ∈ links, l.depth + k.value.nots ≤ bound := by
  induction links generalizing l with
  | nil => exact List.forall_mem_nil _
  | cons k links ih =>
    obtain ⟨operator, operators⟩ := List.forall_mem_cons.1 operators
    obtain ⟨derivation, derived⟩ := List.forall_mem_cons.1 derived
    obtain ⟨operand, operands⟩ := List.forall_mem_cons.1 operands
    rw [List.flatMap_cons, Link.leaves, List.map_append, throughout_append, List.map_cons,
      throughout_cons, Levels.after_cons] at all
    obtain ⟨⟨start, inside⟩, behind⟩ := all
    have depth := (Levels.past_operator (l := l) operator).depth
    refine List.forall_mem_cons.2 ⟨?_, ?_⟩
    · have := operand _ start inside
      omega
    · have rest := ih operators derived operands behind
      rwa [(past_derives derivation _).depth, depth] at rest

theorem nots_of_derives {place : Level} {c : Condition} {bound : Nat} (h : Derives place ls c)
    (l : Levels) (start : l.depth + l.negations ≤ bound)
    (all : l.Throughout (fun l => l.depth + l.negations ≤ bound) (ls.map Leaf.token)) :
    l.depth + place.pending l + c.nots ≤ bound := by
  induction h generalizing l with
  | expr derived operators operands first others =>
    rw [List.map_append, throughout_append] at all
    have links := nots_links (fun k hk => .inr (.inr (operators k hk))) operands others all.2
    rw [(past_derives derived l).depth] at links
    exact nots_chained (fun _ _ => rfl) (first l start all.1) links
  | conjunction derived operators operands first others =>
    rw [List.map_append, throughout_append] at all
    have links := nots_links (fun k hk => (operators k hk).imp_right .inl) operands others all.2
    rw [(past_derives derived l).depth] at links
    have head := first l start all.1
    refine nots_chained (fun _ _ => rfl) ?_ links
    simp only [Level.pending] at head ⊢
    omega
  | not negation _ ih =>
    rw [List.map_cons, throughout_cons, next_negation negation] at all
    have inner := ih _ all.1 all.2
    simp only [Level.pending, Condition.nots] at inner ⊢
    omega
  | primary _ ih => exact ih l start all
  | group opened _ _ ih =>
    rw [List.cons_append, List.map_cons, throughout_cons, List.map_append, throughout_append,
      next_opened opened] at all
    have inner := ih _ all.1 all.2.1
    simp only [Level.pending] at inner ⊢
    omega
  | predicate simple =>
    rw [nots_of_primary (level_of_predicate simple)]
    exact start

/-- A condition is within the bounds on the shape of queries. -/
structure Condition.Small (c : Condition) : Prop where
  operators : c.operators ≤ maxOperators
  nots : c.nots ≤ maxNesting

theorem small_of_selection {c : Condition} (h : Selection ls c)
    (all : Levels.Throughout Levels.Within {} (ls.map Leaf.token)) : c.Small := by
  cases h with
  | none => exact ⟨Nat.zero_le _, Nat.zero_le _⟩
  | some derived =>
    constructor
    · have past := (past_derives derived {}).operators
      have within := (all.after ⟨Nat.zero_le _, Nat.zero_le _⟩).1
      dsimp only at past
      omega
    · have nots := nots_of_derives derived {} (Nat.zero_le maxNesting) (all.imp fun _ => And.right)
      simpa [Level.pending] using nots

theorem small_of_parse {text : String} {condition : Condition} {steps : List Step}
    (allowed : excess? {} (stream text).tokens = none)
    (read : parse text = .ok (.filter condition steps)) : condition.Small := by
  obtain ⟨ls, w, derivation⟩ := derivation_of_parse read
  rw [parse_eq_of_derivation allowed derivation] at read
  have denoted := Written.query_eq_ok.1 read
  rw [← derivation.tokens, excess?_eq_none_iff] at allowed
  cases derivation.sentence with
  | insert => exact denoted.elim
  | session => cases denoted
  | dump => cases denoted
  | filter selected piped =>
    cases denoted
    rw [List.map_append, throughout_append] at allowed
    exact small_of_selection selected allowed.1

/-- On a text within the bounds on the shape of queries, whether it can be read or not, no grammar is
called with more than the allowed levels of groups and negations open, and a descent that is cut off
there ends in the same way. If a condition is read, it is within the bounds too, and so is the number
of calls that it takes to check it on a word. -/
theorem descent_within_bounds {text : String} {c : Cursor Kind}
    (entered : (stream text).enter = .ok c) (allowed : excess? {} (stream text).tokens = none) :
    (∀ depth n k d, Enters c depth n k d → k ≤ maxNesting) ∧
      Grammar.parseAll Reader.named Reader.command c =
        Grammar.requireEnd
          (Grammar.interpret (calling (operandWithin maxNesting)) Reader.command c) ∧
      ∀ condition steps, parse text = .ok (.filter condition steps) →
        condition.operators ≤ maxOperators ∧ condition.nots ≤ maxNesting ∧
          condition.height ≤ 1 + maxOperators + maxNesting ∧
          ∀ now w, condition.holdsWithin now w (1 + maxOperators + maxNesting) =
            some (condition.holds now w) := by
  have bounded : excess? {} c.stream.tokens = none := by rwa [Stream.stream_of_enter entered]
  refine ⟨fun depth n k d => enters_le bounded, ?_, fun condition steps read => ?_⟩
  · refine congrArg Grammar.requireEnd (Grammar.interpret_congr _ _ fun n d made => ?_)
    have same := call_eq_within bounded (.start made)
    rwa [Nat.sub_zero] at same
  · obtain ⟨operators, nots⟩ := small_of_parse allowed read
    have high : condition.height ≤ 1 + maxOperators + maxNesting := by
      have := condition.height_le
      omega
    exact ⟨operators, nots, high, fun _ _ => condition.holdsWithin_of_height_le high⟩

theorem entered_of_parse {text : String} {q : Query} (read : parse text = .ok q) :
    ∃ c, (stream text).enter = .ok c ∧ excess? {} (stream text).tokens = none := by
  unfold parse at read
  dsimp only at read
  split at read
  · cases read
  · rename_i c entered
    split at read
    · cases read
    · rename_i allowed
      exact ⟨c, entered, allowed⟩

theorem descent_of_negatedGroup :
    ∃ c, (stream "not (#a or !reviewed)").enter = .ok c ∧
      excess? {} (stream "not (#a or !reviewed)").tokens = none ∧
      (∀ depth n k d, Enters c depth n k d → k ≤ maxNesting) ∧
      Grammar.parseAll Reader.named Reader.command c =
        Grammar.requireEnd
          (Grammar.interpret (calling (operandWithin maxNesting)) Reader.command c) ∧
      (Condition.not (.or (.hasTag "a") (.not .reviewed))).height ≤
        1 + maxOperators + maxNesting :=
  have read : parse "not (#a or !reviewed)" =
      .ok (.filter (.not (.or (.hasTag "a") (.not .reviewed))) []) := by
    decide +kernel
  have ⟨c, entered, allowed⟩ := entered_of_parse read
  have ⟨levels, same, small⟩ := descent_within_bounds entered allowed
  ⟨c, entered, allowed, levels, same, (small _ _ read).2.2.1⟩

end Wordhoard.Query
