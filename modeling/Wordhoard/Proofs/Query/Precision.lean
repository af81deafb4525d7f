import Wordhoard.Proofs.Query.Levels
import Wordhoard.Proofs.Query.Refusal

/-! Which queries are refused for their shape. Main statement: a sentence is refused only if it has
too many operators or opens too many levels, where a bare value that is spelled like an operator or
like a negation counts with them. A query with such a value may therefore be refused within the
bounds that are documented. -/
namespace Wordhoard.Query

open Grammar (Leaf Row)

variable {ls ms : List (Leaf Kind)} {leaf : Leaf Kind} {l : Levels} {n m : Nat} {c : Condition}
  {place : Level}

/-- A derivation with so many groups and negations open at once at most. -/
inductive Nests : Nat → Level → List (Leaf Kind) → Condition → Prop where
  | expr {n : Nat} {ls : List (Leaf Kind)} {c : Condition} {links : List Link}
      (first : Nests n .conjunction ls c) (operators : ∀ k ∈ links, IsWord "or" k.operator)
      (operands : ∀ k ∈ links, Nests n .conjunction k.operand k.value) :
      Nests n .expr (ls ++ links.flatMap Link.leaves) (chained .or c links)
  | conjunction {n : Nat} {ls : List (Leaf Kind)} {c : Condition} {links : List Link}
      (first : Nests n .unary ls c)
      (operators : ∀ k ∈ links, IsWord "and" k.operator ∨ IsKind .amp k.operator)
      (operands : ∀ k ∈ links, Nests n .unary k.operand k.value) :
      Nests n .conjunction (ls ++ links.flatMap Link.leaves) (chained .and c links)
  | not {n : Nat} {l : Leaf Kind} {ls : List (Leaf Kind)} {c : Condition}
      (negation : IsWord "not" l ∨ IsKind .bang l) (inner : Nests n .unary ls c) :
      Nests (n + 1) .unary (l :: ls) (.not c)
  | primary {n : Nat} {ls : List (Leaf Kind)} {c : Condition} (inner : Nests n .primary ls c) :
      Nests n .unary ls c
  | group {n : Nat} {l r : Leaf Kind} {ls : List (Leaf Kind)} {c : Condition}
      (opened : IsKind .openParen l) (inner : Nests n .expr ls c) (closed : IsKind .closeParen r) :
      Nests (n + 1) .primary (l :: ls ++ [r]) c
  | predicate {n : Nat} {ls : List (Leaf Kind)} {c : Condition} (simple : Predicate ls c) :
      Nests n .primary ls c

theorem Nests.derives (h : Nests n place ls c) : Derives place ls c := by
  induction h with
  | expr _ operators _ first operands => exact .expr first operators operands
  | conjunction _ operators _ first operands => exact .conjunction first operators operands
  | not negation _ inner => exact .not negation inner
  | primary _ inner => exact .primary inner
  | group opened _ closed inner => exact .group opened inner closed
  | predicate simple => exact .predicate simple

theorem Nests.mono (h : Nests n place ls c) (more : n ≤ m) : Nests m place ls c := by
  induction h generalizing m with
  | expr _ operators _ first operands =>
    exact .expr (first more) operators fun k hk => operands k hk more
  | conjunction _ operators _ first operands =>
    exact .conjunction (first more) operators fun k hk => operands k hk more
  | not negation _ inner =>
    obtain ⟨m, rfl⟩ := Nat.exists_eq_add_one.2 (show 0 < m by omega)
    exact .not negation (inner (by omega))
  | primary _ inner => exact .primary (inner more)
  | group opened _ closed inner =>
    obtain ⟨m, rfl⟩ := Nat.exists_eq_add_one.2 (show 0 < m by omega)
    exact .group opened (inner (by omega)) closed
  | predicate simple => exact .predicate simple

theorem nests_links {links : List Link}
    (operands : ∀ k ∈ links, ∃ n, Nests n place k.operand k.value) :
    ∃ n, ∀ k ∈ links, Nests n place k.operand k.value := by
  induction links with
  | nil => exact ⟨0, List.forall_mem_nil _⟩
  | cons k links ih =>
    obtain ⟨⟨n, first⟩, others⟩ := List.forall_mem_cons.1 operands
    obtain ⟨m, others⟩ := ih others
    refine ⟨max n m, List.forall_mem_cons.2 ⟨first.mono (Nat.le_max_left _ _), ?_⟩⟩
    exact fun k hk => (others k hk).mono (Nat.le_max_right _ _)

/-- The documented grammar sets no bound: what it derives is derived within some number of levels. -/
theorem derives_iff_nests : Derives place ls c ↔ ∃ n, Nests n place ls c := by
  refine ⟨fun h => ?_, fun ⟨n, h⟩ => h.derives⟩
  induction h with
  | expr _ operators _ first operands =>
    obtain ⟨n, first⟩ := first
    obtain ⟨m, operands⟩ := nests_links operands
    exact ⟨max n m, .expr (first.mono (Nat.le_max_left _ _)) operators
      fun k hk => (operands k hk).mono (Nat.le_max_right _ _)⟩
  | conjunction _ operators _ first operands =>
    obtain ⟨n, first⟩ := first
    obtain ⟨m, operands⟩ := nests_links operands
    exact ⟨max n m, .conjunction (first.mono (Nat.le_max_left _ _)) operators
      fun k hk => (operands k hk).mono (Nat.le_max_right _ _)⟩
  | not negation _ inner =>
    obtain ⟨n, inner⟩ := inner
    exact ⟨n + 1, .not negation inner⟩
  | primary _ inner =>
    obtain ⟨n, inner⟩ := inner
    exact ⟨n, .primary inner⟩
  | group opened _ closed inner =>
    obtain ⟨n, inner⟩ := inner
    exact ⟨n + 1, .group opened inner closed⟩
  | predicate simple => exact ⟨0, .predicate simple⟩

/-- One if a bare value is spelled like a negation. -/
def misheard (ls : List (Leaf Kind)) : Nat := (ls.any (echoes ["not"])).toNat

theorem one_le_misheard (h : leaf ∈ ls) (echo : echoes ["not"] leaf) : 1 ≤ misheard ls := by
  rw [misheard, List.any_eq_true.2 ⟨leaf, h, echo⟩]
  exact Nat.le_refl 1

theorem throughout_quiet (quiet : ∀ leaf ∈ ls, Quiet leaf) (l : Levels) :
    l.Throughout (fun l' => l'.depth + l'.negations ≤ l.depth) (ls.map Leaf.token) := by
  induction ls generalizing l with
  | nil => trivial
  | cons leaf ls ih =>
    obtain ⟨first, others⟩ := List.forall_mem_cons.1 quiet
    rw [List.map_cons, throughout_cons, first l]
    exact ⟨Nat.le_refl _, ih others { l with negations := 0 }⟩

theorem throughout_predicate {echo : Nat} (h : Predicate ls c)
    (heard : ∀ leaf ∈ ls, echoes ["not"] leaf → 1 ≤ echo) (l : Levels) :
    l.Throughout (fun l' => l'.depth + l'.negations ≤ l.depth + echo) (ls.map Leaf.token) := by
  obtain ⟨before, last, rfl, -, quiet, ends⟩ := leaves_of_predicate h
  obtain ⟨past, reset⟩ := after_quiet (l := l) quiet
  rw [List.map_append, throughout_append, List.map_singleton, throughout_cons]
  refine ⟨(throughout_quiet quiet l).imp fun _ h => by omega, ?_, trivial⟩
  rcases ends with ⟨quiet, -⟩ | ⟨nonempty, bare⟩
  · rw [quiet, past.depth]
    exact Nat.le_add_right _ _
  · rcases next_bare bare (l.after (before.map Leaf.token)) with
      ⟨negation, -, next⟩ | ⟨-, next⟩ | ⟨-, next⟩
    · have := heard last (by simp) negation
      rw [next, reset nonempty, past.depth]
      dsimp only
      omega
    · rw [next, past.depth]
      exact Nat.le_add_right _ _
    · rw [next, past.depth]
      exact Nat.le_add_right _ _

theorem throughout_links {links : List Link} {bound : Nat}
    (operators : ∀ k ∈ links,
      IsWord "and" k.operator ∨ IsKind .amp k.operator ∨ IsWord "or" k.operator)
    (derived : ∀ k ∈ links, Derives place k.operand k.value)
    (operands : ∀ k ∈ links, ∀ l : Levels, l.depth + l.negations ≤ bound →
      l.Throughout (fun l' => l'.depth + l'.negations ≤ bound + n) (k.operand.map Leaf.token))
    (l : Levels) (room : l.depth ≤ bound) :
    l.Throughout (fun l' => l'.depth + l'.negations ≤ bound + n)
      ((links.flatMap Link.leaves).map Leaf.token) := by
  induction links generalizing l with
  | nil => trivial
  | cons k links ih =>
    obtain ⟨operator, operators⟩ := List.forall_mem_cons.1 operators
    obtain ⟨derivation, derived⟩ := List.forall_mem_cons.1 derived
    obtain ⟨operand, operands⟩ := List.forall_mem_cons.1 operands
    rw [List.flatMap_cons, Link.leaves, List.map_append, throughout_append, List.map_cons,
      throughout_cons, Levels.after_cons]
    have start : (l.next k.operator.token).depth + (l.next k.operator.token).negations ≤ bound := by
      rw [next_operator operator]
      exact room
    refine ⟨⟨Nat.le_trans start (Nat.le_add_right _ _), operand _ start⟩, ?_⟩
    apply ih operators derived operands
    rw [(past_derives derivation _).depth]
    omega

theorem mem_links {links : List Link} {k : Link} (hk : k ∈ links) (h : leaf ∈ k.operand) :
    leaf ∈ links.flatMap Link.leaves :=
  List.mem_flatMap.2 ⟨k, hk, List.mem_cons_of_mem _ h⟩

/-- Where so many levels are open at most, no more are found on the tokens, but for one level for a
bare value that is spelled like a negation. -/
theorem throughout_nests {echo : Nat} (h : Nests n place ls c)
    (heard : ∀ leaf ∈ ls, echoes ["not"] leaf → 1 ≤ echo) (l : Levels) (bound : Nat)
    (room : l.depth + l.negations ≤ bound) :
    l.Throughout (fun l' => l'.depth + l'.negations ≤ bound + (n + echo))
      (ls.map Leaf.token) := by
  induction h generalizing l bound with
  | @expr n ls c links derived operators operands first others =>
    obtain ⟨heard, heard'⟩ := List.forall_mem_append.1 heard
    rw [List.map_append, throughout_append]
    refine ⟨first heard l bound room, ?_⟩
    apply throughout_links (fun k hk => .inr (.inr (operators k hk)))
      (fun k hk => (operands k hk).derives)
    · intro k hk l room
      exact others k hk (fun leaf mem => heard' leaf (mem_links hk mem)) l bound room
    · rw [(past_derives derived.derives l).depth]
      omega
  | @conjunction n ls c links derived operators operands first others =>
    obtain ⟨heard, heard'⟩ := List.forall_mem_append.1 heard
    rw [List.map_append, throughout_append]
    refine ⟨first heard l bound room, ?_⟩
    apply throughout_links (fun k hk => (operators k hk).imp_right .inl)
      (fun k hk => (operands k hk).derives)
    · intro k hk l room
      exact others k hk (fun leaf mem => heard' leaf (mem_links hk mem)) l bound room
    · rw [(past_derives derived.derives l).depth]
      omega
  | not negation _ inner =>
    rw [List.map_cons, throughout_cons, next_negation negation]
    have deeper := inner (fun leaf mem => heard leaf (List.mem_cons_of_mem _ mem))
      { l with negations := l.negations + 1 } (bound + 1) (by dsimp only; omega)
    refine ⟨by dsimp only; omega, deeper.imp fun _ h => by omega⟩
  | primary _ inner => exact inner heard l bound room
  | @group n left right ls c opened derived closed inner =>
    have deeper := inner (fun leaf mem => heard leaf (by simp [mem])) (l.next left.token)
      (bound + 1) (by rw [next_opened opened]; dsimp only; omega)
    have past := past_derives derived.derives (l.next left.token)
    have groups := past.groups
    have depth := past.depth
    rw [next_opened opened] at groups depth
    rw [List.cons_append, List.map_cons, throughout_cons, List.map_append, throughout_append,
      List.map_singleton, throughout_cons]
    refine ⟨?_, deeper.imp fun _ h => by omega, ?_, trivial⟩
    · rw [next_opened opened]
      dsimp only
      omega
    · rw [next_opened opened, next_closed closed groups]
      dsimp only at depth ⊢
      omega
  | predicate simple =>
    exact (throughout_predicate simple heard l).imp fun _ h => by omega

theorem leaves_of_step {s : Step} (h : StepOf ls s) :
    ∃ name, Quiet name ∧ (ls = [name] ∨
      ∃ left inside right, ls = name :: left :: (inside ++ [right]) ∧ IsKind .openParen left ∧
        (∀ leaf ∈ inside, Quiet leaf) ∧ IsKind .closeParen right) := by
  have word {word : String} {leaf : Leaf Kind} {table : List String} (named : IsWord word leaf)
      (listed : word ∈ table)
      (all : ∀ word ∈ table, word ∈ keywords ∧ word ∉ ["not", "and", "or"]) : Quiet leaf :=
    quiet_of_word named (all word listed).1 (all word listed).2
  have mark {kind : Kind} {leaf : Leaf Kind} (h : IsKind kind leaf)
      (calm : kind ∉ [.ident, .bang, .openParen, .closeParen, .amp]) : Quiet leaf :=
    quiet_of_kind h calm
  cases h with
  | @counted name left number right _ _ _ listed named opened count closed =>
    refine ⟨name, word named (List.mem_map_of_mem (f := Prod.fst) listed) (by decide), .inr ?_⟩
    exact ⟨left, [number], right, rfl, opened, by simp [mark count.digits (by simp)], closed⟩
  | @sort name left key right order _ _ _ named opened listed keyed directed closed =>
    have key' : Quiet key :=
      word keyed (List.mem_map_of_mem (f := Prod.fst) listed) (by decide)
    have order' : ∀ leaf ∈ order, Quiet leaf := by
      cases directed with
      | none => exact List.forall_mem_nil _
      | some separated listed named =>
        have direction := word named (List.mem_map_of_mem (f := Prod.fst) listed) (by decide)
        simp [mark separated (by simp), direction]
    refine ⟨name, quiet_of_word named (by decide) (by decide), .inr ?_⟩
    exact ⟨left, key :: order, right, rfl, opened, List.forall_mem_cons.2 ⟨key', order'⟩, closed⟩
  | @bare name _ _ _ listed named empty =>
    refine ⟨name, word named (List.mem_map_of_mem (f := Prod.fst) listed) (by decide), ?_⟩
    cases empty with
    | none => exact .inl rfl
    | @some left right opened closed =>
      exact .inr ⟨left, [], right, rfl, opened, List.forall_mem_nil _, closed⟩

theorem levels_of_step {s : Step} (h : PipedStep ls s) (l : Levels) :
    l.Past (l.after (ls.map Leaf.token)) 0 ∧
      l.Throughout (fun l' => l'.depth + l'.negations ≤ l.depth + 1) (ls.map Leaf.token) := by
  obtain ⟨bar, ms, rfl, isBar, step⟩ := h
  obtain ⟨name, quiet, shape⟩ := leaves_of_step step
  have bar' : Quiet bar := quiet_of_kind isBar (by simp)
  rcases shape with rfl | ⟨left, inside, right, rfl, opened, quiet', closed⟩
  · have both : ∀ leaf ∈ [bar, name], Quiet leaf := by simp [bar', quiet]
    exact ⟨(after_quiet both).1, (throughout_quiet both l).imp fun _ h => by omega⟩
  · simp only [List.map_cons, List.map_append, List.map_nil, Levels.after_cons,
      Levels.after_append, Levels.after_nil, throughout_cons, throughout_append, throughout_nil,
      bar' l, quiet _, next_opened opened]
    have past := (after_quiet
      (l := { groups := 1 :: l.groups, depth := l.depth + 1, operators := l.operators }) quiet').1
    have all := throughout_quiet quiet'
      { groups := 1 :: l.groups, depth := l.depth + 1, operators := l.operators }
    simp only [Nat.zero_add]
    rw [next_closed closed past.groups]
    refine ⟨⟨rfl, ?_, past.operators⟩, by omega, by omega, by omega, all, ?_, trivial⟩
    · rw [past.depth]
      exact Nat.add_sub_cancel _ _
    · dsimp only
      rw [past.depth]
      dsimp only
      omega

theorem levels_of_steps {steps : List Step} (h : Row PipedStep ls steps) (l : Levels) :
    l.Past (l.after (ls.map Leaf.token)) 0 ∧
      l.Throughout (fun l' => l'.depth + l'.negations ≤ l.depth + 1) (ls.map Leaf.token) := by
  induction h generalizing l with
  | nil => exact ⟨⟨rfl, rfl, rfl⟩, trivial⟩
  | cons first _ ih =>
    obtain ⟨past, all⟩ := levels_of_step first l
    obtain ⟨past', all'⟩ := ih (l.after _)
    rw [List.map_append, Levels.after_append, throughout_append]
    rw [past.depth] at all'
    exact ⟨past.trans past' rfl, all, all'⟩

theorem quiet_of_entry {e : Entry} (h : e.Proper) : ∀ leaf ∈ e.leaves, Quiet leaf := by
  intro leaf mem
  have kinds : IsKind .string leaf ∨ IsKind .tag leaf := by
    simp only [Entry.leaves, List.cons_append, List.mem_cons, List.mem_append,
      Option.mem_toList] at mem
    rcases mem with rfl | mem | mem
    · exact .inl h.content
    · exact .inl (h.description leaf mem)
    · exact .inr (h.tags leaf mem)
  rcases kinds with kind | kind
  · exact quiet_of_kind kind (by simp)
  · exact quiet_of_kind kind (by simp)

def Written.operators : Written → Nat
  | .ready (.filter c _) => c.operators
  | _ => 0

/-- The condition of a query is derived with so many levels open at once at most. -/
def Written.Shallow (n : Nat) (ls : List (Leaf Kind)) : Written → Prop
  | .ready (.filter c steps) =>
    ∃ ms ns, ls = ms ++ ns ∧ (ms = [] ∨ Nests n .expr ms c) ∧ Row PipedStep ns steps
  | _ => True

theorem quiet_or_filter {w : Written} (h : Sentence ls w) :
    (∀ leaf ∈ ls, Quiet leaf) ∨ ∃ c steps, w = .ready (.filter c steps) := by
  cases h with
  | @insert start first others entries finish begun proper further finished =>
    have begun' : Quiet start := by
      rcases begun with named | plus
      · exact quiet_of_word named (by decide) (by decide)
      · exact quiet_of_kind plus (by simp)
    have separator {leaf : Leaf Kind} (h : IsKind .semicolon leaf) : Quiet leaf :=
      quiet_of_kind h (by simp)
    have further' : ∀ leaf ∈ others, Quiet leaf := by
      clear proper begun
      induction further with
      | nil => exact List.forall_mem_nil _
      | cons one _ ih =>
        obtain ⟨semicolon, rfl, isSemicolon, proper⟩ := one
        exact List.forall_mem_append.2 ⟨List.forall_mem_cons.2
          ⟨separator isSemicolon, quiet_of_entry proper⟩, ih⟩
    have finished' : ∀ leaf ∈ finish.toList, Quiet leaf :=
      fun leaf mem => separator (finished leaf (Option.mem_toList.1 mem))
    refine .inl (List.forall_mem_cons.2 ⟨begun', ?_⟩)
    exact List.forall_mem_append.2 ⟨List.forall_mem_append.2 ⟨quiet_of_entry proper, further'⟩,
      finished'⟩
  | session named =>
    exact .inl (List.forall_mem_singleton.2 (quiet_of_word named (by decide) (by decide)))
  | dump named =>
    refine .inl (List.forall_mem_singleton.2 ?_)
    rcases named with named | named
    · exact quiet_of_word named (by decide) (by decide)
    · exact quiet_of_word named (by decide) (by decide)
  | filter => exact .inr ⟨_, _, rfl⟩

theorem operators_of_sentence {w : Written} (h : Sentence ls w) :
    (Levels.after {} (ls.map Leaf.token)).operators ≤ w.operators + echoed ls := by
  rcases quiet_or_filter h with quiet | ⟨c, steps, rfl⟩
  · rw [(after_quiet quiet).1.operators]
    exact Nat.zero_le _
  · cases h with
    | @filter ms ns _ _ selected piped =>
      have steps := (levels_of_steps piped (Levels.after {} (ms.map Leaf.token))).1.operators
      rw [List.map_append, Levels.after_append, steps, echoed_append, Written.operators]
      cases selected with
      | none => exact Nat.zero_le _
      | some derived =>
        rw [(past_derives derived {}).operators]
        dsimp only
        omega

theorem throughout_sentence {w : Written} (h : Sentence ls w)
    (shallow : w.Shallow (maxNesting - misheard ls) ls) :
    Levels.Throughout (fun l => l.depth + l.negations ≤ maxNesting) {} (ls.map Leaf.token) := by
  rcases quiet_or_filter h with quiet | ⟨c, steps, rfl⟩
  · exact (throughout_quiet quiet {}).imp fun _ h => Nat.le_trans h (Nat.zero_le _)
  · obtain ⟨ms, ns, rfl, condition, piped⟩ := shallow
    have heard : misheard (ms ++ ns) ≤ 1 := Bool.toNat_le _
    rw [List.map_append, throughout_append]
    rcases condition with rfl | nests
    · exact ⟨trivial, (levels_of_steps piped _).2.imp fun _ h => Nat.le_trans h (by decide)⟩
    · have depth := (past_derives nests.derives {}).depth
      constructor
      · have all := throughout_nests nests
          (fun leaf mem => one_le_misheard (List.mem_append_left ns mem)) {} 0 (Nat.le_refl 0)
        refine all.imp fun _ h => ?_
        simp only [maxNesting] at h ⊢
        omega
      · refine (levels_of_steps piped _).2.imp fun _ h => ?_
        rw [depth] at h
        exact Nat.le_trans h (by decide)

theorem excess_of_parse {text : String} {w : Written} {e : Excess} (h : Derivation text ls w)
    (refused : parse text = .error (.excess e)) : excess? {} (stream text).tokens = some e := by
  cases allowed : excess? {} (stream text).tokens with
  | none =>
    rw [parse_eq_of_derivation allowed h] at refused
    obtain ⟨_, -, _, -, _, same⟩ := markup_of_query refused
    cases same
  | some e' =>
    unfold parse at refused
    dsimp only at refused
    split at refused
    · cases refused
    · rw [allowed] at refused
      cases refused
      rfl

/-- A query that is derived is refused as too long only if its operators, together with the bare values
that are spelled like one, pass the bound, and as too deep only if it cannot be derived within the
bound on open levels, or within one level less where a bare value is spelled like a negation. -/
theorem refused_beyond_bounds {text : String} {w : Written} {e : Excess}
    (h : Derivation text ls w) (refused : parse text = .error (.excess e)) :
    match e with
    | .tooLong _ => maxOperators < w.operators + echoed ls
    | .tooDeep _ => ¬ w.Shallow (maxNesting - misheard ls) ls := by
  have excess := excess_of_parse h refused
  rw [← h.tokens] at excess
  cases e with
  | tooLong p =>
    refine Nat.lt_of_not_le fun few => not_throughout_of_tooLong excess ?_
    exact throughout_operators (Nat.le_trans (operators_of_sentence h.sentence) few)
  | tooDeep p =>
    exact fun shallow => not_throughout_of_tooDeep excess (throughout_sentence h.sentence shallow)

theorem Nests.alone (h : Nests n .primary ls c) : Nests n .expr ls c := by
  have operand := Nests.conjunction (.primary h) (List.forall_mem_nil _) (List.forall_mem_nil _)
  simpa [chained] using Nests.expr operand (List.forall_mem_nil _) (List.forall_mem_nil _)

theorem nests_groups {opens closes : List (Leaf Kind)} (h : Nests n .expr ls c)
    (opened : ∀ leaf ∈ opens, IsKind .openParen leaf)
    (closed : ∀ leaf ∈ closes, IsKind .closeParen leaf) (even : opens.length = closes.length) :
    Nests (n + opens.length) .expr (opens ++ ls ++ closes) c := by
  induction opens generalizing closes with
  | nil =>
    cases closes with
    | nil => simpa using h
    | cons right closes => cases even
  | cons left opens ih =>
    rcases closes.eq_nil_or_concat with rfl | ⟨inside, right, rfl⟩
    · cases even
    · rw [List.concat_eq_append] at closed even ⊢
      obtain ⟨first, opened⟩ := List.forall_mem_cons.1 opened
      obtain ⟨closed, last⟩ := List.forall_mem_append.1 closed
      simp only [List.length_cons, List.length_append, List.length_nil] at even
      have inner := ih opened closed (by omega)
      have group := Nests.group first inner (last right (List.mem_singleton_self _))
      simpa [Nat.add_assoc] using group.alone

/-- As many groups inside each other as are allowed, around a value that is spelled like a negation. -/
def enclosedNot : String :=
  String.ofList (List.replicate 32 '(' ++ "tag:not".toList ++ List.replicate 32 ')')

def leafOf (t : Token Kind) : Leaf Kind :=
  if h : isWord t "tag" then ⟨.word .ident "tag", t, h⟩
  else ⟨.kind t.kind, t, by simp [Grammar.Terminal.fits]⟩

theorem leafOf_token (t : Token Kind) : (leafOf t).token = t := by
  unfold leafOf
  split <;> rfl

theorem leaves_of_enclosedNot :
    ∃ ls, ls.map Leaf.token = (stream enclosedNot).tokens ∧ misheard ls = 1 ∧
      ls.map (fun leaf => (leaf.terminal, leaf.token.text)) =
        List.replicate 32 (.kind .openParen, "(") ++
          ([(.word .ident "tag", "tag"), (.kind .colon, ":"), (.kind .ident, "not")] ++
            List.replicate 32 (.kind .closeParen, ")")) := by
  refine ⟨(stream enclosedNot).tokens.map leafOf, ?_, ?_, ?_⟩
  · simp [Function.comp_def, leafOf_token]
  · decide +kernel
  · decide +kernel

theorem derivation_of_enclosedNot :
    ∃ ls, Derivation enclosedNot ls (.ready (.filter (.hasTag "not") [])) ∧ misheard ls = 1 ∧
      Written.Shallow maxNesting ls (.ready (.filter (.hasTag "not") [])) := by
  have finished : (stream enclosedNot).ending = .finished ⟨71, 1, 72, 1, 72⟩ := by decide +kernel
  obtain ⟨ls, tokens, heard, listed⟩ := leaves_of_enclosedNot
  obtain ⟨opens, others, rfl, opened, listed⟩ := List.map_eq_append_iff.1 listed
  obtain ⟨middle, closes, rfl, field, closed⟩ := List.map_eq_append_iff.1 listed
  have marks {k : Kind} {text : String} {ls : List (Leaf Kind)}
      (h : ls.map (fun leaf => (leaf.terminal, leaf.token.text)) =
        List.replicate 32 (.kind k, text)) : ls.length = 32 ∧ ∀ leaf ∈ ls, IsKind k leaf := by
    obtain ⟨length, all⟩ := List.eq_replicate_iff.1 h
    refine ⟨by simpa using length, fun leaf mem => ?_⟩
    exact congrArg Prod.fst (all _ (List.mem_map_of_mem mem))
  obtain ⟨many, opened⟩ := marks opened
  obtain ⟨many', closed⟩ := marks closed
  have simple : Predicate middle (.hasTag "not") := by
    obtain ⟨name, middle, rfl, named, field⟩ := List.map_eq_cons_iff.1 field
    obtain ⟨colon, middle, rfl, separated, field⟩ := List.map_eq_cons_iff.1 field
    obtain ⟨value, middle, rfl, sought, field⟩ := List.map_eq_cons_iff.1 field
    cases List.map_eq_nil_iff.1 field
    have text : value.token.text = "not" := congrArg Prod.snd sought
    have known : ("tag", Condition.hasTag) ∈ textFields := List.mem_cons_self
    rw [← text]
    exact .field known (congrArg Prod.fst named) (congrArg Prod.fst separated)
      (.ident (congrArg Prod.fst sought))
  have nests : Nests maxNesting .expr (opens ++ (middle ++ closes)) (.hasTag "not") := by
    have inner : Nests 0 .expr middle (.hasTag "not") := (Nests.predicate simple).alone
    have whole := nests_groups inner opened closed (many.trans many'.symm)
    rwa [many, List.append_assoc] at whole
  refine ⟨_, ⟨⟨_, finished⟩, tokens, ?_⟩, heard, _, [], by simp, .inr nests, .nil⟩
  simpa using Sentence.filter (.some nests.derives) .nil

theorem parse_enclosedNot :
    parse enclosedNot = .error (.excess (.tooDeep ⟨36, 1, 37, 1, 40⟩)) := by
  decide +kernel

theorem enclosedNot_beyond_bounds :
    ∃ ls w, Derivation enclosedNot ls w ∧
      parse enclosedNot = .error (.excess (.tooDeep ⟨36, 1, 37, 1, 40⟩)) ∧
      ¬ w.Shallow (maxNesting - misheard ls) ls := by
  obtain ⟨ls, derivation, -⟩ := derivation_of_enclosedNot
  exact ⟨ls, _, derivation, parse_enclosedNot, refused_beyond_bounds derivation parse_enclosedNot⟩

/-- A query without operators, derived within the bound on open levels, is refused as too deep. -/
theorem enclosedNot_within_bounds :
    ∃ ls w p, Derivation enclosedNot ls w ∧ w.operators = 0 ∧ w.Shallow maxNesting ls ∧
      parse enclosedNot = .error (.excess (.tooDeep p)) := by
  obtain ⟨ls, derivation, -, shallow⟩ := derivation_of_enclosedNot
  exact ⟨ls, _, _, derivation, rfl, shallow, parse_enclosedNot⟩

end Wordhoard.Query
