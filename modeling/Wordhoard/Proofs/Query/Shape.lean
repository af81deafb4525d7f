import Wordhoard.Proofs.Grammar.Ending
import Wordhoard.Proofs.Query.Sound

/-! The shape of the grammar of queries: every derivation that was begun can be finished, calls that
take no token can be ranked, and a condition begins with one of a few terminals. -/
namespace Wordhoard.Query

open Grammar (Leaf Terminal Plain Productive Moves Opens Means heads productive_token
  productive_keyword productive_many productive_opt)

theorem productive_unary : Productive Reads (Grammar.named .unary) := by
  obtain ⟨l, star⟩ := Grammar.exists_leaf (.kind Kind.star)
  exact ⟨[l], .all, .primary (.predicate (.all (.inl star)))⟩

theorem productive_condition : Productive Reads (Grammar.named .condition) := by
  obtain ⟨ls, c, derived⟩ := productive_unary
  exact ⟨ls, c, Derives.lone_conjunction (Derives.lone_operand derived)⟩

theorem plain_reading {β : Type} (description : String) (f : Token Kind → Option β) (kind : Kind)
    (described : description = TokenKind.describe kind) (text : String) (v : β)
    (read : ∀ p, f ⟨kind, text, p, true⟩ = some v) :
    Plain Reads (.filterMap description f (.token kind) : Reader β) :=
  have fits : (Terminal.kind kind).fits ⟨kind, text, Text.Mark.start.position, true⟩ = true := by
    simp [Terminal.fits]
  ⟨described, [⟨.kind kind, _, fits⟩], v, _, ⟨_, rfl, rfl, rfl⟩, read _⟩

theorem decimal?_zero {bound : Nat} (h : 0 < bound) : Reader.decimal? bound "0" = some 0 := by
  have zero : Text.decimal "0".toList = 0 := by decide
  rw [Reader.decimal?, zero, if_pos h]

theorem plain_bound : Plain Reads Reader.bound :=
  plain_reading _ _ .number rfl "0" 0 fun _ => by rw [decimal?_zero (by decide)]; rfl

theorem plain_count : Plain Reads Reader.count :=
  plain_reading _ _ .number rfl "0" 0 fun _ => decimal?_zero (by decide)

theorem plain_text : Plain Reads Reader.text := ⟨⟨trivial, trivial⟩, trivial⟩

theorem plain_fieldNamed {name : Reader (Token Kind)} (h : Plain Reads name)
    (make : String → Condition) : Plain Reads (Reader.fieldNamed name make) :=
  ⟨⟨h, trivial, productive_token _⟩, plain_text, (productive_token _).map _ |>.left.left⟩

theorem plain_word (word : String) : Plain Reads (Reader.word word) := trivial

theorem plain_words (a b : String) : Plain Reads (.either (Reader.word a) (Reader.word b)) :=
  ⟨plain_word a, plain_word b⟩

theorem plain_fieldCondition : Plain Reads Reader.fieldCondition :=
  ⟨⟨⟨plain_fieldNamed (plain_word _) _, plain_fieldNamed (plain_words _ _) _⟩,
    plain_fieldNamed (plain_words _ _) _⟩, plain_fieldNamed (plain_word _) _⟩

theorem plain_comparison : Plain Reads Reader.comparison := by
  have symbol := plain_reading "comparison operator" (fun t => Comparison.ofSymbol? t.text) .compare
    rfl "=" .eq fun _ => rfl
  exact ⟨⟨⟨trivial, trivial⟩, symbol, symbol.2⟩, plain_bound, plain_bound.2⟩

theorem plain_simple : Plain Reads Reader.simple :=
  ⟨⟨⟨⟨⟨trivial, trivial⟩, trivial⟩, trivial⟩, plain_fieldCondition⟩, plain_comparison⟩

theorem plain_unary : Plain Reads Reader.unary :=
  ⟨⟨⟨trivial, trivial⟩, trivial, productive_unary⟩,
    ⟨⟨trivial, trivial, productive_condition⟩, trivial, productive_token _⟩, plain_simple⟩

theorem plain_chain {join : Condition → Condition → Condition} {operator : Reader (Token Kind)}
    {operand : Reader Condition} (hoperator : Plain Reads operator) (hoperand : Plain Reads operand)
    (productive : Productive Reads operand) : Plain Reads (Reader.chain join operator operand) :=
  ⟨hoperand, ⟨⟨hoperator, hoperand, productive⟩, rfl⟩, productive_many _ _⟩

theorem plain_conjunction : Plain Reads Reader.conjunction :=
  plain_chain ⟨trivial, trivial⟩ trivial productive_unary

theorem plain_condition : Plain Reads Reader.condition :=
  plain_chain trivial plain_conjunction ((productive_unary.seq (productive_many _ _)).map _)

theorem plain_named (n : Name) : Plain Reads (Reader.named.body n) :=
  match n with
  | .condition => plain_condition
  | .unary => plain_unary

theorem plain_counted (word : String) (make : Nat → Step) :
    Plain Reads (Reader.counted word make) :=
  ⟨⟨⟨trivial, trivial, productive_token _⟩, plain_count, plain_count.2⟩, trivial,
    productive_token _⟩

theorem plain_sort : Plain Reads Reader.sort :=
  have key : Productive Reads Reader.sortKey := (productive_keyword _ _).map _ |>.left.left.left
  have direction : Productive Reads Reader.direction := (productive_keyword _ _).map _ |>.left
  ⟨⟨⟨⟨trivial, trivial, productive_token _⟩, ⟨⟨⟨trivial, trivial⟩, trivial⟩, trivial⟩, key⟩,
    ⟨⟨trivial, ⟨trivial, trivial⟩, direction⟩, rfl⟩, productive_opt _⟩, trivial,
    productive_token _⟩

theorem plain_bare (word : String) (step : Step) :
    Plain Reads (Reader.means step (.seq (Reader.word word) (.opt Reader.emptyParens))) :=
  ⟨trivial, ⟨⟨trivial, trivial, productive_token _⟩, rfl⟩, productive_opt _⟩

theorem plain_step : Plain Reads Reader.step :=
  ⟨⟨⟨⟨plain_counted _ _, plain_counted _ _⟩, plain_sort⟩, plain_bare _ _⟩, plain_bare _ _⟩

theorem productive_step : Productive Reads Reader.step :=
  ((((productive_keyword _ _).seq (productive_token _)).seq plain_count.2).seq
    (productive_token _)).map _ |>.left.left.left.left

theorem plain_draft : Plain Reads Reader.draft :=
  ⟨⟨trivial, ⟨trivial, rfl⟩, productive_opt _⟩, ⟨trivial, rfl⟩, productive_many _ _⟩

theorem productive_draft : Productive Reads Reader.draft :=
  (((productive_token _).seq (productive_opt _)).seq (productive_many _ _)).map _

theorem plain_insert : Plain Reads Reader.insert :=
  have drafts : Productive Reads (.sepBy1 Reader.draft (.token .semicolon)) := by
    obtain ⟨ls, d, derived⟩ := productive_draft
    exact ⟨ls ++ [], [d], ls, [], d, [], rfl, rfl, derived, .nil⟩
  ⟨⟨⟨trivial, trivial⟩, ⟨plain_draft, trivial, productive_draft⟩, drafts⟩, ⟨trivial, rfl⟩,
    productive_opt _⟩

theorem plain_filter : Plain Reads Reader.filter :=
  ⟨⟨plain_condition, rfl⟩, ⟨⟨trivial, plain_step, productive_step⟩, rfl⟩, productive_many _ _⟩

theorem plain_command : Plain Reads Reader.command :=
  ⟨⟨⟨plain_insert, plain_word _⟩, plain_words _ _⟩, plain_filter⟩

def rank : Name → Nat
  | .unary => 0
  | .condition => 1

def predicateHeads : List (Terminal Kind) :=
  [.kind .star, .word .ident "all", .word .ident "reviewed", .kind .tag, .word .ident "tag",
    .word .ident "word", .word .ident "content", .word .ident "desc",
    .word .ident "description", .word .ident "text", .word .ident "reviews", .word .ident "days"]

def conditionHeads : List (Terminal Kind) :=
  [.word .ident "not", .kind .bang, .kind .openParen] ++ predicateHeads

/-- What a call begins with that takes no token before: only operands are called so. -/
def firsts : Name → Option (List (Terminal Kind))
  | .unary => some conditionHeads
  | .condition => none

theorem heads_unary : heads (fun _ => none) Reader.unary = some conditionHeads := rfl

theorem heads_condition : heads firsts Reader.condition = some conditionHeads := rfl

theorem not_opens_unary (n : Name) : ¬ Opens firsts n Reader.unary := by
  simp [Opens, heads, Reader.unary, Reader.group, Reader.simple, Reader.fieldCondition,
    Reader.fieldNamed, Reader.comparison, Reader.bound, Reader.text, Reader.oneOf, Reader.means,
    Reader.word, Grammar.preceded]

theorem opens_condition {n : Name} (h : Opens firsts n Reader.condition) : n = .unary := by
  simpa [Opens, heads, Reader.condition, Reader.conjunction, Reader.chain, Reader.word,
    Grammar.preceded, eq_comm] using h

theorem moves_condition : Moves firsts Reader.condition := by
  simp [Moves, Reader.condition, Reader.conjunction, Reader.chain, Reader.word, Grammar.preceded]

theorem moves_named (n : Name) : Moves firsts (Reader.named.body n) := by
  cases n with
  | condition => exact moves_condition
  | unary =>
    simp [Moves, Reader.named, Reader.unary, Reader.group, Reader.simple, Reader.fieldCondition,
      Reader.fieldNamed, Reader.comparison, Reader.bound, Reader.text, Reader.oneOf, Reader.means,
      Reader.word, Grammar.preceded]

theorem moves_step : Moves firsts Reader.step := by
  simp [Moves, Reader.step, Reader.counted, Reader.count, Reader.sort, Reader.sortKey,
    Reader.direction, Reader.emptyParens, Reader.oneOf, Reader.means, Reader.word, Grammar.opt,
    Grammar.preceded]

theorem moves_insert : Moves firsts Reader.insert := by
  simp [Moves, heads, Reader.insert, Reader.draft, Reader.word, Grammar.opt]

theorem moves_command : Moves firsts Reader.command := by
  have filter : Moves firsts Reader.filter :=
    ⟨moves_condition, trivial, moves_step⟩
  simp [Moves, filter, moves_insert, Reader.command, Reader.oneOf, Reader.means, Reader.word]

theorem ranked (n m : Name) (h : Opens firsts m (Reader.named.body n)) : rank m < rank n := by
  cases n with
  | condition => rw [opens_condition h]; decide
  | unary => exact absurd h (not_opens_unary m)

theorem ne_nil_of_derives {level : Level} {ls : List (Leaf Kind)} {c : Condition}
    (h : Derives level ls c) : ls ≠ [] := by
  induction h with
  | expr _ _ _ ih => exact List.append_ne_nil_of_left_ne_nil ih _
  | conjunction _ _ _ ih => exact List.append_ne_nil_of_left_ne_nil ih _
  | not => exact List.cons_ne_nil _ _
  | primary _ ih => exact ih
  | group => exact List.cons_ne_nil _ _
  | predicate simple => cases simple <;> exact List.cons_ne_nil _ _

theorem ne_nil_of_reads (n : Name) (ls : List (Leaf Kind)) (c : Condition) (h : Reads n ls c) :
    ls ≠ [] := by
  cases n with
  | condition => exact ne_nil_of_derives h
  | unary => exact ne_nil_of_derives h

theorem watch_command_ne_endless (c : Cursor Kind) :
    (Grammar.watch (Reader.named.watchCall (Reader.named.depth c)) Reader.command c).verdict ≠
      .endless :=
  Grammar.watch_call_ne_endless sound_named plain_named moves_named ne_nil_of_reads ranked
    (fun n => by cases n <;> decide) Reader.command plain_command moves_command c

end Wordhoard.Query
