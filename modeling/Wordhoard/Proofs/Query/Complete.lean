import Wordhoard.Proofs.Grammar.Acceptance
import Wordhoard.Proofs.Query.Shape

/-! Whatever the documented grammar derives is found by a run: at each choice the alternatives before
the right one refuse the token, and no repetition takes a token that belongs to what comes after. -/
namespace Wordhoard.Query

open Grammar (Leaf Terminal Row Watched Accepts Refuses AcceptsRow AcceptsSeparated Avoids
  accepts_token accepts_keyword accepts_many_nil accepts_opt_none refuses_of_avoids
  refuses_of_shuns)

variable {call : (n : Name) → Cursor Kind → Watched Kind Condition} {p : Text.Position}
  {ls ms : List (Leaf Kind)} {rest : List (Token Kind)} {l : Leaf Kind}

theorem accepts_word {word : String} (h : IsWord word l) :
    Accepts call p (Reader.word word) [l] rest l.token :=
  accepts_keyword h

theorem accepts_kind {kind : Kind} (h : IsKind kind l) :
    Accepts call p (.token kind : Reader (Token Kind)) [l] rest l.token :=
  accepts_token h

theorem accepts_words {a b : String} (h : IsWord a l ∨ IsWord b l)
    (apart : (Reader.word a).shuns (.word .ident b)) :
    Accepts call p (.either (Reader.word a) (Reader.word b)) [l] rest l.token := by
  rcases h with word | word
  · exact (accepts_word word).left
  · exact (accepts_word word).right (refuses_of_shuns word apart)

theorem accepts_word_or_kind {word : String} {kind : Kind} (h : IsWord word l ∨ IsKind kind l)
    (apart : (Reader.word word).shuns (.kind kind)) :
    Accepts call p (.either (Reader.word word) (.token kind)) [l] rest l.token := by
  rcases h with word | kind
  · exact (accepts_word word).left
  · exact (accepts_kind kind).right (refuses_of_shuns kind apart)

theorem avoids_nil (ts : List (Terminal Kind)) : Avoids (.ofTokens p []) ts := nofun

theorem avoids_cons {T : Terminal Kind} (h : l.terminal = T) {ts : List (Terminal Kind)}
    (apart : ts.all T.apart) : Avoids (.ofTokens p (l.token :: rest)) ts := by
  rintro t ⟨⟩ S hS
  subst h
  exact Terminal.fits_of_apart (List.all_eq_true.1 apart S hS) l.fits

theorem refuses_of_listed {α β : Type} {table : List (String × β)} {word : String} {v : β}
    {g : Reader α} (listed : (word, v) ∈ table) (named : IsWord word l)
    (shuns : table.all fun entry => g.shuns (.word .ident entry.1)) :
    Refuses call p g (l.token :: rest) :=
  refuses_of_shuns named (List.all_eq_true.1 shuns _ listed)

def Begins (heads : List (Terminal Kind)) (ls : List (Leaf Kind)) : Prop :=
  ∃ l ms, ls = l :: ms ∧ l.terminal ∈ heads

theorem Begins.refuses {α : Type} {heads : List (Terminal Kind)} {g : Reader α}
    (h : Begins heads ls) (shuns : heads.all g.shuns) :
    Refuses call p g (ls.map Leaf.token ++ rest) := by
  obtain ⟨l, ms, rfl, mem⟩ := h
  exact refuses_of_shuns rfl (List.all_eq_true.1 shuns _ mem)

theorem accepts_text {v : String} (h : Value l v) : Accepts call p Reader.text [l] rest v := by
  cases h with
  | string literal => exact ((accepts_kind literal).map fun t => unquote t.text).left.left
  | ident bare =>
    exact (((accepts_kind bare).map Token.text).right (refuses_of_shuns bare rfl)).left
  | number digits => exact ((accepts_kind digits).map Token.text).right (refuses_of_shuns digits rfl)

theorem accepts_fieldNamed {name : Reader (Token Kind)} {colon value : Leaf Kind} {v : String}
    (named : ∀ rest, Accepts call p name [l] rest l.token) (separated : IsKind .colon colon)
    (sought : Value value v) (make : String → Condition) :
    Accepts call p (Reader.fieldNamed name make) [l, colon, value] rest (make v) :=
  (((named _).seq (accepts_kind separated)).preceded (accepts_text sought)).map make

theorem accepts_fieldCondition {colon value : Leaf Kind} {word v : String}
    {make : String → Condition} (listed : (word, make) ∈ textFields) (named : IsWord word l)
    (separated : IsKind .colon colon) (sought : Value value v) :
    Accepts call p Reader.fieldCondition [l, colon, value] rest (make v) := by
  have one {word : String} (named : IsWord word l) (make : String → Condition) :
      Accepts call p (Reader.fieldNamed (Reader.word word) make) [l, colon, value] rest (make v) :=
    accepts_fieldNamed (fun _ => accepts_word named) separated sought make
  have two {a b : String} (named : IsWord a l ∨ IsWord b l)
      (apart : (Reader.word a).shuns (.word .ident b)) (make : String → Condition) :
      Accepts call p (Reader.fieldNamed (.either (Reader.word a) (Reader.word b)) make)
        [l, colon, value] rest (make v) :=
    accepts_fieldNamed (fun _ => accepts_words named apart) separated sought make
  simp only [textFields, List.mem_cons, List.not_mem_nil, or_false, Prod.mk.injEq] at listed
  rcases listed with ⟨rfl, rfl⟩ | ⟨rfl, rfl⟩ | ⟨rfl, rfl⟩ | ⟨rfl, rfl⟩ | ⟨rfl, rfl⟩ | ⟨rfl, rfl⟩
  · exact (one named _).left.left.left
  · exact ((two (.inl named) rfl _).right (refuses_of_shuns named rfl)).left.left
  · exact ((two (.inr named) rfl _).right (refuses_of_shuns named rfl)).left.left
  · exact ((two (.inl named) rfl _).right (refuses_of_shuns named rfl)).left
  · exact ((two (.inr named) rfl _).right (refuses_of_shuns named rfl)).left
  · exact (one named _).right (refuses_of_shuns named rfl)

theorem Number.read {bound n : Nat} (h : Number bound l n) :
    Reader.decimal? bound l.token.text = some n := by
  rw [Reader.decimal?, h.value, if_pos h.fits]

theorem accepts_bound {n : Nat} (h : Number Reader.boundLimit l n) :
    Accepts call p Reader.bound [l] rest (n : Int) :=
  (accepts_kind h.digits).filterMap "number" (by rw [h.read]; rfl)

theorem accepts_count {n : Nat} (h : Number UInt64.size l n) :
    Accepts call p Reader.count [l] rest n :=
  (accepts_kind h.digits).filterMap "number" h.read

theorem accepts_comparison {symbol number : Leaf Kind} {word : String} {field : Field}
    {op : Comparison} {n : Nat} (listed : (word, field) ∈ numberFields) (named : IsWord word l)
    (compared : IsKind .compare symbol)
    (known : Comparison.ofSymbol? symbol.token.text = some op)
    (bound : Number Reader.boundLimit number n) :
    Accepts call p Reader.comparison [l, symbol, number] rest (.compare field op n) := by
  have field {rest : List (Token Kind)} :
      Accepts call p (.either (Reader.means .reviews (Reader.word "reviews"))
        (Reader.means .days (Reader.word "days"))) [l] rest field := by
    simp only [numberFields, List.mem_cons, List.not_mem_nil, or_false, Prod.mk.injEq] at listed
    rcases listed with ⟨rfl, rfl⟩ | ⟨rfl, rfl⟩
    · exact ((accepts_word named).map _).left
    · exact ((accepts_word named).map _).right (refuses_of_shuns named rfl)
  have op {rest : List (Token Kind)} :
      Accepts call p (.filterMap "comparison operator" (fun t => Comparison.ofSymbol? t.text)
        (.token .compare)) [symbol] rest op :=
    (accepts_kind compared).filterMap "comparison operator" known
  exact ((field.seq op).seq (accepts_bound bound)).map _

theorem accepts_simple {c : Condition} (h : Predicate ls c) :
    Accepts call p Reader.simple ls rest c := by
  cases h with
  | all every =>
    rcases every with star | word
    · exact ((accepts_kind star).left.map _).left.left.left.left
    · have all : Accepts call p (.either (.token .star) (Reader.word "all")) [_] rest _ :=
        (accepts_word word).right (refuses_of_shuns word rfl)
      exact (all.map _).left.left.left.left
  | reviewed word =>
    exact (((accepts_word word).map _).right (refuses_of_shuns word rfl)).left.left.left
  | tag tag => exact (((accepts_kind tag).map _).right (refuses_of_shuns tag rfl)).left.left
  | field listed named separated sought =>
    exact ((accepts_fieldCondition listed named separated sought).right
      (refuses_of_listed listed named rfl)).left
  | compare listed named compared known bound =>
    exact (accepts_comparison listed named compared known bound).right
      (refuses_of_listed listed named rfl)

theorem Predicate.begins {c : Condition} (h : Predicate ls c) : Begins predicateHeads ls := by
  cases h with
  | all every =>
    rcases every with star | word
    · exact ⟨_, _, rfl, by rw [star]; decide⟩
    · exact ⟨_, _, rfl, by rw [word]; decide⟩
  | reviewed word => exact ⟨_, _, rfl, by rw [word]; decide⟩
  | tag tag => exact ⟨_, _, rfl, by rw [tag]; decide⟩
  | field listed named _ _ =>
    have all : textFields.all fun entry => .word .ident entry.1 ∈ predicateHeads := by decide
    exact ⟨_, _, rfl, by rw [named]; exact of_decide_eq_true (List.all_eq_true.1 all _ listed)⟩
  | compare listed named _ _ _ =>
    have all : numberFields.all fun entry => .word .ident entry.1 ∈ predicateHeads := by decide
    exact ⟨_, _, rfl, by rw [named]; exact of_decide_eq_true (List.all_eq_true.1 all _ listed)⟩

theorem Derives.begins {level : Level} {c : Condition} (h : Derives level ls c) :
    Begins conditionHeads ls := by
  have prefixed : ∀ {ls ms : List (Leaf Kind)}, Begins conditionHeads ls →
      Begins conditionHeads (ls ++ ms) := by
    rintro _ ms ⟨l, ls, rfl, mem⟩
    exact ⟨l, ls ++ ms, rfl, mem⟩
  induction h with
  | expr _ _ _ ih => exact prefixed ih
  | conjunction _ _ _ ih => exact prefixed ih
  | not negation _ _ =>
    rcases negation with word | bang
    · exact ⟨_, _, rfl, by rw [word]; decide⟩
    · exact ⟨_, _, rfl, by rw [bang]; decide⟩
  | primary _ ih => exact ih
  | group opened _ _ _ => exact ⟨_, _, rfl, by rw [opened]; decide⟩
  | predicate simple =>
    obtain ⟨l, ms, rfl, mem⟩ := simple.begins
    exact ⟨l, ms, rfl, List.mem_append_right _ mem⟩

theorem length_operand_lt {links : List Link} {k : Link} (h : k ∈ links) :
    k.operand.length < (links.flatMap Link.leaves).length := by
  induction links with
  | nil => cases h
  | cons first others ih =>
    rw [List.flatMap_cons, List.length_append, Link.leaves, List.length_cons]
    rcases List.mem_cons.1 h with rfl | later
    · omega
    · have := ih later
      omega

theorem acceptsRow_links {operator : Reader (Token Kind)} {operand : Reader Condition}
    {inner : List (Terminal Kind)} (ends : Refuses call p (.preceded operator operand) rest)
    (behind : Avoids (.ofTokens p rest) inner) (links : List Link)
    (operators : ∀ k ∈ links, (∀ rest, Accepts call p operator [k.operator] rest k.operator.token) ∧
      ∀ rest, Avoids (.ofTokens p (k.operator.token :: rest)) inner)
    (operands : ∀ k ∈ links, ∀ rest, Avoids (.ofTokens p rest) inner →
      Accepts call p operand k.operand rest k.value) :
    AcceptsRow call p (.preceded operator operand) (links.flatMap Link.leaves) rest
        (links.map Link.value) ∧
      Avoids (.ofTokens p ((links.flatMap Link.leaves).map Leaf.token ++ rest)) inner := by
  induction links with
  | nil => exact ⟨.nil ends, behind⟩
  | cons k others ih =>
    obtain ⟨row, avoids⟩ := ih (fun k hk => operators k (List.mem_cons_of_mem _ hk))
      (fun k hk => operands k (List.mem_cons_of_mem _ hk))
    obtain ⟨taken, apart⟩ := operators k List.mem_cons_self
    have first := (taken _).preceded (operands k List.mem_cons_self _ avoids)
    exact ⟨.cons first (List.cons_ne_nil _ _) row, apart _⟩

theorem accepts_chain {join : Condition → Condition → Condition} {operator : Reader (Token Kind)}
    {operand : Reader Condition} {inner : List (Terminal Kind)} {c : Condition}
    (first : ∀ rest, Avoids (.ofTokens p rest) inner → Accepts call p operand ls rest c)
    (ends : Refuses call p (.preceded operator operand) rest)
    (behind : Avoids (.ofTokens p rest) inner) (links : List Link)
    (operators : ∀ k ∈ links, (∀ rest, Accepts call p operator [k.operator] rest k.operator.token) ∧
      ∀ rest, Avoids (.ofTokens p (k.operator.token :: rest)) inner)
    (operands : ∀ k ∈ links, ∀ rest, Avoids (.ofTokens p rest) inner →
      Accepts call p operand k.operand rest k.value) :
    Accepts call p (Reader.chain join operator operand) (ls ++ links.flatMap Link.leaves) rest
      (chained join c links) := by
  obtain ⟨row, avoids⟩ := acceptsRow_links ends behind links operators operands
  exact ((first _ avoids).seq row.many).map _

def Level.reader : Level → Reader Condition
  | expr => Reader.condition
  | conjunction => Reader.conjunction
  | unary => Reader.unary
  | primary => Reader.unary

/-- The terminals that would be taken after a level, so that none of them can follow. -/
def Level.stops : Level → List (Terminal Kind)
  | expr => [.word .ident "or", .word .ident "and", .kind .amp]
  | conjunction => [.word .ident "and", .kind .amp]
  | unary => []
  | primary => []

/-- How much less depth than twice its leaves a level needs. -/
def Level.slack : Level → Nat
  | expr => 1
  | conjunction => 1
  | unary => 2
  | primary => 2

theorem accepts_call {depth : Nat} {n : Name} {c : Condition}
    (h : Accepts (Reader.named.watchCall depth) p (Reader.named.body n) ls rest c) :
    Accepts (Reader.named.watchCall (depth + 1)) p (.named n) ls rest c :=
  h

theorem accepts_derives {level : Level} {c : Condition} (h : Derives level ls c) (depth : Nat)
    (rest : List (Token Kind)) (enough : 2 * ls.length ≤ depth + level.slack)
    (stops : Avoids (.ofTokens p rest) level.stops) :
    Accepts (Reader.named.watchCall depth) p level.reader ls rest c := by
  induction h generalizing depth rest with
  | @expr ls c links first operators operands ihfirst ihoperands =>
    simp only [List.length_append, Level.slack] at enough ihfirst ihoperands
    refine accepts_chain (fun rest avoids => ihfirst depth rest (by omega) avoids)
      (refuses_of_avoids rfl fun t ht T hT => stops t ht T ?_)
      (fun t ht T hT => stops t ht T (List.mem_cons_of_mem _ hT)) links
      (fun k hk => ⟨fun rest => accepts_word (operators k hk), fun rest =>
        avoids_cons (operators k hk) rfl⟩)
      (fun k hk rest avoids => ihoperands k hk depth rest ?_ avoids)
    · rw [List.mem_singleton.1 hT]
      exact List.mem_cons_self
    · have := length_operand_lt hk
      omega
  | @conjunction ls c links first operators operands ihfirst ihoperands =>
    simp only [List.length_append, Level.slack] at enough ihfirst ihoperands
    have some_leaf := List.length_pos_iff.2 (ne_nil_of_derives first)
    obtain ⟨depth, rfl⟩ := Nat.exists_eq_add_one.2 (show 0 < depth by omega)
    refine accepts_chain (fun rest avoids => accepts_call (n := .unary)
        (ihfirst depth rest (by omega) avoids))
      (refuses_of_avoids rfl stops) (fun _ _ _ hT => nomatch hT) links
      (fun k hk => ⟨fun rest => accepts_word_or_kind (operators k hk) rfl, fun _ _ _ _ hT =>
        nomatch hT⟩)
      (fun k hk rest avoids => accepts_call (n := .unary) (ihoperands k hk depth rest ?_ avoids))
    have := length_operand_lt hk
    omega
  | not negation inner ih =>
    simp only [List.length_cons, Level.slack] at enough ih
    have some_leaf := List.length_pos_iff.2 (ne_nil_of_derives inner)
    obtain ⟨depth, rfl⟩ := Nat.exists_eq_add_one.2 (show 0 < depth by omega)
    have called := accepts_call (n := .unary) (ih depth rest (by omega) stops)
    exact (((accepts_word_or_kind negation rfl).preceded called).map Condition.not).left
  | primary inner ih => exact ih depth rest enough stops
  | @group l r ls c opened inner closed ih =>
    simp only [List.length_append, List.length_cons, List.length_nil, Level.slack] at enough ih
    have some_leaf := List.length_pos_iff.2 (ne_nil_of_derives inner)
    obtain ⟨depth, rfl⟩ := Nat.exists_eq_add_one.2 (show 0 < depth by omega)
    have called := accepts_call (n := .condition) (ih depth (r.token :: rest) (by omega)
      (avoids_cons closed rfl))
    have group := ((accepts_kind opened).seq called).seq (accepts_kind closed)
    exact ((group.map _).left).right (refuses_of_shuns opened rfl)
  | predicate simple =>
    exact ((accepts_simple simple).right (simple.begins.refuses rfl)).right
      (simple.begins.refuses rfl)

theorem refuses_condition {depth : Nat} (enough : 0 < depth)
    (avoids : Avoids (.ofTokens p rest) conditionHeads) :
    Refuses (Reader.named.watchCall depth) p Reader.condition rest := by
  obtain ⟨depth, rfl⟩ := Nat.exists_eq_add_one.2 enough
  refine Grammar.refused_of_avoids (fun n ts begins avoids => ?_) _ heads_condition avoids
  cases n with
  | condition => cases begins
  | unary =>
    cases begins
    exact refuses_of_avoids (p := p) heads_unary avoids

theorem accepts_counted {word : String} {make : Nat → Step} {open_ number close : Leaf Kind}
    {n : Nat} (named : IsWord word l) (opened : IsKind .openParen open_)
    (count : Number UInt64.size number n) (closed : IsKind .closeParen close) :
    Accepts call p (Reader.counted word make) [l, open_, number, close] rest (make n) :=
  ((((accepts_word named).seq (accepts_kind opened)).seq (accepts_count count)).seq
    (accepts_kind closed)).map _

theorem accepts_sortKey {word : String} {k : SortKey} (listed : (word, k) ∈ sortKeys)
    (named : IsWord word l) : Accepts call p Reader.sortKey [l] rest k := by
  have key {rest : List (Token Kind)} : Accepts call p (Reader.means k (Reader.word word)) [l] rest k :=
    (accepts_word named).map _
  simp only [sortKeys, List.mem_cons, List.not_mem_nil, or_false, Prod.mk.injEq] at listed
  rcases listed with ⟨rfl, rfl⟩ | ⟨rfl, rfl⟩ | ⟨rfl, rfl⟩ | ⟨rfl, rfl⟩
  · exact key.left.left.left
  · exact (key.right (refuses_of_shuns named rfl)).left.left
  · exact (key.right (refuses_of_shuns named rfl)).left
  · exact key.right (refuses_of_shuns named rfl)

theorem accepts_direction {word : String} {d : Direction} (listed : (word, d) ∈ directions)
    (named : IsWord word l) : Accepts call p Reader.direction [l] rest d := by
  have direction {rest : List (Token Kind)} :
      Accepts call p (Reader.means d (Reader.word word)) [l] rest d :=
    (accepts_word named).map _
  simp only [directions, List.mem_cons, List.not_mem_nil, or_false, Prod.mk.injEq] at listed
  rcases listed with ⟨rfl, rfl⟩ | ⟨rfl, rfl⟩
  · exact direction.left
  · exact direction.right (refuses_of_shuns named rfl)

theorem accepts_order {d : Direction} {close : Leaf Kind} (h : Order ls d)
    (closed : IsKind .closeParen close) :
    ∃ given : Option Direction, d = given.getD .ascending ∧
      ∀ call : (n : Name) → Cursor Kind → Watched Kind Condition,
        Accepts call p (.opt (.preceded (.token .comma) Reader.direction)) ls (close.token :: rest)
          given := by
  cases h with
  | none => exact ⟨none, rfl, fun _ => accepts_opt_none (refuses_of_shuns closed rfl)⟩
  | some separated listed named =>
    exact ⟨some d, rfl, fun _ =>
      ((accepts_kind separated).preceded (accepts_direction listed named)).opt⟩

theorem accepts_sort {key close open_ : Leaf Kind} {order : List (Leaf Kind)} {word : String}
    {k : SortKey} {d : Direction} (named : IsWord "sort" l) (opened : IsKind .openParen open_)
    (listed : (word, k) ∈ sortKeys) (keyed : IsWord word key) (directed : Order order d)
    (closed : IsKind .closeParen close) :
    Accepts call p Reader.sort (l :: open_ :: key :: order ++ [close]) rest (.sort k d) := by
  obtain ⟨given, rfl, taken⟩ := accepts_order directed closed
  exact (((((accepts_word named).seq (accepts_kind opened)).seq (accepts_sortKey listed keyed)).seq
    (taken call)).seq (accepts_kind closed)).map _

theorem accepts_bare {word : String} {s : Step} (named : IsWord word l) (empty : EmptyParens ls)
    (behind : Avoids (.ofTokens p rest) [.kind .openParen]) :
    Accepts call p (Reader.means s (.seq (Reader.word word) (.opt Reader.emptyParens))) (l :: ls)
      rest s := by
  have parens : ∃ given, Accepts call p (.opt Reader.emptyParens) ls rest given := by
    cases empty with
    | none => exact ⟨none, accepts_opt_none (refuses_of_avoids rfl behind)⟩
    | some opened closed =>
      exact ⟨some (), (((accepts_kind opened).seq (accepts_kind closed)).map _).opt⟩
  obtain ⟨given, taken⟩ := parens
  exact ((accepts_word named).seq taken).map _

theorem accepts_step {s : Step} (h : StepOf ls s)
    (behind : Avoids (.ofTokens p rest) [.kind .openParen]) :
    Accepts call p Reader.step ls rest s := by
  cases h with
  | counted listed named opened count closed =>
    simp only [countedSteps, List.mem_cons, List.not_mem_nil, or_false, Prod.mk.injEq] at listed
    rcases listed with ⟨rfl, rfl⟩ | ⟨rfl, rfl⟩
    · exact (accepts_counted named opened count closed).left.left.left.left
    · exact ((accepts_counted named opened count closed).right
        (refuses_of_shuns named rfl)).left.left.left
  | sort named opened listed keyed directed closed =>
    exact ((accepts_sort named opened listed keyed directed closed).right
      (refuses_of_shuns named rfl)).left.left
  | bare listed named empty =>
    simp only [bareSteps, List.mem_cons, List.not_mem_nil, or_false, Prod.mk.injEq] at listed
    rcases listed with ⟨rfl, rfl⟩ | ⟨rfl, rfl⟩
    · exact ((accepts_bare named empty behind).right (refuses_of_shuns named rfl)).left
    · exact (accepts_bare named empty behind).right (refuses_of_shuns named rfl)

theorem acceptsRow_steps {steps : List Step} (h : Row PipedStep ls steps) :
    AcceptsRow call p (.preceded (.token .pipe) Reader.step) ls [] steps ∧
      ∀ ts : List (Terminal Kind), ts.all (Terminal.kind Kind.pipe).apart →
        Avoids (.ofTokens p (ls.map Leaf.token ++ [])) ts := by
  induction h with
  | nil => exact ⟨.nil (refuses_of_avoids rfl (avoids_nil _)), fun ts _ => avoids_nil ts⟩
  | cons first others ih =>
    obtain ⟨bar, ms, rfl, isBar, step⟩ := first
    have step : Accepts call p Reader.step ms _ _ := accepts_step step (ih.2 _ rfl)
    have turn := (accepts_kind isBar).preceded step
    exact ⟨.cons turn (List.cons_ne_nil _ _) ih.1, fun ts apart => avoids_cons isBar apart⟩

theorem acceptsRow_tags (h : ∀ l ∈ ls, IsKind .tag l)
    (behind : Avoids (.ofTokens p rest) [.kind .tag]) :
    AcceptsRow call p (.token .tag) ls rest (ls.map Leaf.token) := by
  induction ls with
  | nil => exact .nil (refuses_of_avoids rfl behind)
  | cons l others ih =>
    exact .cons (accepts_kind (h l List.mem_cons_self)) (List.cons_ne_nil _ _)
      (ih fun k hk => h k (List.mem_cons_of_mem _ hk))

theorem accepts_draft {e : Entry} (h : e.Proper)
    (behind : Avoids (.ofTokens p rest) [.kind .string, .kind .tag]) :
    Accepts call p Reader.draft e.leaves rest e.draft := by
  obtain ⟨content, description, tags⟩ := e
  have row : AcceptsRow call p (.token .tag) tags rest (tags.map Leaf.token) :=
    acceptsRow_tags h.tags fun t ht T hT => behind t ht T (List.mem_cons_of_mem _ hT)
  have described : Accepts call p (.opt (.token .string)) description.toList
      (tags.map Leaf.token ++ rest) (description.map Leaf.token) := by
    cases description with
    | some l => exact (accepts_kind (h.description l rfl)).opt
    | none =>
      refine accepts_opt_none (refuses_of_avoids rfl ?_)
      cases tags with
      | nil =>
        intro t ht T hT
        rw [List.mem_singleton.1 hT]
        exact behind t ht _ List.mem_cons_self
      | cons l others => exact avoids_cons (h.tags l List.mem_cons_self) rfl
  have taken := ((accepts_kind h.content).seq described).seq row.many
  have same : Entry.draft ⟨content, description, tags⟩ =
      ⟨unquote content.token.text, content.token.position,
        (description.map Leaf.token).elim "" (unquote ·.text),
        (tags.map Leaf.token).map tagName⟩ := by
    cases description <;> simp [Entry.draft, Function.comp_def]
  rw [same]
  exact taken.map _

theorem acceptsSeparated_entries {entries : List Entry} {finish : Option (Leaf Kind)}
    (h : Row FurtherEntry ls entries) (finished : ∀ l ∈ finish, IsKind .semicolon l) :
    AcceptsSeparated call p Reader.draft (.token .semicolon) ls (finish.toList.map Leaf.token)
        (entries.map Entry.draft) ∧
      Avoids (.ofTokens p (ls.map Leaf.token ++ finish.toList.map Leaf.token))
        [.kind .string, .kind .tag] := by
  induction h with
  | nil =>
    cases finish with
    | none => exact ⟨.nil (refuses_of_avoids rfl (avoids_nil _)), avoids_nil _⟩
    | some l =>
      have closed := finished l rfl
      have nothing : Refuses call p Reader.draft [] := refuses_of_avoids rfl (avoids_nil _)
      exact ⟨.given_back (accepts_kind closed) nothing, avoids_cons closed rfl⟩
  | cons first others ih =>
    obtain ⟨separator, rfl, separated, proper⟩ := first
    exact ⟨.cons (accepts_kind separated) (accepts_draft proper ih.2) ih.1,
      avoids_cons separated rfl⟩

theorem accepts_insert {start : Leaf Kind} {first : Entry} {entries : List Entry}
    {finish : Option (Leaf Kind)} (begun : IsWord "insert" start ∨ IsKind .plus start)
    (proper : first.Proper) (further : Row FurtherEntry ls entries)
    (finished : ∀ l ∈ finish, IsKind .semicolon l) :
    Accepts call p Reader.insert (start :: (first.leaves ++ ls ++ finish.toList)) []
      (Written.insert (first :: entries)).command := by
  have others : AcceptsSeparated call p Reader.draft (.token .semicolon) ls _ _ ∧ _ :=
    acceptsSeparated_entries further finished
  have drafts := (accepts_draft proper others.2).sepBy1 others.1
  have closed : ∃ given, Accepts call p (.opt (.token .semicolon)) finish.toList [] given := by
    cases finish with
    | none => exact ⟨none, accepts_opt_none (refuses_of_avoids rfl (avoids_nil _))⟩
    | some l => exact ⟨some l.token, (accepts_kind (finished l rfl)).opt⟩
  obtain ⟨given, closed⟩ := closed
  have drafts : Accepts call p (.sepBy1 Reader.draft (.token .semicolon)) (first.leaves ++ ls)
      (finish.toList.map Leaf.token ++ []) ((first :: entries).map Entry.draft) := by
    simpa using drafts
  exact (((accepts_word_or_kind begun rfl).seq drafts).seq closed).map _

theorem accepts_filter {depth : Nat} {c : Condition} {steps : List Step} (selected : Selection ls c)
    (piped : Row PipedStep ms steps) (enough : 2 * ls.length < depth) :
    Accepts (Reader.named.watchCall depth) p Reader.filter (ls ++ ms) []
      (.ready (.filter c steps)) := by
  obtain ⟨row, avoids⟩ : AcceptsRow (Reader.named.watchCall depth) p _ ms [] steps ∧ _ :=
    acceptsRow_steps piped
  cases selected with
  | none =>
    have refused : Refuses (Reader.named.watchCall depth) p Reader.condition _ :=
      refuses_condition (Nat.zero_lt_of_lt enough) (avoids conditionHeads rfl)
    exact ((accepts_opt_none refused).seq row.many).map _
  | some condition =>
    have taken := accepts_derives condition depth _ (by simp only [Level.slack]; omega)
      (avoids Level.expr.stops rfl)
    exact (taken.opt.seq row.many).map _

theorem refuses_of_filter {α : Type} {g : Reader α} {c : Condition} {steps : List Step}
    (selected : Selection ls c) (piped : Row PipedStep ms steps)
    (shuns : (.kind .pipe :: conditionHeads).all g.shuns) :
    Refuses call p g ((ls ++ ms).map Leaf.token ++ []) := by
  rw [List.all_cons, Bool.and_eq_true] at shuns
  cases selected with
  | none =>
    cases piped with
    | nil =>
      obtain ⟨ts, begins, _⟩ := (Option.any_eq_true _ _).1 shuns.1
      exact refuses_of_avoids begins (avoids_nil ts)
    | cons first _ =>
      obtain ⟨bar, ms, rfl, isBar, _⟩ := first
      exact refuses_of_shuns isBar shuns.1
  | some condition =>
    rw [List.map_append, List.append_assoc]
    exact condition.begins.refuses shuns.2

theorem accepts_sentence {depth : Nat} {w : Written} (h : Sentence ls w)
    (enough : 2 * ls.length < depth) :
    Accepts (Reader.named.watchCall depth) p Reader.command ls [] w.command := by
  cases h with
  | insert begun proper further finished =>
    exact (accepts_insert begun proper further finished).left.left.left
  | session word =>
    exact (((accepts_word word).map _).right (refuses_of_shuns word rfl)).left.left
  | dump word =>
    refine (((accepts_words word rfl).map _).right ?_).left
    rcases word with word | word
    · exact refuses_of_shuns word rfl
    · exact refuses_of_shuns word rfl
  | filter selected piped =>
    rw [List.length_append] at enough
    exact (accepts_filter selected piped (by omega)).right (refuses_of_filter selected piped rfl)

end Wordhoard.Query
