import Wordhoard.Proofs.Query.Derivation

/-! The grammar that runs derives nothing but what is documented. -/
namespace Wordhoard.Query

open Grammar (Leaf Row Means means_opt)

def Reads : Name → List (Leaf Kind) → Condition → Prop
  | .condition => Derives .expr
  | .unary => Derives .unary

variable {α β : Type} {ls : List (Leaf Kind)}

theorem means_word {word : String} {t : Token Kind} (h : Means Reads (Reader.word word) ls t) :
    ∃ l, ls = [l] ∧ IsWord word l := by
  obtain ⟨l, rfl, terminal, -⟩ := h
  exact ⟨l, rfl, terminal⟩

theorem means_kind {kind : Kind} {t : Token Kind}
    (h : Means Reads (Grammar.token kind : Reader (Token Kind)) ls t) :
    ∃ l, ls = [l] ∧ IsKind kind l ∧ l.token = t := h

theorem means_words {a b : String} {t : Token Kind}
    (h : Means Reads (.either (Reader.word a) (Reader.word b)) ls t) :
    ∃ l, ls = [l] ∧ (IsWord a l ∨ IsWord b l) := by
  rcases h with h | h
  · obtain ⟨l, rfl, word⟩ := means_word h
    exact ⟨l, rfl, .inl word⟩
  · obtain ⟨l, rfl, word⟩ := means_word h
    exact ⟨l, rfl, .inr word⟩

theorem means_word_or_kind {word : String} {kind : Kind} {t : Token Kind}
    (h : Means Reads (.either (Reader.word word) (.token kind)) ls t) :
    ∃ l, ls = [l] ∧ (IsWord word l ∨ IsKind kind l) := by
  rcases h with h | h
  · obtain ⟨l, rfl, named⟩ := means_word h
    exact ⟨l, rfl, .inl named⟩
  · obtain ⟨l, rfl, kind, -⟩ := means_kind h
    exact ⟨l, rfl, .inr kind⟩

theorem means_preceded {g : Reader α} {g' : Reader β} {v : β}
    (h : Means Reads (.preceded g g') ls v) :
    ∃ ms ns a, ls = ms ++ ns ∧ Means Reads g ms a ∧ Means Reads g' ns v := by
  obtain ⟨⟨a, b⟩, ⟨ms, ns, rfl, first, second⟩, rfl⟩ := h
  exact ⟨ms, ns, a, rfl, first, second⟩

theorem sound_text {v : String} (h : Means Reads Reader.text ls v) :
    ∃ l, ls = [l] ∧ Value l v := by
  rcases h with (⟨t, h, rfl⟩ | ⟨t, h, rfl⟩) | ⟨t, h, rfl⟩
  · obtain ⟨l, rfl, literal, rfl⟩ := means_kind h
    exact ⟨l, rfl, .string literal⟩
  · obtain ⟨l, rfl, bare, rfl⟩ := means_kind h
    exact ⟨l, rfl, .ident bare⟩
  · obtain ⟨l, rfl, digits, rfl⟩ := means_kind h
    exact ⟨l, rfl, .number digits⟩

theorem sound_fieldNamed {name : Reader (Token Kind)} {make : String → Condition} {c : Condition}
    (named : ∀ ms t, Means Reads name ms t →
      ∃ l word, ms = [l] ∧ IsWord word l ∧ (word, make) ∈ textFields)
    (h : Means Reads (Reader.fieldNamed name make) ls c) : Predicate ls c := by
  obtain ⟨v, h, rfl⟩ := h
  obtain ⟨ms, ns, ⟨t, u⟩, rfl, ⟨ks, ks', rfl, hname, hcolon⟩, htext⟩ := means_preceded h
  obtain ⟨l, word, rfl, isWord, listed⟩ := named _ _ hname
  obtain ⟨colon, rfl, separated, -⟩ := means_kind hcolon
  obtain ⟨value, rfl, sought⟩ := sound_text htext
  exact .field listed isWord separated sought

theorem sound_fieldCondition {c : Condition} (h : Means Reads Reader.fieldCondition ls c) :
    Predicate ls c := by
  have one : ∀ {word : String} {make : String → Condition}, (word, make) ∈ textFields →
      ∀ ms t, Means Reads (Reader.word word) ms t →
        ∃ l word, ms = [l] ∧ IsWord word l ∧ (word, make) ∈ textFields := by
    intro word make listed ms t h
    obtain ⟨l, rfl, isWord⟩ := means_word h
    exact ⟨l, word, rfl, isWord, listed⟩
  have two : ∀ {a b : String} {make : String → Condition}, (a, make) ∈ textFields →
      (b, make) ∈ textFields → ∀ ms t, Means Reads (.either (Reader.word a) (Reader.word b)) ms t →
        ∃ l word, ms = [l] ∧ IsWord word l ∧ (word, make) ∈ textFields := by
    intro a b make ha hb ms t h
    exact h.elim (one ha ms t) (one hb ms t)
  rcases h with ((h | h) | h) | h
  · exact sound_fieldNamed (one (by simp [textFields])) h
  · exact sound_fieldNamed (two (by simp [textFields]) (by simp [textFields])) h
  · exact sound_fieldNamed (two (by simp [textFields]) (by simp [textFields])) h
  · exact sound_fieldNamed (one (by simp [textFields])) h

theorem decimal?_eq_some {bound n : Nat} {digits : String}
    (h : Reader.decimal? bound digits = some n) :
    Text.decimal digits.toList = n ∧ n < bound := by
  simp only [Reader.decimal?] at h
  split at h
  · rename_i fits
    cases h
    exact ⟨rfl, fits⟩
  · cases h

theorem sound_bound {n : Int} (h : Means Reads Reader.bound ls n) :
    ∃ l k, ls = [l] ∧ Number Reader.boundLimit l k ∧ n = k := by
  obtain ⟨t, h, read⟩ := h
  obtain ⟨l, rfl, digits, rfl⟩ := means_kind h
  obtain ⟨k, hk, rfl⟩ := Option.map_eq_some_iff.1 read
  obtain ⟨value, fits⟩ := decimal?_eq_some hk
  exact ⟨l, k, rfl, ⟨digits, value, fits⟩, rfl⟩

theorem sound_count {n : Nat} (h : Means Reads Reader.count ls n) :
    ∃ l, ls = [l] ∧ Number UInt64.size l n := by
  obtain ⟨t, h, read⟩ := h
  obtain ⟨l, rfl, digits, rfl⟩ := means_kind h
  obtain ⟨value, fits⟩ := decimal?_eq_some read
  exact ⟨l, rfl, digits, value, fits⟩

theorem sound_numberField {field : Field}
    (h : Means Reads (.either (Reader.means .reviews (Reader.word "reviews"))
      (Reader.means .days (Reader.word "days"))) ls field) :
    ∃ l word, ls = [l] ∧ IsWord word l ∧ (word, field) ∈ numberFields := by
  rcases h with ⟨t, h, rfl⟩ | ⟨t, h, rfl⟩
  · obtain ⟨l, rfl, word⟩ := means_word h
    exact ⟨l, "reviews", rfl, word, by simp [numberFields]⟩
  · obtain ⟨l, rfl, word⟩ := means_word h
    exact ⟨l, "days", rfl, word, by simp [numberFields]⟩

theorem sound_comparison {c : Condition} (h : Means Reads Reader.comparison ls c) :
    Predicate ls c := by
  obtain ⟨⟨⟨field, op⟩, n⟩, ⟨ms, ns, rfl, ⟨ks, ks', rfl, hfield, ⟨t, hop, known⟩⟩, hn⟩, rfl⟩ := h
  obtain ⟨name, word, rfl, named, listed⟩ := sound_numberField hfield
  obtain ⟨symbol, rfl, compared, rfl⟩ := means_kind hop
  obtain ⟨number, k, rfl, bound, rfl⟩ := sound_bound hn
  exact .compare listed named compared known bound

theorem sound_simple {c : Condition} (h : Means Reads Reader.simple ls c) : Predicate ls c := by
  rcases h with (((⟨t, h, rfl⟩ | ⟨t, h, rfl⟩) | ⟨t, h, rfl⟩) | h) | h
  · rcases h with h | h
    · obtain ⟨l, rfl, star, -⟩ := means_kind h
      exact .all (.inl star)
    · obtain ⟨l, rfl, word⟩ := means_word h
      exact .all (.inr word)
  · obtain ⟨l, rfl, word⟩ := means_word h
    exact .reviewed word
  · obtain ⟨l, rfl, tag, rfl⟩ := means_kind h
    exact .tag tag
  · exact sound_fieldCondition h
  · exact sound_comparison h

theorem sound_chain {join : Condition → Condition → Condition} {operator : Reader (Token Kind)}
    {operand : Reader Condition} {Operator : Leaf Kind → Prop}
    {Operand : List (Leaf Kind) → Condition → Prop}
    (operators : ∀ ms t, Means Reads operator ms t → ∃ l, ms = [l] ∧ Operator l)
    (operands : ∀ ms c, Means Reads operand ms c → Operand ms c) {c : Condition}
    (h : Means Reads (Reader.chain join operator operand) ls c) :
    ∃ ms first links, ls = ms ++ List.flatMap Link.leaves links ∧ c = chained join first links ∧
      Operand ms first ∧ (∀ k ∈ links, Operator k.operator) ∧
      ∀ k ∈ links, Operand k.operand k.value := by
  obtain ⟨⟨first, rest⟩, ⟨ms, ns, rfl, hfirst, ⟨row, -⟩⟩, rfl⟩ := h
  have links : ∃ links : List Link, ns = links.flatMap Link.leaves ∧
      rest = links.map Link.value ∧ (∀ k ∈ links, Operator k.operator) ∧
      ∀ k ∈ links, Operand k.operand k.value := by
    clear hfirst
    change Row _ ns rest at row
    induction row with
    | nil => exact ⟨[], rfl, rfl, List.forall_mem_nil _, List.forall_mem_nil _⟩
    | @cons ks ks' v vs one _ ih =>
      obtain ⟨os, operand, t, rfl, hoperator, hoperand⟩ := means_preceded one
      obtain ⟨l, rfl, isOperator⟩ := operators _ _ hoperator
      obtain ⟨links, rfl, rfl, before, behind⟩ := ih
      exact ⟨⟨l, operand, v⟩ :: links, rfl, rfl, List.forall_mem_cons.2 ⟨isOperator, before⟩,
        List.forall_mem_cons.2 ⟨operands _ _ hoperand, behind⟩⟩
  obtain ⟨links, rfl, rfl, before, behind⟩ := links
  exact ⟨ms, first, links, rfl, rfl, operands _ _ hfirst, before, behind⟩

theorem sound_conjunction {c : Condition} (h : Means Reads Reader.conjunction ls c) :
    Derives .conjunction ls c := by
  obtain ⟨ms, first, links, rfl, rfl, hfirst, operators, operands⟩ :=
    sound_chain (fun _ _ => means_word_or_kind) (fun _ _ h => h) h
  exact .conjunction hfirst operators operands

theorem sound_condition {c : Condition} (h : Means Reads Reader.condition ls c) :
    Derives .expr ls c := by
  obtain ⟨ms, first, links, rfl, rfl, hfirst, operators, operands⟩ :=
    sound_chain (fun _ _ => means_word) (fun _ _ => sound_conjunction) h
  exact .expr hfirst operators operands

theorem sound_unary {c : Condition} (h : Means Reads Reader.unary ls c) : Derives .unary ls c := by
  rcases h with ⟨inner, h, rfl⟩ | h | h
  · obtain ⟨ms, ns, t, rfl, hnegation, hinner⟩ := means_preceded h
    obtain ⟨l, rfl, negation⟩ := means_word_or_kind hnegation
    exact .not negation hinner
  · obtain ⟨⟨⟨t, c⟩, u⟩, ⟨ms, ns, rfl, ⟨ks, ks', rfl, hopen, inner⟩, hclose⟩, rfl⟩ := h
    obtain ⟨l, rfl, opened, -⟩ := means_kind hopen
    obtain ⟨r, rfl, closed, -⟩ := means_kind hclose
    exact .primary (.group opened inner closed)
  · exact .primary (.predicate (sound_simple h))

theorem sound_named (n : Name) (ls : List (Leaf Kind)) (c : Condition)
    (h : Means Reads (Reader.named.body n) ls c) : Reads n ls c := by
  cases n with
  | condition => exact sound_condition h
  | unary => exact sound_unary h

theorem sound_counted {word : String} {make : Nat → Step} (listed : (word, make) ∈ countedSteps)
    {s : Step} (h : Means Reads (Reader.counted word make) ls s) : StepOf ls s := by
  obtain ⟨⟨⟨⟨t, u⟩, n⟩, v⟩,
    ⟨_, _, rfl, ⟨_, _, rfl, ⟨_, _, rfl, hname, hopen⟩, hcount⟩, hclose⟩, rfl⟩ := h
  obtain ⟨name, rfl, named⟩ := means_word hname
  obtain ⟨l, rfl, opened, -⟩ := means_kind hopen
  obtain ⟨number, rfl, count⟩ := sound_count hcount
  obtain ⟨r, rfl, closed, -⟩ := means_kind hclose
  exact .counted listed named opened count closed

theorem sound_meaning {table : List (String × α)} {word : String} {value v : α}
    (listed : (word, value) ∈ table)
    (h : Means Reads (Reader.means value (Reader.word word)) ls v) :
    ∃ l word, ls = [l] ∧ IsWord word l ∧ (word, v) ∈ table := by
  obtain ⟨t, h, rfl⟩ := h
  obtain ⟨l, rfl, isWord⟩ := means_word h
  exact ⟨l, word, rfl, isWord, listed⟩

theorem sound_sortKey {k : SortKey} (h : Means Reads Reader.sortKey ls k) :
    ∃ l word, ls = [l] ∧ IsWord word l ∧ (word, k) ∈ sortKeys := by
  rcases h with ((h | h) | h) | h
  · exact sound_meaning (by simp [sortKeys]) h
  · exact sound_meaning (by simp [sortKeys]) h
  · exact sound_meaning (by simp [sortKeys]) h
  · exact sound_meaning (by simp [sortKeys]) h

theorem sound_direction {d : Direction} (h : Means Reads Reader.direction ls d) :
    ∃ l word, ls = [l] ∧ IsWord word l ∧ (word, d) ∈ directions := by
  rcases h with h | h
  · exact sound_meaning (by simp [directions]) h
  · exact sound_meaning (by simp [directions]) h

theorem sound_order {d : Option Direction}
    (h : Means Reads (.opt (.preceded (.token .comma) Reader.direction)) ls d) :
    Order ls (d.getD .ascending) := by
  rcases means_opt h with ⟨rfl, rfl⟩ | ⟨d, rfl, given⟩
  · exact .none
  · obtain ⟨ms, ns, t, rfl, hcomma, hdirection⟩ := means_preceded given
    obtain ⟨comma, rfl, separated, -⟩ := means_kind hcomma
    obtain ⟨name, word, rfl, named, listed⟩ := sound_direction hdirection
    exact .some separated listed named

theorem sound_sort {s : Step} (h : Means Reads Reader.sort ls s) : StepOf ls s := by
  obtain ⟨⟨⟨⟨⟨t, u⟩, key⟩, d⟩, v⟩, ⟨_, _, rfl, ⟨_, _, rfl, ⟨_, _, rfl, ⟨_, _, rfl, hname, hopen⟩,
    hkey⟩, horder⟩, hclose⟩, rfl⟩ := h
  obtain ⟨name, rfl, named⟩ := means_word hname
  obtain ⟨l, rfl, opened, -⟩ := means_kind hopen
  obtain ⟨k, word, rfl, keyed, listed⟩ := sound_sortKey hkey
  obtain ⟨r, rfl, closed, -⟩ := means_kind hclose
  exact .sort named opened listed keyed (sound_order horder) closed

theorem sound_bare {word : String} {value s : Step} (listed : (word, value) ∈ bareSteps)
    (h : Means Reads
      (Reader.means value (.seq (Reader.word word) (.opt Reader.emptyParens))) ls s) :
    StepOf ls s := by
  obtain ⟨⟨t, u⟩, ⟨_, _, rfl, hname, hparens⟩, rfl⟩ := h
  obtain ⟨name, rfl, named⟩ := means_word hname
  refine .bare listed named ?_
  rcases means_opt hparens with ⟨rfl, -⟩ | ⟨_, -, ⟨⟨a, b⟩, ⟨_, _, rfl, hopen, hclose⟩, -⟩⟩
  · exact .none
  · obtain ⟨l, rfl, opened, -⟩ := means_kind hopen
    obtain ⟨r, rfl, closed, -⟩ := means_kind hclose
    exact .some opened closed

theorem sound_step {s : Step} (h : Means Reads Reader.step ls s) : StepOf ls s := by
  rcases h with (((h | h) | h) | h) | h
  · exact sound_counted (by simp [countedSteps]) h
  · exact sound_counted (by simp [countedSteps]) h
  · exact sound_sort h
  · exact sound_bare (by simp [bareSteps]) h
  · exact sound_bare (by simp [bareSteps]) h

def Entry.draft (e : Entry) : Reader.Draft :=
  ⟨unquote e.content.token.text, e.content.token.position,
    e.description.elim "" (unquote ·.token.text), e.tags.map (tagName ·.token)⟩

def Written.command : Written → Reader.Command
  | insert entries => .insert (entries.map Entry.draft)
  | ready q => .ready q

theorem sound_tags {ts : List (Token Kind)}
    (h : Row (Means Reads (Grammar.token .tag : Reader (Token Kind))) ls ts) :
    ts = ls.map Leaf.token ∧ ∀ l ∈ ls, IsKind .tag l := by
  induction h with
  | nil => exact ⟨rfl, List.forall_mem_nil _⟩
  | cons first others ih =>
    obtain ⟨l, rfl, tag, rfl⟩ := means_kind first
    obtain ⟨rfl, tags⟩ := ih
    exact ⟨rfl, List.forall_mem_cons.2 ⟨tag, tags⟩⟩

theorem sound_draft {d : Reader.Draft} (h : Means Reads Reader.draft ls d) :
    ∃ e : Entry, d = e.draft ∧ ls = e.leaves ∧ e.Proper := by
  obtain ⟨⟨⟨content, description⟩, tags⟩,
    ⟨_, _, rfl, ⟨_, _, rfl, hcontent, hdescription⟩, ⟨htags, -⟩⟩, rfl⟩ := h
  obtain ⟨l, rfl, literal, rfl⟩ := means_kind hcontent
  obtain ⟨rfl, areTags⟩ := sound_tags htags
  rcases means_opt hdescription with ⟨rfl, rfl⟩ | ⟨t, rfl, h⟩
  · refine ⟨⟨l, none, _⟩, by simp [Entry.draft, Function.comp_def], rfl, literal, ?_, areTags⟩
    rintro _ ⟨⟩
  · obtain ⟨m, rfl, described, rfl⟩ := means_kind h
    refine ⟨⟨l, some m, _⟩, by simp [Entry.draft, Function.comp_def], rfl, literal, ?_, areTags⟩
    rintro _ ⟨⟩
    exact described

theorem sound_insert {command : Reader.Command} (h : Means Reads Reader.insert ls command) :
    ∃ w : Written, command = w.command ∧ Sentence ls w := by
  obtain ⟨⟨⟨t, drafts⟩, u⟩, ⟨_, _, rfl, ⟨_, _, rfl, hstart, hdrafts⟩, hfinish⟩, rfl⟩ := h
  obtain ⟨start, rfl, begun⟩ := means_word_or_kind hstart
  obtain ⟨_, _, _, ds, rfl, rfl, hfirst, row⟩ := hdrafts
  obtain ⟨first, rfl, rfl, proper⟩ := sound_draft hfirst
  obtain ⟨entries, rfl, further⟩ := Row.imp (T := FurtherEntry) (f := Entry.draft) row
    fun ms d ⟨ks, ks', t, eq, hseparator, hdraft⟩ => by
      obtain ⟨l, rfl, isSeparator, -⟩ := means_kind hseparator
      obtain ⟨e, rfl, rfl, proper⟩ := sound_draft hdraft
      exact ⟨e, rfl, l, eq, isSeparator, proper⟩
  refine ⟨.insert (first :: entries), rfl, ?_⟩
  rcases means_opt hfinish with ⟨rfl, -⟩ | ⟨t, -, h⟩
  · have finished : ∀ l ∈ (none : Option (Leaf Kind)), IsKind .semicolon l := by rintro _ ⟨⟩
    exact .insert begun proper further finished
  · obtain ⟨l, rfl, closed, -⟩ := means_kind h
    have finished : ∀ l' ∈ some l, IsKind .semicolon l' := by
      rintro _ ⟨⟩
      exact closed
    exact .insert begun proper further finished

theorem sound_filter {command : Reader.Command} (h : Means Reads Reader.filter ls command) :
    ∃ w : Written, command = w.command ∧ Sentence ls w := by
  obtain ⟨⟨condition, steps⟩, ⟨ms, ns, rfl, hcondition, ⟨row, -⟩⟩, rfl⟩ := h
  obtain ⟨steps, rfl, piped⟩ := Row.imp (T := PipedStep) (f := id) row fun ms s one => by
    obtain ⟨_, _, t, rfl, hbar, hstep⟩ := means_preceded one
    obtain ⟨bar, rfl, isBar, -⟩ := means_kind hbar
    exact ⟨s, rfl, bar, _, rfl, isBar, sound_step hstep⟩
  rw [List.map_id]
  refine ⟨.ready (.filter (condition.getD .all) steps), rfl, .filter ?_ piped⟩
  rcases means_opt hcondition with ⟨rfl, rfl⟩ | ⟨c, rfl, given⟩
  · exact .none
  · exact .some (sound_condition given)

theorem sound_command {command : Reader.Command} (h : Means Reads Reader.command ls command) :
    ∃ w : Written, command = w.command ∧ Sentence ls w := by
  rcases h with ((h | ⟨t, h, rfl⟩) | ⟨t, h, rfl⟩) | h
  · exact sound_insert h
  · obtain ⟨l, rfl, word⟩ := means_word h
    exact ⟨.ready .session, rfl, .session word⟩
  · obtain ⟨l, rfl, word⟩ := means_words h
    exact ⟨.ready .dump, rfl, .dump word⟩
  · exact sound_filter h

end Wordhoard.Query
