import Wordhoard.Proofs.Query.Neat
import Wordhoard.Proofs.Query.Parse
import Wordhoard.Proofs.Token.Order

/-! What a refused query is told. Main statement: the tokens before the refusal begin a query, the
token at it does not go on with one, and the list holds just what would. -/
namespace Wordhoard.Query

open Grammar (Leaf Terminal Mismatch Watched Passes Viable Beside Beyond Silent Along Suits Uses
  Reports watch watchEnd)

theorem uses_unary : Uses Known Reader.unary := by
  simp [Uses, Known, keywords, Reader.unary, Reader.group, Reader.simple, Reader.fieldCondition,
    Reader.fieldNamed, Reader.comparison, Reader.bound, Reader.text, Reader.oneOf, Reader.means,
    Reader.word, Grammar.preceded]

theorem uses_condition : Uses Known Reader.condition := by
  simp [Uses, Known, keywords, Reader.condition, Reader.conjunction, Reader.chain, Reader.word,
    Grammar.preceded]

theorem uses_named (n : Name) : Uses Known (Reader.named.body n) :=
  match n with
  | .condition => uses_condition
  | .unary => uses_unary

theorem uses_step : Uses Known Reader.step := by
  simp [Uses, Known, keywords, Reader.step, Reader.counted, Reader.count, Reader.sort,
    Reader.sortKey, Reader.direction, Reader.emptyParens, Reader.oneOf, Reader.means, Reader.word,
    Grammar.opt, Grammar.preceded]

theorem uses_insert : Uses Known Reader.insert := by
  simp [Uses, Known, keywords, Reader.insert, Reader.draft, Reader.word, Grammar.opt]

theorem uses_command : Uses Known Reader.command := by
  have filter : Uses Known Reader.filter := ⟨uses_condition, trivial, uses_step⟩
  simp [Uses, filter, uses_insert, Known, keywords, Reader.command, Reader.oneOf, Reader.means,
    Reader.word]

/-- Some query of the documented grammar begins with these tokens. -/
def Begun (ts : List (Token Kind)) : Prop :=
  ∃ ls ms w, ls.map Leaf.token = ts ∧ Sentence (ls ++ ms) w

/-- These tokens are a query of the documented grammar. -/
def Whole (ts : List (Token Kind)) : Prop := ∃ ls w, ls.map Leaf.token = ts ∧ Sentence ls w

variable {c : Cursor Kind} {depth : Nat} {s : Stream Kind} {before : List (Token Kind)}
  {l : Leaf Kind}

def watched (depth : Nat) (c : Cursor Kind) : Watched Kind Reader.Command :=
  watch (Reader.named.watchCall depth) Reader.command c

theorem goesOn_of_mismatch {m : Mismatch Kind} (hm : m ∈ (watched depth c).mismatches) :
    ∃ ls l, Passes c ls m.place ∧ l.terminal.description = m.description ∧
      GoesOn (ls.map Leaf.token) l := by
  have follows := Grammar.follows_watch (Grammar.follows_call sound_named plain_named depth)
    Reader.command plain_command c
  obtain ⟨ls, l, ms, v, passes, described, derived⟩ := follows.mismatches m hm
  obtain ⟨w, -, sentence⟩ := sound_command derived
  exact ⟨ls, l, passes, described, ls, ms, w, rfl, sentence⟩

theorem viable_of_mismatch {m : Mismatch Kind} (hm : m ∈ (watchEnd (watched depth c)).mismatches) :
    ∃ ls, Passes c ls m.place ∧
      ((∃ l, GoesOn (ls.map Leaf.token) l ∧ l.terminal.description = m.description) ∨
        m.description = "end of input" ∧ Whole (ls.map Leaf.token)) := by
  rcases Grammar.mem_watchEnd.1 hm with inner | ⟨⟨v, t, next, accepted, place⟩, described⟩
  · obtain ⟨ls, l, passes, described, goesOn⟩ := goesOn_of_mismatch inner
    exact ⟨ls, passes, .inl ⟨l, goesOn, described⟩⟩
  · obtain ⟨ls, w, passes, -, sentence⟩ := sentence_of_accepted accepted
    exact ⟨ls, passes, .inr ⟨described, ls, w, rfl, sentence⟩⟩

/-- A whole run was refused before a place, and nowhere beyond it. -/
structure StuckAt (depth : Nat) (c : Cursor Kind) (before : List (Token Kind)) (s : Stream Kind) :
    Prop where
  start : c.stream = s.prepend before
  refused : (watchEnd (watched depth c)).verdict = .refused
  near : ∀ m ∈ (watchEnd (watched depth c)).mismatches, ¬ Beyond s m.place

/-- Had the text gone on as a sentence does, the run would have been refused at the place all the
same, or it had taken the whole text. -/
theorem StuckAt.along (h : StuckAt depth c before s) {ls ms : List (Leaf Kind)} {w : Written}
    (same : ls.map Leaf.token = before) (sentence : Sentence (ls ++ ms) w) {p : Text.Position}
    (silent : Silent Known s ⟨ms.map Leaf.token, .finished p⟩ (watched depth c).mismatches) :
    ∃ rest, Grammar.LeftOver (watched depth c) rest ∧
      Beside s ⟨ms.map Leaf.token, .finished p⟩ rest (.finished p) := by
  have enough : 2 * (ls ++ ms).length < 2 * (ls ++ ms).length + 1 := Nat.lt_succ_self _
  have accepted := accepts_sentence (p := p) sentence enough
  rw [Grammar.Accepts] at accepted
  have start : Beside s ⟨ms.map Leaf.token, .finished p⟩ c
      (.ofTokens p ((ls ++ ms).map Leaf.token ++ [])) := by
    refine ⟨before, h.start, ?_⟩
    simp [← same, Stream.prepend]
  have along := Grammar.along_watch sound_named plain_named
    (Grammar.along_call sound_named plain_named uses_named depth (2 * (ls ++ ms).length + 1))
    Reader.command plain_command uses_command start silent
  rcases Grammar.refused_watchEnd h.refused with refused | ⟨rest, v, t, next, taken, place⟩
  · rw [watched] at refused
    simp only [Grammar.Along, refused, accepted] at along
  · have taken' : (watch (Reader.named.watchCall depth) Reader.command c).verdict =
        .accepted v rest := taken
    simp only [Grammar.Along, taken', accepted] at along
    refine ⟨rest, ⟨v, t, next, taken, place⟩, ?_⟩
    rcases along with beyond | ⟨-, beside⟩
    · have left_over : (⟨rest, "end of input"⟩ : Mismatch Kind) ∈
          (watchEnd (watched depth c)).mismatches :=
        Grammar.mem_watchEnd.2 (.inr ⟨⟨v, t, next, taken, place⟩, rfl⟩)
      exact absurd beyond (h.near _ left_over)
    · exact beside

/-- No sentence goes on with the token at the place, and where one goes on, the run was refused a
terminal that fits the token. -/
theorem StuckAt.goesOn (h : StuckAt depth c before s) (goesOn : GoesOn before l) :
    s.tokens.head? ≠ some l.token ∧
      ∃ m ∈ (watched depth c).mismatches, m.place.remaining = s.tokens.length ∧
        Suits Known m.description l.token := by
  obtain ⟨ls, ms, w, same, sentence⟩ := goesOn
  have loud (p : Text.Position) :
      ¬ Silent Known s ⟨(l :: ms).map Leaf.token, .finished p⟩ (watched depth c).mismatches := by
    intro silent
    obtain ⟨rest, -, ts, -, beside⟩ := h.along same sentence silent
    cases ts <;> cases congrArg Stream.tokens beside
  have near : ∀ m ∈ (watched depth c).mismatches, ¬ Beyond s m.place := fun m hm =>
    h.near m (Grammar.mem_watchEnd.2 (.inl hm))
  constructor
  · intro head
    exact loud Text.Mark.start.position ⟨near, .inl head⟩
  · by_contra unsuited
    refine loud Text.Mark.start.position ⟨near, .inr fun m hm place t ht suits => unsuited ?_⟩
    cases ht
    exact ⟨m, hm, place, suits⟩

theorem StuckAt.whole (h : StuckAt depth c before s) (whole : Whole before) :
    ∃ rest, Grammar.LeftOver (watched depth c) rest ∧ rest.stream = s := by
  obtain ⟨ls, w, same, sentence⟩ := whole
  have silent : Silent Known s ⟨([] : List (Leaf Kind)).map Leaf.token, .finished
      Text.Mark.start.position⟩ (watched depth c).mismatches :=
    ⟨fun m hm => h.near m (Grammar.mem_watchEnd.2 (.inl hm)), .inr fun _ _ _ t ht => by cases ht⟩
  obtain ⟨rest, left_over, ts, place, beside⟩ :=
    h.along same (by rwa [List.append_nil]) silent
  refine ⟨rest, left_over, ?_⟩
  cases ts with
  | nil => exact place
  | cons t ts => cases congrArg Stream.tokens beside

theorem markup_of_definitions {drafts : List Reader.Draft} {e : ParseError}
    (h : drafts.mapM Reader.Draft.definition = .error e) :
    ∃ d ∈ drafts, ∃ error, e = .markup d.position error := by
  induction drafts with
  | nil => cases h
  | cons d others ih =>
    rw [List.mapM_cons] at h
    cases first : d.definition with
    | error e' =>
      rw [first] at h
      cases h
      unfold Reader.Draft.definition at first
      split at first
      · cases first
      · cases first
        exact ⟨d, List.mem_cons_self, _, rfl⟩
    | ok definition =>
      cases rest : others.mapM Reader.Draft.definition with
      | error e' =>
        rw [first, rest] at h
        cases h
        obtain ⟨d', mem, error, same⟩ := ih rest
        exact ⟨d', List.mem_cons_of_mem _ mem, error, same⟩
      | ok definitions =>
        rw [first, rest] at h
        cases h

theorem markup_of_query {command : Reader.Command} {e : ParseError}
    (h : command.query = .error e) :
    ∃ drafts, command = .insert drafts ∧ ∃ d ∈ drafts, ∃ error, e = .markup d.position error := by
  cases command with
  | ready q => cases h
  | insert drafts =>
    rw [Reader.Command.query] at h
    cases read : drafts.mapM Reader.Draft.definition with
    | error e' =>
      rw [read] at h
      cases h
      exact ⟨drafts, rfl, markup_of_definitions read⟩
    | ok definitions =>
      rw [read] at h
      cases h

theorem refused_of_parse {text : String} {e : Expectation} (h : parse text = .error (.refused e)) :
    ∃ c, (stream text).enter = .ok c ∧
      (watchEnd (watched (Reader.named.depth c) c)).verdict = .refused ∧
      e.SumsUp (watchEnd (watched (Reader.named.depth c) c)).mismatches := by
  unfold parse at h
  dsimp only at h
  split at h
  · cases h
  · rename_i c entered
    refine ⟨c, entered, ?_⟩
    split at h
    · cases h
    · split at h
      · rename_i failure failed
        have reports := Grammar.reports_end
          (Grammar.reports_run Reader.named (Reader.named.depth c) Reader.command c)
        rw [Grammar.parseAll, Grammar.run] at failed
        rw [failed] at reports
        cases failure with
        | tokenize e => cases h
        | expected e =>
          cases h
          exact reports
        | endless =>
          refine absurd reports (Watched.verdict_next_ne_endless (watch_command_ne_endless c)
            (fun v rest _ => ?_) Grammar.refused_ne_endless)
          cases rest with
          | token t next => exact Grammar.refused_ne_endless
          | finished p => exact Grammar.accepted_ne_endless _ _
      · obtain ⟨_, -, _, -, _, same⟩ := markup_of_query h
        cases same

/-- What is said of a stream of tokens that is no query: where it went wrong, what was found there,
and what would have been right. -/
structure Blames (s : Stream Kind) (e : Expectation) (before after : List (Token Kind)) : Prop where
  tokens : s.tokens = before ++ after
  earlier : ∀ t ∈ before, t.position.index < e.position.index
  later : ∀ t ∈ after, e.position.index ≤ t.position.index
  begun : Begun before
  here : ∀ t ∈ after.head?, e.position = t.position ∧ e.found = some t.text ∧ ¬ Begun (before ++ [t])
  finished : after = [] → s.ending = .finished e.position ∧ e.found = none ∧ ¬ Whole before
  expected : ∀ d, d ∈ e.expected ↔
    (∃ l, GoesOn before l ∧ l.terminal.description = d) ∨ d = "end of input" ∧ Whole before
  ends : "end of input" ∈ e.expected ↔ Whole before

theorem Known.description_ne {T : Terminal Kind} (h : Known T) : T.description ≠ "end of input" := by
  cases T with
  | kind k => cases k <;> decide
  | word k word =>
    obtain ⟨-, listed⟩ := h
    have all : ∀ word ∈ keywords, "'" ++ word ++ "'" ≠ "end of input" := by decide +kernel
    exact all word listed

theorem begun_of_goesOn (h : GoesOn before l) : Begun before := by
  obtain ⟨ls, ms, w, same, sentence⟩ := h
  exact ⟨ls, l :: ms, w, same, sentence⟩

theorem goesOn_of_begun {t : Token Kind} (h : Begun (before ++ [t])) :
    ∃ l, l.token = t ∧ GoesOn before l := by
  obtain ⟨ls, ms, w, same, sentence⟩ := h
  obtain ⟨ls, last, rfl, first, single⟩ := List.map_eq_append_iff.1 same
  obtain ⟨l, rfl, token⟩ := List.map_eq_singleton_iff.1 single
  exact ⟨l, token, ls, ms, w, first, by simpa using sentence⟩

section

variable {ls : List (Leaf Kind)} {e : Expectation} {place : Cursor Kind}

/-- The run got stuck where its report points to: a mismatch beyond would have a greater offset. -/
theorem stuckAt_of_sumsUp (ordered : c.stream.Ordered)
    (refused : (watchEnd (watched depth c)).verdict = .refused)
    (sums : e.SumsUp (watchEnd (watched depth c)).mismatches) (passes : Passes c ls place)
    (index : place.index = e.position.index) :
    StuckAt depth c (ls.map Leaf.token) place.stream := by
  refine ⟨passes, refused, fun m hm beyond => ?_⟩
  obtain ⟨ls', passes', -⟩ := viable_of_mismatch hm
  have longer : (ls.map Leaf.token).length < (ls'.map Leaf.token).length := by
    have := passes.remaining
    have := passes'.remaining
    rw [Beyond, Cursor.length_tokens] at beyond
    simp only [List.length_map]
    omega
  have less := ordered.index_lt passes passes' longer
  have furthest := sums.furthest m hm
  omega

theorem StuckAt.expected (h : StuckAt depth c (ls.map Leaf.token) place.stream)
    (ordered : c.stream.Ordered) (sums : e.SumsUp (watchEnd (watched depth c)).mismatches)
    (passes : Passes c ls place) (index : place.index = e.position.index) (d : String) :
    d ∈ e.expected ↔
      (∃ l, GoesOn (ls.map Leaf.token) l ∧ l.terminal.description = d) ∨
        d = "end of input" ∧ Whole (ls.map Leaf.token) := by
  rw [sums.expected]
  constructor
  · rintro ⟨m, hm, index', rfl⟩
    obtain ⟨ls', passes', viable⟩ := viable_of_mismatch hm
    rw [← ordered.eq_of_index_eq passes' passes (index'.trans index.symm)]
    exact viable
  · rintro (⟨l, goesOn, rfl⟩ | ⟨rfl, whole⟩)
    · obtain ⟨-, m, hm, place, T, known, described, fits⟩ := h.goesOn goesOn
      obtain ⟨ls', l', passes', described', goesOn'⟩ := goesOn_of_mismatch hm
      rw [Cursor.length_tokens] at place
      obtain ⟨same, index'⟩ := passes'.same_place passes place
      rw [same] at goesOn'
      have description := description_eq goesOn goesOn' known (described'.trans described.symm) fits
      exact ⟨m, Grammar.mem_watchEnd.2 (.inl hm), index'.trans index,
        (description.trans described).symm⟩
    · obtain ⟨rest, left_over, same⟩ := h.whole whole
      exact ⟨⟨rest, "end of input"⟩, Grammar.mem_watchEnd.2 (.inr ⟨left_over, rfl⟩),
        (Stream.Ordered.index_eq same).trans index, rfl⟩

theorem StuckAt.not_begun {t : Token Kind} (h : StuckAt depth c before s)
    (head : s.tokens.head? = some t) : ¬ Begun (before ++ [t]) := by
  intro begun
  obtain ⟨l, rfl, goesOn⟩ := goesOn_of_begun begun
  exact (h.goesOn goesOn).1 head

theorem StuckAt.not_whole (h : StuckAt depth c before s) (empty : s.tokens = []) :
    ¬ Whole before := by
  intro whole
  obtain ⟨rest, ⟨v, t, next, -, rfl⟩, same⟩ := h.whole whole
  rw [← same] at empty
  cases empty

end

/-- A query that is refused is refused at the first token that goes on with no query, or at the end of
a text that only begins one, and the refusal lists just what would go on there. -/
theorem blames_of_parse {text : String} {e : Expectation}
    (h : parse text = .error (.refused e)) : ∃ before after, Blames (stream text) e before after := by
  obtain ⟨c, entered, refused, sums⟩ := refused_of_parse h
  have ordered : (stream text).Ordered := Rule.ordered_stream rules text
  have whole : c.stream = stream text := Stream.stream_of_enter entered
  rw [← whole] at ordered ⊢
  obtain ⟨m, hm, position, found⟩ := sums.place
  obtain ⟨ls, passes, viable⟩ := viable_of_mismatch hm
  have index : m.place.index = e.position.index := congrArg Text.Position.index position.symm
  have stuck := stuckAt_of_sumsUp ordered refused sums passes index
  have expected := stuck.expected ordered sums passes index
  obtain ⟨earlier, later⟩ := ordered.place passes
  rw [index] at earlier later
  refine ⟨ls.map Leaf.token, m.place.stream.tokens, congrArg Stream.tokens passes, earlier, later,
    ?_, fun t ht => ?_, fun empty => ?_, expected, ?_⟩
  · rcases viable with ⟨l, goesOn, -⟩ | ⟨-, ls', w, same, sentence⟩
    · exact begun_of_goesOn goesOn
    · exact ⟨ls', [], w, same, by rwa [List.append_nil]⟩
  · have unfit := stuck.not_begun ht
    cases place : m.place with
    | finished p =>
      rw [place] at ht
      cases ht
    | token t' next =>
      rw [place] at ht position found
      cases ht
      exact ⟨position, found, unfit⟩
  · have incomplete := stuck.not_whole empty
    cases place : m.place with
    | finished p =>
      have ending := congrArg Stream.ending passes
      rw [place] at position found ending
      refine ⟨?_, found, incomplete⟩
      rw [position]
      exact ending
    | token t' next =>
      rw [place] at empty
      cases empty
  · rw [expected]
    constructor
    · rintro (⟨l, goesOn, described⟩ | ⟨-, whole⟩)
      · exact absurd described goesOn.known.description_ne
      · exact whole
    · exact fun whole => .inr ⟨rfl, whole⟩

/-- Behind the colon any word is a value, and behind the bar the text ends too early. -/
theorem blames_of_bar :
    parse "tag: or |" = .error (.refused ⟨⟨9, 1, 10, 1, 10⟩, none,
        ["'limit'", "'skip'", "'sort'", "'shuffle'", "'reverse'"]⟩) ∧
      ∃ before after, Blames (stream "tag: or |") ⟨⟨9, 1, 10, 1, 10⟩, none,
        ["'limit'", "'skip'", "'sort'", "'shuffle'", "'reverse'"]⟩ before after :=
  have refused : parse "tag: or |" = .error (.refused ⟨⟨9, 1, 10, 1, 10⟩, none,
      ["'limit'", "'skip'", "'sort'", "'shuffle'", "'reverse'"]⟩) := by
    decide +kernel
  ⟨refused, blames_of_parse refused⟩

end Wordhoard.Query
