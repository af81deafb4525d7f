import Wordhoard.Proofs.Query.Nesting
import Wordhoard.Proofs.Query.Parse

/-! A printed query is read back: its lexemes are the leaves of a sentence that denotes it. -/
namespace Wordhoard.Query

open Grammar (Leaf Row)

variable {xs : List Lexeme} {ls ms : List (Leaf Kind)} {x : Lexeme} {l : Leaf Kind} {c d : Condition}

structure SpelledBy (x : Lexeme) (l : Leaf Kind) : Prop where
  terminal : x.terminal? = some l.terminal
  text : l.token.text = String.ofList x.chars

theorem Spells.visible (h : Spells (x :: xs) ls) (visible : x.visible) :
    ∃ l ms, ls = l :: ms ∧ SpelledBy x l ∧ Spells xs ms := by
  cases h with
  | blank others => cases visible
  | leaf terminal text others => exact ⟨_, _, rfl, ⟨terminal, text⟩, others⟩

theorem Spells.blank_cons (h : Spells (.blank :: xs) ls) : Spells xs ls := by
  cases h with
  | blank others => exact others
  | leaf terminal text others => cases terminal

theorem Spells.eq_nil (h : Spells [] ls) : ls = [] := by
  cases h
  rfl

theorem SpelledBy.isWord {word : String} (h : SpelledBy (.word word) l) : IsWord word l :=
  (Option.some.inj h.terminal).symm

theorem SpelledBy.isMark {m : Mark} (h : SpelledBy (.mark m) l) : IsKind m.kind l :=
  (Option.some.inj h.terminal).symm

theorem SpelledBy.number {n bound : Nat} (h : SpelledBy (.number n) l) (fits : n < bound) :
    Number bound l n where
  digits := (Option.some.inj h.terminal).symm
  value := by rw [h.text, String.toList_ofList, Lexeme.chars, Text.decimal_repr]
  fits := fits

theorem SpelledBy.isString {text : String} (h : SpelledBy (.literal text) l) : IsKind .string l :=
  (Option.some.inj h.terminal).symm

theorem SpelledBy.unquote {text : String} (h : SpelledBy (.literal text) l) :
    unquote l.token.text = text := by
  rw [h.text, unquote_literal]

theorem predicate_sought {word text : String} {make : String → Condition}
    (listed : (word, make) ∈ textFields) (h : Spells (sought word text) ls) :
    Predicate ls (make text) := by
  obtain ⟨name, ls, rfl, named, h⟩ := h.visible rfl
  obtain ⟨colon, ls, rfl, separated, h⟩ := h.visible rfl
  obtain ⟨value, ls, rfl, literal, h⟩ := h.visible rfl
  rw [h.eq_nil]
  have valued := Value.string literal.isString
  rw [literal.unquote] at valued
  exact .field listed named.isWord separated.isMark valued

theorem predicate_compare {field : Field} {op : Comparison} {bound : Int}
    (range : 0 ≤ bound ∧ bound < Reader.boundLimit)
    (h : Spells (Condition.compare field op bound).lexemes ls) :
    Predicate ls (.compare field op bound) := by
  obtain ⟨name, ls, rfl, named, h⟩ := h.visible rfl
  obtain ⟨symbol, ls, rfl, compared, h⟩ := h.blank_cons.visible rfl
  obtain ⟨number, ls, rfl, digits, h⟩ := h.blank_cons.visible rfl
  rw [h.eq_nil]
  have listed : (field.name, field) ∈ numberFields := by
    cases field <;> simp [numberFields, Field.name]
  have known : Comparison.ofSymbol? symbol.token.text = some op := by
    rw [compared.text, Lexeme.chars, String.ofList_toList]
    cases op <;> rfl
  have read : Number Reader.boundLimit number bound.toNat := digits.number (by omega)
  have derived := Predicate.compare listed named.isWord (Option.some.inj compared.terminal).symm
    known read
  rwa [Int.toNat_of_nonneg range.1] at derived

theorem Level.looseness_le_expr (level : Level) : level.looseness ≤ expr.looseness := by
  cases level <;> decide

theorem Derives.raise {level place : Level} (h : Derives level ls c)
    (bound : level.looseness ≤ place.looseness) : Derives place ls c := by
  have unary (tight : level.looseness ≤ 1) : Derives .unary ls c := by
    cases level with
    | primary => exact .primary h
    | unary => exact h
    | conjunction => exact absurd tight (by decide)
    | expr => exact absurd tight (by decide)
  have conjunction (tight : level.looseness ≤ 2) : Derives .conjunction ls c := by
    cases level with
    | conjunction => exact h
    | expr => exact absurd tight (by decide)
    | _ => exact (unary (by decide)).lone_operand
  cases place with
  | primary =>
    cases level with
    | primary => exact h
    | _ => exact absurd bound (by decide)
  | unary => exact unary bound
  | conjunction => exact conjunction bound
  | expr =>
    cases level with
    | expr => exact h
    | _ => exact (conjunction (by decide)).lone_conjunction

theorem chained_snoc (join : Condition → Condition → Condition) (links : List Link) (k : Link) :
    chained join c (links ++ [k]) = join (chained join c links) k.value := by
  rw [chained, List.map_append, List.foldl_append]
  rfl

theorem Derives.and (first : Derives .conjunction ls c) (operator : IsWord "and" l)
    (second : Derives .unary ms d) : Derives .conjunction (ls ++ l :: ms) (.and c d) := by
  cases first with
  | @conjunction ls c links first operators operands =>
    have grown : Derives .conjunction (ls ++ (links ++ [(⟨l, ms, d⟩ : Link)]).flatMap Link.leaves)
        (chained .and c (links ++ [⟨l, ms, d⟩])) := by
      apply Derives.conjunction first
      · exact List.forall_mem_append.2 ⟨operators, List.forall_mem_singleton.2 (.inl operator)⟩
      · exact List.forall_mem_append.2 ⟨operands, List.forall_mem_singleton.2 second⟩
    rw [chained_snoc] at grown
    simpa [Link.leaves] using grown

theorem Derives.or (first : Derives .expr ls c) (operator : IsWord "or" l)
    (second : Derives .conjunction ms d) : Derives .expr (ls ++ l :: ms) (.or c d) := by
  cases first with
  | @expr ls c links first operators operands =>
    have grown : Derives .expr (ls ++ (links ++ [(⟨l, ms, d⟩ : Link)]).flatMap Link.leaves)
        (chained .or c (links ++ [⟨l, ms, d⟩])) := by
      apply Derives.expr first
      · exact List.forall_mem_append.2 ⟨operators, List.forall_mem_singleton.2 operator⟩
      · exact List.forall_mem_append.2 ⟨operands, List.forall_mem_singleton.2 second⟩
    rw [chained_snoc] at grown
    simpa [Link.leaves] using grown

theorem derives_enclosed {place : Level} (inner : ∀ ls, Spells c.lexemes ls → Derives c.level ls c)
    (h : Spells (enclosed (c.loose place) c.lexemes) ls) : Derives place ls c := by
  cases loose : c.loose place with
  | false =>
    rw [loose] at h
    have bound := of_decide_eq_false loose
    exact (inner ls h).raise (Nat.not_lt.1 bound)
  | true =>
    rw [loose] at h
    obtain ⟨l, ls, rfl, opened, h⟩ := h.visible rfl
    obtain ⟨ls, rs, rfl, inside, h⟩ := Spells.of_append h
    obtain ⟨r, rs, rfl, closed, h⟩ := h.visible rfl
    rw [h.eq_nil]
    have whole := (inner ls inside).raise c.level.looseness_le_expr
    have group := Derives.group opened.isMark whole closed.isMark
    exact group.raise (Nat.zero_le _)

theorem derives_condition (range : c.InRange) (h : Spells c.lexemes ls) : Derives c.level ls c := by
  induction c generalizing ls with
  | all =>
    obtain ⟨l, ls, rfl, star, h⟩ := h.visible rfl
    rw [h.eq_nil]
    exact .predicate (.all (.inl star.isMark))
  | reviewed =>
    obtain ⟨l, ls, rfl, word, h⟩ := h.visible rfl
    rw [h.eq_nil]
    exact .predicate (.reviewed word.isWord)
  | hasTag tag => exact .predicate (predicate_sought (by simp [textFields]) h)
  | contentContains needle => exact .predicate (predicate_sought (by simp [textFields]) h)
  | descriptionContains needle => exact .predicate (predicate_sought (by simp [textFields]) h)
  | textContains needle => exact .predicate (predicate_sought (by simp [textFields]) h)
  | compare field op bound => exact .predicate (predicate_compare range h)
  | and left right ihl ihr =>
    obtain ⟨ls, ms, rfl, first, h⟩ := Spells.of_append h
    obtain ⟨l, ms, rfl, operator, h⟩ := h.blank_cons.visible rfl
    have first := derives_enclosed (fun _ => ihl range.1) first
    have second := derives_enclosed (fun _ => ihr range.2) h.blank_cons
    exact first.and operator.isWord second
  | or left right ihl ihr =>
    obtain ⟨ls, ms, rfl, first, h⟩ := Spells.of_append h
    obtain ⟨l, ms, rfl, operator, h⟩ := h.blank_cons.visible rfl
    have first := (ihl range.1 first).raise left.level.looseness_le_expr
    have second := derives_enclosed (fun _ => ihr range.2) h.blank_cons
    exact first.or operator.isWord second
  | not inner ih =>
    obtain ⟨l, ls, rfl, operator, h⟩ := h.visible rfl
    have negated := derives_enclosed (fun _ => ih range) h.blank_cons
    exact .not (.inl operator.isWord) negated

theorem Spells.called {word : String} (h : Spells (called word xs) ls) :
    ∃ name l ms r, ls = name :: l :: (ms ++ [r]) ∧ IsWord word name ∧ IsKind .openParen l ∧
      Spells xs ms ∧ IsKind .closeParen r := by
  obtain ⟨name, ls, rfl, named, h⟩ := h.visible rfl
  obtain ⟨l, ls, rfl, opened, h⟩ := h.visible rfl
  obtain ⟨ms, rs, rfl, inside, h⟩ := Spells.of_append h
  obtain ⟨r, rs, rfl, closed, h⟩ := h.visible rfl
  rw [h.eq_nil]
  exact ⟨name, l, ms, r, rfl, named.isWord, opened.isMark, inside, closed.isMark⟩

theorem stepOf_counted {word : String} {make : Nat → Step} {count : Nat}
    (listed : (word, make) ∈ countedSteps) (fits : count < UInt64.size)
    (h : Spells (called word [.number count]) ls) : StepOf ls (make count) := by
  obtain ⟨name, l, ms, r, rfl, named, opened, inside, closed⟩ := h.called
  obtain ⟨number, ms, rfl, digits, inside⟩ := inside.visible rfl
  rw [inside.eq_nil]
  exact .counted listed named opened (digits.number fits) closed

theorem stepOf_bare {word : String} {step : Step} (listed : (word, step) ∈ bareSteps)
    (h : Spells [.word word] ls) : StepOf ls step := by
  obtain ⟨name, ls, rfl, named, h⟩ := h.visible rfl
  rw [h.eq_nil]
  exact .bare listed named.isWord .none

theorem stepOf_lexemes {step : Step} (range : step.InRange) (h : Spells step.lexemes ls) :
    StepOf ls step := by
  cases step with
  | limit count => exact stepOf_counted (by simp [countedSteps]) range h
  | skip count => exact stepOf_counted (by simp [countedSteps]) range h
  | sort key direction =>
    obtain ⟨name, l, ms, r, rfl, named, opened, inside, closed⟩ := h.called
    obtain ⟨keyed, ms, rfl, isKey, inside⟩ := inside.visible rfl
    obtain ⟨comma, ms, rfl, separated, inside⟩ := inside.visible rfl
    obtain ⟨directed, ms, rfl, isDirection, inside⟩ := inside.blank_cons.visible rfl
    rw [inside.eq_nil]
    have listed : (key.name, key) ∈ sortKeys := by
      cases key <;> decide
    have ordered : (direction.name, direction) ∈ directions := by
      cases direction <;> decide
    exact .sort named opened listed isKey.isWord
      (.some separated.isMark ordered isDirection.isWord) closed
  | shuffle => exact stepOf_bare (by decide) h
  | reverse => exact stepOf_bare (by decide) h

theorem tags_of_spells {tags : List String} (valid : ∀ tag ∈ tags, isValidTag tag)
    (h : Spells (further [] (fun tag => [.tag tag]) tags) ls) :
    (∀ l ∈ ls, IsKind .tag l) ∧ ls.map (fun l => tagName l.token) = tags := by
  induction tags generalizing ls with
  | nil =>
    rw [h.eq_nil]
    exact ⟨List.forall_mem_nil _, rfl⟩
  | cons tag others ih =>
    obtain ⟨first, valid⟩ := List.forall_mem_cons.1 valid
    obtain ⟨l, ls, rfl, isTag, h⟩ := h.blank_cons.visible rfl
    obtain ⟨tags, names⟩ := ih valid h
    have kind : IsKind .tag l := (Option.some.inj isTag.terminal).symm
    refine ⟨List.forall_mem_cons.2 ⟨kind, tags⟩, ?_⟩
    rw [List.map_cons, names, tagName_tag first isTag.text]

theorem draft_of_spells {content description : String} {tags : List String}
    (valid : ∀ tag ∈ tags, isValidTag tag) (h : Spells (draftLexemes content description tags) ls) :
    ∃ e : Entry, ls = e.leaves ∧ e.Proper ∧ unquote e.content.token.text = content ∧
      e.description.elim "" (unquote ·.token.text) = description ∧
      e.tags.map (tagName ·.token) = tags := by
  obtain ⟨first, ls, rfl, written, h⟩ := h.visible rfl
  obtain ⟨second, ls, rfl, described, h⟩ := h.blank_cons.visible rfl
  obtain ⟨tagged, names⟩ := tags_of_spells valid h
  refine ⟨⟨first, some second, ls⟩, rfl, ⟨written.isString, ?_, tagged⟩, ?_, ?_, names⟩
  · rintro _ ⟨⟩
    exact described.isString
  · exact written.unquote
  · exact described.unquote

theorem entry_of_spells {d : Definition} (writable : Writable d) (h : Spells (entryLexemes d) ls) :
    ∃ e : Entry, ls = e.leaves ∧ e.Proper ∧ e.Denotes d := by
  obtain ⟨e, leaves, proper, written, described, tagged⟩ := draft_of_spells writable.tags h
  refine ⟨e, leaves, proper, ?_, described.symm, ?_⟩
  · rw [written]
    exact Markup.parse_render writable.content
  · rw [tagged, TagSet.ofList_toList]

theorem row_of_further {α β : Type} {S : List (Leaf Kind) → β → Prop} {R : α → β → Prop}
    {before : List Lexeme} {lexemes : α → List Lexeme} {items : List α}
    (each : ∀ item ∈ items, ∀ ls, Spells (before ++ .blank :: lexemes item) ls →
      ∃ v, S ls v ∧ R item v) (h : Spells (further before lexemes items) ls) :
    ∃ vs, Row S ls vs ∧ List.Forall₂ R items vs := by
  induction items generalizing ls with
  | nil =>
    rw [h.eq_nil]
    exact ⟨[], .nil, .nil⟩
  | cons item others ih =>
    obtain ⟨first, each⟩ := List.forall_mem_cons.1 each
    obtain ⟨ls, ms, rfl, here, h⟩ := Spells.of_append h
    obtain ⟨v, derived, related⟩ := first ls here
    obtain ⟨vs, row, all⟩ := ih each h
    exact ⟨v :: vs, .cons derived row, .cons related all⟩

theorem sentence_of_insert {d : Definition} {ds : List Definition} (writable : Writable d)
    (others : ∀ d ∈ ds, Writable d) (h : Spells (insert (d :: ds)).lexemes ls) :
    ∃ w, Sentence ls w ∧ w.Denotes (insert (d :: ds)) := by
  obtain ⟨start, ls, rfl, begun, entries⟩ := h.visible rfl
  obtain ⟨ls, ms, rfl, first, behind⟩ := Spells.of_append entries.blank_cons
  obtain ⟨e, rfl, proper, denoted⟩ := entry_of_spells writable first
  have further : ∃ entries, Row FurtherEntry ms entries ∧
      List.Forall₂ (fun d e => Entry.Denotes e d) ds entries := by
    refine row_of_further (fun d mem ls h => ?_) behind
    obtain ⟨separator, ls, rfl, separated, h⟩ := h.visible rfl
    obtain ⟨e, rfl, proper, denoted⟩ := entry_of_spells (others d mem) h.blank_cons
    exact ⟨e, ⟨separator, rfl, separated.isMark, proper⟩, denoted⟩
  obtain ⟨entries, row, all⟩ := further
  have sentence : Sentence (start :: (e.leaves ++ ms ++ Option.toList none))
      (.insert (e :: entries)) :=
    .insert (.inl begun.isWord) proper row (by rintro _ ⟨⟩)
  rw [Option.toList_none, List.append_nil] at sentence
  exact ⟨.insert (e :: entries), sentence, List.Forall₂.cons denoted all.flip⟩

theorem sentence_of_filter {steps : List Step} (range : c.InRange)
    (ranges : ∀ step ∈ steps, step.InRange) (h : Spells (filter c steps).lexemes ls) :
    Sentence ls (.ready (.filter c steps)) := by
  obtain ⟨ls, ms, rfl, condition, behind⟩ := Spells.of_append h
  have selected := (derives_condition range condition).raise c.level.looseness_le_expr
  have piped : ∃ vs, Row PipedStep ms vs ∧ List.Forall₂ Eq steps vs := by
    refine row_of_further (fun step mem ls h => ⟨step, ?_, rfl⟩) behind
    obtain ⟨bar, ls, rfl, isBar, h⟩ := h.blank_cons.visible rfl
    exact ⟨bar, ls, rfl, isBar.isMark, stepOf_lexemes (ranges step mem) h.blank_cons⟩
  obtain ⟨vs, row, all⟩ := piped
  rw [List.forall₂_eq_eq_eq] at all
  subst all
  exact .filter (.some selected) row

theorem sentence_of_spells {q : Query} (h : Printable q) (spelled : Spells q.lexemes ls) :
    ∃ w, Sentence ls w ∧ w.Denotes q := by
  cases q with
  | insert definitions =>
    cases definitions with
    | nil => exact absurd rfl h.1
    | cons d ds =>
      obtain ⟨writable, others⟩ := List.forall_mem_cons.1 h.2
      exact sentence_of_insert writable others spelled
  | filter c steps => exact ⟨_, sentence_of_filter h.1.inRange h.2 spelled, rfl⟩
  | session =>
    obtain ⟨l, ls, rfl, word, spelled⟩ := spelled.visible rfl
    rw [spelled.eq_nil]
    exact ⟨_, .session word.isWord, rfl⟩
  | dump =>
    obtain ⟨l, ls, rfl, word, spelled⟩ := spelled.visible rfl
    rw [spelled.eq_nil]
    exact ⟨_, .dump (.inl word.isWord), rfl⟩

theorem exists_leaves (tidy : Tidy xs) :
    ∃ ls p, stream (String.ofList (xs.flatMap Lexeme.chars)) = ⟨ls.map Leaf.token, .finished p⟩ ∧
      Spells xs ls := by
  obtain ⟨ls, p, scanned, spelled⟩ :=
    spells_scan xs tidy.proper tidy.chain (xs.flatMap Lexeme.chars).length .start (Nat.le_refl _)
  refine ⟨ls, p, ?_, spelled⟩
  rw [stream, Rule.stream, ← scanned, String.toList_ofList, String.length_ofList]

/-- Every query that can be printed is read back from its text. -/
theorem parse_print {q : Query} (h : Printable q) : parse q.print = .ok q := by
  obtain ⟨ls, p, whole, spelled⟩ := exists_leaves (tidy_lexemes h)
  obtain ⟨w, sentence, denoted⟩ := sentence_of_spells h spelled
  have allowed : excess? {} (stream q.print).tokens = none := by
    rw [print, whole]
    exact excess?_of_spells h spelled
  have derivation : Derivation q.print ls w :=
    ⟨⟨p, by rw [print, whole]⟩, by rw [print, whole], sentence⟩
  rw [parse_eq_of_derivation allowed derivation]
  exact Written.query_eq_ok.2 denoted

theorem parse_print_nested :
    (Printable (.filter (.or (.not (.and (.hasTag "a\"") .reviewed)) (.or (.compare .days .lt 7) .all))
        [.skip 2]) ∧
      parse "not (tag:\"a\\\"\" and reviewed) or (days < 7 or *) | skip(2)" =
        .ok (.filter (.or (.not (.and (.hasTag "a\"") .reviewed)) (.or (.compare .days .lt 7) .all))
          [.skip 2])) ∧
    Printable (.insert [⟨[.plain "a", .optional "b"], "c", .ofList ["d"]⟩]) ∧
      parse "insert \"a(b)\" \"c\" #d" =
        .ok (.insert [⟨[.plain "a", .optional "b"], "c", .ofList ["d"]⟩]) := by
  have filter : Printable (.filter
      (.or (.not (.and (.hasTag "a\"") .reviewed)) (.or (.compare .days .lt 7) .all)) [.skip 2]) := by
    refine ⟨⟨?_, by decide, by decide⟩, ?_⟩
    · simp [Condition.InRange, Reader.boundLimit]
    · simp [Step.InRange, UInt64.size]
  have content : Markup.Canonical [.plain "a", .optional "b"] :=
    ⟨by simp [Piece.text], by simp [Piece.text, Piece.isOptional], by simp [Piece.isOptional]⟩
  have insert : Printable (.insert [⟨[.plain "a", .optional "b"], "c", .ofList ["d"]⟩]) :=
    ⟨List.cons_ne_nil _ _, List.forall_mem_singleton.2 ⟨content, by decide +kernel⟩⟩
  have filtered := parse_print filter
  have inserted := parse_print insert
  rw [show print (.filter (.or (.not (.and (.hasTag "a\"") .reviewed)) (.or (.compare .days .lt 7)
    .all)) [.skip 2]) = "not (tag:\"a\\\"\" and reviewed) or (days < 7 or *) | skip(2)" by
      decide +kernel] at filtered
  rw [show print (.insert [⟨[.plain "a", .optional "b"], "c", .ofList ["d"]⟩]) =
    "insert \"a(b)\" \"c\" #d" by decide +kernel] at inserted
  exact ⟨⟨filter, filtered⟩, insert, inserted⟩

end Wordhoard.Query
