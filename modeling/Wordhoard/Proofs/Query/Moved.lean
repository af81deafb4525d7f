import Wordhoard.Proofs.Grammar.Moved
import Wordhoard.Proofs.Query.Descent

/-! Queries on streams with the same tokens at other places. No reader puts a place into its value
but that of drafts, which keep the place of their content for the errors in it. -/
namespace Wordhoard.Query

open Grammar (EndsAll Respects endsAll_parseAll)

variable {P : Text.Position → Text.Position → Prop}

namespace Reader

variable {α β : Type} {R : α → α → Prop} {S : β → β → Prop} {g : Reader β}

abbrev Carries (P : Text.Position → Text.Position → Prop) (R : α → α → Prop) (g : Reader α) : Prop :=
  Respects (Token.Moved P) (fun _ => Eq) R g

abbrev Placeless (P : Text.Position → Text.Position → Prop) (g : Reader α) : Prop := Carries P Eq g

theorem Carries.means (h : Carries P S g) (value : α) : Placeless P (means value g) :=
  .map h fun _ _ _ => rfl

theorem Carries.preceded {first : Reader α} (h : Carries P R first) (h' : Carries P S g) :
    Carries P S (.preceded first g) :=
  .map (.seq h h') fun _ _ related => related.2

theorem Carries.opt (h : Carries P S g) : Carries P (Option.Rel S) (.opt g) :=
  .map (.many h 0 (some 1)) fun _ _ related => by
    cases related with
    | nil => exact .none
    | cons first _ => exact .some first

theorem carries_oneOf {first : Reader α} {others : List (Reader α)} (h : Carries P R first)
    (hs : ∀ g ∈ others, Carries P R g) : Carries P R (oneOf first others) := by
  unfold oneOf
  induction others generalizing first with
  | nil => exact h
  | cons g others ih =>
    obtain ⟨second, hs⟩ := List.forall_mem_cons.1 hs
    exact ih (.either h second) hs

theorem carries_token (kind : Kind) : Carries P (Token.Moved P) (.token kind) := .token kind

theorem carries_word (text : String) : Carries P (Token.Moved P) (word text) := .keyword _ _

theorem placeless_call (name : Name) : Placeless P (Grammar.named name) := .named name

theorem carries_words (a b : String) : Carries P (Token.Moved P) (.either (word a) (word b)) :=
  .either (carries_word a) (carries_word b)

theorem placeless_ofText (f : String → α) (kind : Kind) :
    Placeless P (.map (fun t => f t.text) (.token kind) : Reader α) :=
  .map (carries_token kind) fun _ _ moved => congrArg f moved.text

theorem placeless_ofText? (description : String) (f : String → Option α) (kind : Kind) :
    Placeless P (.filterMap description (fun t => f t.text) (.token kind) : Reader α) := by
  refine .filterMap description (carries_token kind) fun t t' moved => ?_
  rw [moved.text]
  cases f t'.text with
  | none => exact .none
  | some v => exact .some rfl

theorem tagName_moved {t t' : Token Kind} (h : t.Moved P t') : tagName t = tagName t' := by
  unfold tagName
  rw [h.text]

theorem eq_of_option {a b : Option α} (h : Option.Rel Eq a b) : a = b := by
  cases h with
  | none => rfl
  | some same => exact congrArg some same

theorem placeless_text : Placeless P text := by
  refine carries_oneOf (placeless_ofText unquote .string) ?_
  simpa using ⟨placeless_ofText id .ident, placeless_ofText id .number⟩

theorem placeless_fieldNamed {name : Reader (Token Kind)} (h : Carries P (Token.Moved P) name)
    (condition : String → Condition) : Placeless P (fieldNamed name condition) :=
  .map (Carries.preceded (.seq h (carries_token _)) placeless_text) fun _ _ => congrArg condition

theorem placeless_fieldCondition : Placeless P fieldCondition := by
  refine carries_oneOf (placeless_fieldNamed (carries_word _) _) ?_
  simpa using ⟨placeless_fieldNamed (carries_words _ _) _, placeless_fieldNamed (carries_words _ _) _,
    placeless_fieldNamed (carries_word _) _⟩

theorem placeless_comparison : Placeless P comparison := by
  have field : Placeless P
      (.either (means .reviews (word "reviews")) (means .days (word "days")) : Reader Field) :=
    .either ((carries_word _).means _) ((carries_word _).means _)
  have symbol := placeless_ofText? (P := P) "comparison operator" Comparison.ofSymbol? .compare
  have bound := placeless_ofText? (P := P) "number"
    (fun text => (decimal? boundLimit text).map Int.ofNat) .number
  refine .map (.seq (.seq field symbol) bound) ?_
  rintro ⟨⟨field, op⟩, n⟩ ⟨⟨field', op'⟩, n'⟩ ⟨⟨rfl, rfl⟩, rfl⟩
  rfl

theorem placeless_simple : Placeless P simple := by
  refine carries_oneOf (.means (.either (carries_token _) (carries_word _)) _) ?_
  have tag : Placeless P (.map (fun t => .hasTag (tagName t)) (.token .tag) : Reader Condition) :=
    .map (carries_token _) fun _ _ moved => congrArg Condition.hasTag (tagName_moved moved)
  simpa using ⟨(carries_word _).means _, tag, placeless_fieldCondition, placeless_comparison⟩

theorem placeless_group : Placeless P group :=
  .map (.seq (.seq (carries_token _) (placeless_call _)) (carries_token _))
    fun _ _ related => related.1.2

theorem placeless_unary : Placeless P unary :=
  .either
    (.map (Carries.preceded (.either (carries_word _) (carries_token _)) (placeless_call _))
      fun _ _ => congrArg Condition.not)
    (.either placeless_group placeless_simple)

theorem placeless_chain (join : Condition → Condition → Condition) {operator : Reader (Token Kind)}
    {operand : Reader Condition} (h : Carries P (Token.Moved P) operator)
    (h' : Placeless P operand) : Placeless P (chain join operator operand) := by
  refine .map (.seq h' (.many (h.preceded h') 0 none)) ?_
  rintro ⟨first, rest⟩ ⟨first', rest'⟩ ⟨rfl, others⟩
  rw [List.forall₂_eq_eq_eq] at others
  exact congrArg (List.foldl join first) others

theorem placeless_conjunction : Placeless P conjunction :=
  placeless_chain .and (.either (carries_word _) (carries_token _)) (placeless_call _)

theorem placeless_condition : Placeless P condition :=
  placeless_chain .or (carries_word _) placeless_conjunction

theorem placeless_named (n : Name) : Placeless P (named.body n) :=
  match n with
  | .condition => placeless_condition
  | .unary => placeless_unary

theorem placeless_counted (name : String) (step : Nat → Step) :
    Placeless P (counted name step) := by
  have count := placeless_ofText? (P := P) "number" (decimal? UInt64.size) .number
  exact .map (.seq (.seq (.seq (carries_word _) (carries_token _)) count) (carries_token _))
    fun _ _ related => congrArg step related.1.2

theorem placeless_sortKey : Placeless P sortKey := by
  refine carries_oneOf ((carries_word _).means _) ?_
  simpa using ⟨(carries_word _).means _, (carries_word _).means _, (carries_word _).means _⟩

theorem placeless_direction : Placeless P direction :=
  .either ((carries_word _).means _) ((carries_word _).means _)

theorem placeless_sort : Placeless P sort := by
  refine .map (.seq (.seq (.seq (.seq (carries_word _) (carries_token _)) placeless_sortKey)
    ((carries_token _).preceded placeless_direction).opt) (carries_token _)) ?_
  rintro ⟨⟨⟨_, key⟩, direction⟩, _⟩ ⟨⟨⟨_, key'⟩, direction'⟩, _⟩ ⟨⟨⟨-, rfl⟩, directions⟩, -⟩
  obtain rfl := eq_of_option directions
  rfl

theorem placeless_bare (name : String) (step : Step) :
    Placeless P (means step (.seq (word name) (.opt emptyParens))) := by
  have parens : Placeless P emptyParens := .means (.seq (carries_token _) (carries_token _)) _
  exact .means (.seq (carries_word name) parens.opt) step

theorem placeless_step : Placeless P step := by
  refine carries_oneOf (placeless_counted _ _) ?_
  simpa using ⟨placeless_counted _ _, placeless_sort, placeless_bare _ _, placeless_bare _ _⟩

/-- Drafts that differ at most in the place of their content. -/
structure Draft.Moved (P : Text.Position → Text.Position → Prop) (d d' : Draft) : Prop where
  content : d.content = d'.content
  place : P d.position d'.position
  description : d.description = d'.description
  tags : d.tags = d'.tags

inductive Command.Moved (P : Text.Position → Text.Position → Prop) : Command → Command → Prop where
  | insert {drafts drafts' : List Draft} (moved : List.Forall₂ (Draft.Moved P) drafts drafts') :
      Moved P (.insert drafts) (.insert drafts')
  | ready (q : Query) : Moved P (.ready q) (.ready q)

theorem carries_draft : Carries P (Draft.Moved P) draft := by
  refine .map (.seq (.seq (carries_token _) (carries_token _).opt) (.many (carries_token _) 0 none)) ?_
  rintro ⟨⟨content, description⟩, tags⟩ ⟨⟨content', description'⟩, tags'⟩
    ⟨⟨moved, described⟩, tagged⟩
  refine ⟨congrArg unquote moved.text, moved.place, ?_, ?_⟩
  · cases described with
    | none => rfl
    | some same => exact congrArg unquote same.text
  · have names := List.rel_map (R := Token.Moved P) (P := Eq) (fun _ _ => tagName_moved) tagged
    rwa [List.forall₂_eq_eq_eq] at names

theorem carries_insert : Carries P (Command.Moved P) insert :=
  .map (.seq (.seq (.either (carries_word _) (carries_token _))
    (.sepBy1 carries_draft (carries_token _))) (carries_token _).opt)
    fun _ _ related => .insert related.1.2

theorem carries_filter : Carries P (Command.Moved P) filter := by
  refine .map (.seq placeless_condition.opt
    (.many ((carries_token _).preceded placeless_step) 0 none)) ?_
  rintro ⟨condition, steps⟩ ⟨condition', steps'⟩ ⟨conditions, taken⟩
  obtain rfl := eq_of_option conditions
  rw [List.forall₂_eq_eq_eq] at taken
  obtain rfl := taken
  exact .ready _

theorem carries_ready {g : Reader β} (h : Carries P S g) (q : Query) :
    Carries P (Command.Moved P) (means (.ready q) g) :=
  .map h fun _ _ _ => .ready q

theorem carries_command : Carries P (Command.Moved P) command := by
  refine carries_oneOf carries_insert ?_
  simpa using ⟨carries_ready (carries_word _) _, carries_ready (carries_words _ _) _,
    carries_filter⟩

end Reader

/-- The same value, or the same kind of error with the same words at the corresponding place. -/
inductive Agree (P : Text.Position → Text.Position → Prop) {α : Type} :
    Except ParseError α → Except ParseError α → Prop where
  | ok (v : α) : Agree P (.ok v) (.ok v)
  | refused {e e' : Expectation} (place : P e.position e'.position) (found : e.found = e'.found)
      (expected : e.expected = e'.expected)
      (suggestion : ParseError.suggestion e = ParseError.suggestion e') :
      Agree P (.error (.refused e)) (.error (.refused e'))
  | tooDeep {p p' : Text.Position} (place : P p p') :
      Agree P (.error (.excess (.tooDeep p))) (.error (.excess (.tooDeep p')))
  | tooLong {p p' : Text.Position} (place : P p p') :
      Agree P (.error (.excess (.tooLong p))) (.error (.excess (.tooLong p')))
  | markup {p p' : Text.Position} (place : P p p') (inner : Markup.Error) :
      Agree P (.error (.markup p inner)) (.error (.markup p' inner))

theorem Expectation.Moved.agree {α : Type} {e e' : Expectation} (h : e.Moved P e') :
    Agree P (.error (.refused e) : Except ParseError α) (.error (.refused e')) := by
  refine .refused h.place h.found h.expected ?_
  rw [ParseError.suggestion, ParseError.suggestion, h.found]

theorem Agree.map {α β : Type} {a b : Except ParseError α} (h : Agree P a b) (f : α → β) :
    Agree P (a.map f) (b.map f) := by
  cases h with
  | ok v => exact .ok (f v)
  | refused place found expected suggestion => exact .refused place found expected suggestion
  | tooDeep place => exact .tooDeep place
  | tooLong place => exact .tooLong place
  | markup place inner => exact .markup place inner

theorem Agree.bind {α β : Type} {a b : Except ParseError α} {f g : α → Except ParseError β}
    (h : Agree P a b) (further : ∀ v, Agree P (f v) (g v)) : Agree P (a >>= f) (b >>= g) := by
  cases h with
  | ok v => exact further v
  | refused place found expected suggestion => exact .refused place found expected suggestion
  | tooDeep place => exact .tooDeep place
  | tooLong place => exact .tooLong place
  | markup place inner => exact .markup place inner

theorem agree_definition {d d' : Reader.Draft} (h : d.Moved P d') :
    Agree P d.definition d'.definition := by
  unfold Reader.Draft.definition
  rw [h.content, h.description, h.tags]
  split
  · exact .ok _
  · exact .markup h.place _

theorem agree_definitions {drafts drafts' : List Reader.Draft}
    (h : List.Forall₂ (Reader.Draft.Moved P) drafts drafts') :
    Agree P (drafts.mapM Reader.Draft.definition) (drafts'.mapM Reader.Draft.definition) := by
  induction h with
  | nil => exact .ok []
  | cons first others ih =>
    rw [List.mapM_cons, List.mapM_cons]
    exact (agree_definition first).bind fun d => ih.bind fun ds => .ok (d :: ds)

theorem agree_query {command command' : Reader.Command} (h : command.Moved P command') :
    Agree P command.query command'.query := by
  cases h with
  | insert moved => exact (agree_definitions moved).map _
  | ready q => exact .ok q

inductive Excess.Moved (P : Text.Position → Text.Position → Prop) : Excess → Excess → Prop where
  | tooDeep {p p' : Text.Position} (place : P p p') : Moved P (.tooDeep p) (.tooDeep p')
  | tooLong {p p' : Text.Position} (place : P p p') : Moved P (.tooLong p) (.tooLong p')

theorem next_moved (l : Levels) {t t' : Token Kind} (h : t.Moved P t') : l.next t = l.next t' := by
  have word (w : String) : isWord t w = isWord t' w := by rw [isWord, isWord, h.kind, h.text]
  simp only [Levels.next, h.kind, word]

theorem moved_excess? (l : Levels) {ts ts' : List (Token Kind)}
    (h : List.Forall₂ (Token.Moved P) ts ts') :
    Option.Rel (Excess.Moved P) (excess? l ts) (excess? l ts') := by
  induction h generalizing l with
  | nil => exact .none
  | cons head others ih =>
    unfold excess?
    rw [next_moved l head]
    dsimp only
    split
    · exact .some (.tooLong head.place)
    · split
      · exact .some (.tooDeep head.place)
      · exact ih _

theorem parseAll_ne_endless (c : Cursor Kind) :
    Grammar.parseAll Reader.named Reader.command c ≠ .error .endless := by
  have ends := command_ne_endless c
  unfold Grammar.parseAll Grammar.run Grammar.requireEnd
  split
  · rename_i f failed
    rw [failed] at ends
    exact fun same => ends (congrArg Except.error (Except.error.inj same))
  · split
    · exact nofun
    · exact nofun

theorem agree_parse {text text' : String} (order : KeepsOrder P)
    (h : (stream text).Moved P (stream text')) : Agree P (parse text) (parse text') := by
  obtain ⟨c, c', entered, entered', start⟩ := h.enter
  have bounds := moved_excess? {} h.tokens
  have ends := endsAll_parseAll order Reader.placeless_named Reader.carries_command start
  have begun := parseAll_ne_endless c
  unfold parse
  simp only [entered, entered']
  generalize excess? {} (stream text).tokens = x, excess? {} (stream text').tokens = x' at bounds
  cases bounds with
  | some moved =>
    cases moved with
    | tooDeep place => exact .tooDeep place
    | tooLong place => exact .tooLong place
  | none =>
    dsimp only
    generalize Grammar.parseAll Reader.named Reader.command c = o,
      Grammar.parseAll Reader.named Reader.command c' = o' at ends begun
    cases ends with
    | accepted moved => exact agree_query moved
    | refused moved => exact Expectation.Moved.agree moved
    | endless => exact absurd rfl begun

end Wordhoard.Query
