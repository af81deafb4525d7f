import Wordhoard.Proofs.Query.RoundTrip

/-! The text that inserts one word, whatever stands between its quotes. Main statement: it is read as
the definition that its texts describe, and fails just when the content is no markup. -/
namespace Wordhoard.Query

open Grammar (Leaf Row)

variable {content description : String} {tags : List String} {ls : List (Leaf Kind)}

def insertionLexemes (content description : String) (tags : List String) : List Lexeme :=
  .word "insert" :: .blank :: draftLexemes content description tags

def insertion (content description : String) (tags : List String) : String :=
  String.ofList ((insertionLexemes content description tags).flatMap Lexeme.chars)

example : insertion "a(\"b\")\\" "" ["x", "y"] = "insert \"a(\\\"b\\\")\\\\\" \"\" #x #y" := by
  decide +kernel

theorem tidy_insertion (valid : ∀ tag ∈ tags, isValidTag tag) :
    Tidy (insertionLexemes content description tags) :=
  (tidy_word (by decide)).spaced (tidy_draft valid content description)

theorem calm_insertion : ∀ x ∈ insertionLexemes content description tags, x.calm := by
  simpa [insertionLexemes, Lexeme.calm] using calm_draft content description tags

theorem sentence_of_insertion (valid : ∀ tag ∈ tags, isValidTag tag)
    (h : Spells (insertionLexemes content description tags) ls) :
    ∃ e : Entry, Sentence ls (.insert [e]) ∧ e.draft.content = content ∧
      e.draft.description = description ∧ e.draft.tags = tags := by
  obtain ⟨start, ls, rfl, begun, h⟩ := h.visible rfl
  obtain ⟨e, rfl, proper, written, described, tagged⟩ := draft_of_spells valid h.blank_cons
  have sentence : Sentence (start :: (e.leaves ++ [] ++ Option.toList none)) (.insert [e]) :=
    .insert (.inl begun.isWord) proper .nil (by rintro _ ⟨⟩)
  simp only [Option.toList_none, List.append_nil] at sentence
  exact ⟨e, sentence, written, described, tagged⟩

theorem parse_insertion (valid : ∀ tag ∈ tags, isValidTag tag) (content description : String) :
    ∃ p, parse (insertion content description tags) =
      match Markup.parse content with
      | .ok pieces => .ok (.insert [⟨pieces, description, .ofList tags⟩])
      | .error e => .error (.markup p e) := by
  have tidy : Tidy (insertionLexemes content description tags) := tidy_insertion valid
  obtain ⟨ls, p, whole, spelled⟩ := exists_leaves tidy
  obtain ⟨e, sentence, written, described, tagged⟩ := sentence_of_insertion valid spelled
  have allowed : excess? {} (stream (insertion content description tags)).tokens = none := by
    rw [insertion, whole]
    exact excess?_of_goes (passable_of_calm tidy.proper calm_insertion 0 (Nat.zero_le _)) spelled
  have derivation : Derivation (insertion content description tags) ls (.insert [e]) :=
    ⟨⟨p, by rw [insertion, whole]⟩, by rw [insertion, whole], sentence⟩
  have one : (Written.insert [e]).command.query =
      e.draft.definition.map fun d => Query.insert [d] := by
    have query : (Written.insert [e]).command.query =
        ([e.draft].mapM Reader.Draft.definition).map Query.insert := rfl
    rw [query, List.mapM_cons]
    cases e.draft.definition with
    | ok d => rfl
    | error e => rfl
  refine ⟨e.draft.position, ?_⟩
  rw [parse_eq_of_derivation allowed derivation, one, Reader.Draft.definition, written, described,
    tagged]
  cases Markup.parse content with
  | ok pieces => rfl
  | error e => rfl

end Wordhoard.Query
