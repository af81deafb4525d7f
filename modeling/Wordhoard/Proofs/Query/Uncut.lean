import Wordhoard.Proofs.Grammar.Consumption
import Wordhoard.Proofs.Query.Refusal

/-! Texts that cannot be cut into tokens to their end. Main statement: a run fails with the rest of
such a text just when it takes, in any branch, the token before it, and a query that is read stands
in a text that is cut as a whole. -/
namespace Wordhoard.Query

open Grammar (Consumes interpret_eq_tokenize_iff requireEnd_eq_tokenize_iff)

theorem parse_eq_error {text : String} {e : ParseError} (h : parse text = .error e) :
    (∃ u, e = .tokenize u ∧ (stream text).enter = .error u) ∨
      ∃ c, (stream text).enter = .ok c ∧
        ((∃ x, e = .excess x ∧ excess? {} (stream text).tokens = some x) ∨
          (∃ u, e = .tokenize u ∧
            Grammar.parseAll Reader.named Reader.command c = .error (.tokenize u)) ∨
          (∃ x, e = .refused x) ∨
          ∃ command, Grammar.parseAll Reader.named Reader.command c = .ok command ∧
            command.query = .error e) := by
  unfold parse at h
  dsimp only at h
  split at h
  · rename_i u stuck
    cases h
    exact .inl ⟨u, rfl, stuck⟩
  · rename_i c entered
    refine .inr ⟨c, entered, ?_⟩
    split at h
    · rename_i x excess
      cases h
      exact .inl ⟨x, rfl, excess⟩
    · split at h
      · rename_i failure failed
        cases failure with
        | tokenize u =>
          cases h
          exact .inr (.inl ⟨u, rfl, failed⟩)
        | expected x =>
          cases h
          exact .inr (.inr (.inl ⟨x, rfl⟩))
        | endless =>
          cases h
          exact .inr (.inr (.inl ⟨_, rfl⟩))
      · rename_i command accepted
        exact .inr (.inr (.inr ⟨command, accepted, h⟩))

theorem ending_of_tokenize {text : String} {u : TokenizeError}
    (h : parse text = .error (.tokenize u)) : (stream text).ending = .stuck u := by
  rcases parse_eq_error h with
    ⟨_, same, stuck⟩ | ⟨c, entered, ⟨x, same, -⟩ | ⟨_, same, stopped⟩ | ⟨x, same⟩ | ⟨command, -, failed⟩⟩
  · cases same
    exact congrArg Stream.ending (Stream.eq_of_enter stuck)
  · cases same
  · cases same
    exact Grammar.ending_of_tokenize entered (requireEnd_eq_tokenize_iff.1 stopped)
  · cases same
  · obtain ⟨_, -, _, -, _, same⟩ := markup_of_query failed
    cases same

theorem ending_of_query {text : String} {q : Query} (h : parse text = .ok q) :
    ∃ p, (stream text).ending = .finished p := by
  unfold parse at h
  dsimp only at h
  split at h
  · cases h
  · rename_i c entered
    split at h
    · cases h
    · split at h
      · cases h
      · rename_i command accepted
        obtain ⟨p, ls, w, whole, -⟩ := sentence_of_parseAll accepted
        rw [Stream.stream_of_enter entered] at whole
        exact ⟨p, congrArg Stream.ending whole⟩

/-- A run fails with a rest that cannot be cut just when it takes the token before that rest, in
whichever branch; what it fails with is what stops the cutting of the whole text. A query that is not
read for such a rest is told of just that rest, and a query that is read has none. -/
theorem tokenize_iff_consumed {κ ν α : Type} {τ : ν → Type} [DecidableEq κ] [TokenKind κ]
    (table : List (Rule κ)) (rules : Grammar.Rules κ τ) (g : Grammar κ τ α) (text : String)
    (u : TokenizeError) :
    (∀ c, (Rule.stream table text).enter = .ok c →
      (Grammar.run rules g c = .error (.tokenize u) ↔
        ∃ t s, Consumes rules (rules.depth c) g c t s ∧ s.enter = .error u) ∧
      (Grammar.parseAll rules g c = .error (.tokenize u) ↔
        ∃ t s, Consumes rules (rules.depth c) g c t s ∧ s.enter = .error u) ∧
      (Grammar.run rules g c = .error (.tokenize u) →
        (Rule.stream table text).toList? = .error u)) ∧
    (parse text = .error (.tokenize u) → (stream text).toList? = .error u) ∧
    ∀ q, parse text = .ok q → ∃ ts, (stream text).toList? = .ok ts := by
  refine ⟨fun c entered => ⟨interpret_eq_tokenize_iff, ?_, fun stopped => ?_⟩, fun stopped => ?_,
    fun q read => ?_⟩
  · exact requireEnd_eq_tokenize_iff.trans interpret_eq_tokenize_iff
  · rw [Stream.toList?, Grammar.ending_of_tokenize entered stopped]
  · rw [Stream.toList?, ending_of_tokenize stopped]
  · obtain ⟨p, finished⟩ := ending_of_query read
    exact ⟨(stream text).tokens, by rw [Stream.toList?, finished]⟩

/-- The word that may be a whole query is taken, and then neither the query nor the shorter ones that
the grammar would still try are read. -/
theorem consumed_before_dollar :
    parse "session $" = .error (.tokenize ⟨⟨8, 1, 9, 1, 9⟩, "$"⟩) ∧
      (stream "session $").toList? = .error ⟨⟨8, 1, 9, 1, 9⟩, "$"⟩ ∧
      ∃ c t s, (stream "session $").enter = .ok c ∧
        Consumes Reader.named (Reader.named.depth c) Reader.command c t s ∧
        s.enter = .error ⟨⟨8, 1, 9, 1, 9⟩, "$"⟩ := by
  have stopped : parse "session $" = .error (.tokenize ⟨⟨8, 1, 9, 1, 9⟩, "$"⟩) := by decide +kernel
  obtain ⟨runs, reads, -⟩ := tokenize_iff_consumed rules Reader.named Reader.command "session $"
    ⟨⟨8, 1, 9, 1, 9⟩, "$"⟩
  refine ⟨stopped, reads stopped, ?_⟩
  have starts : (stream "session $").tokens ≠ [] := by decide +kernel
  rcases parse_eq_error stopped with ⟨u, -, stuck⟩ | ⟨c, entered, others⟩
  · exact absurd (congrArg Stream.tokens (Stream.eq_of_enter stuck)) starts
  · obtain ⟨x, same, -⟩ | ⟨u, same, failed⟩ | ⟨x, same⟩ | ⟨command, -, failed⟩ := others
    · cases same
    · cases same
      obtain ⟨t, s, consumes, stuck⟩ := (runs c entered).2.1.1 failed
      exact ⟨c, t, s, entered, consumes, stuck⟩
    · cases same
    · obtain ⟨_, -, _, -, _, same⟩ := markup_of_query failed
      cases same

end Wordhoard.Query
