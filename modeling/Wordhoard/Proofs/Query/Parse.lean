import Wordhoard.Proofs.Query.Complete

/-! Reading a query. Main statement: a text within the bounds on its shape is read as a query just
when the documented grammar derives its tokens, and every derivation denotes what was read. -/
namespace Wordhoard.Query

open Grammar (Leaf Passes)

variable {ls : List (Leaf Kind)}

theorem sentence_of_accepted {depth : Nat} {c : Cursor Kind} {command : Reader.Command}
    {rest : Cursor Kind} (accepted : (Grammar.watch (Reader.named.watchCall depth) Reader.command
      c).verdict = .accepted command rest) :
    ∃ ls w, Passes c ls rest ∧ command = Written.command w ∧ Sentence ls w := by
  have follows := Grammar.follows_watch (Grammar.follows_call sound_named plain_named depth)
    Reader.command plain_command c
  obtain ⟨ls, passes, derived⟩ := follows.accepted command rest accepted
  obtain ⟨w, same, sentence⟩ := sound_command derived
  exact ⟨ls, w, passes, same, sentence⟩

theorem sentence_of_parseAll {c : Cursor Kind} {command : Reader.Command}
    (h : Grammar.parseAll Reader.named Reader.command c = .ok command) :
    ∃ p ls w, c.stream = ⟨ls.map Leaf.token, .finished p⟩ ∧ command = Written.command w ∧
      Sentence ls w := by
  obtain ⟨p, accepted⟩ := Grammar.accepted_of_parseAll h
  obtain ⟨ls, w, passes, same, sentence⟩ := sentence_of_accepted accepted
  have whole : c.stream = (Cursor.finished p).stream.prepend (ls.map Leaf.token) := passes
  exact ⟨p, ls, w, by simpa [Cursor.stream, Stream.prepend] using whole, same, sentence⟩

theorem parseAll_of_sentence {w : Written} (h : Sentence ls w) (p : Text.Position) :
    Grammar.parseAll Reader.named Reader.command (.ofTokens p (ls.map Leaf.token)) =
      .ok w.command := by
  have enough : 2 * ls.length < Reader.named.depth (.ofTokens p (ls.map Leaf.token)) := by
    simp only [Grammar.Rules.depth, Reader.named, Cursor.remaining_ofTokens, List.length_map]
    omega
  exact Grammar.parseAll_of_accepts (accepts_sentence h enough)

theorem Entry.definition_eq_ok {e : Entry} {d : Definition} :
    e.draft.definition = .ok d ↔ e.Denotes d := by
  obtain ⟨content, description, tags⟩ := d
  unfold Reader.Draft.definition Entry.Denotes
  constructor
  · intro h
    split at h
    · rename_i read
      cases h
      exact ⟨read, rfl, rfl⟩
    · cases h
  · rintro ⟨read, described, tagged⟩
    have read : Markup.parse e.draft.content = .ok content := read
    dsimp only at described tagged
    rw [read, described, tagged]
    rfl

theorem definitions_eq_ok {entries : List Entry} {ds : List Definition} :
    (entries.map Entry.draft).mapM Reader.Draft.definition = .ok ds ↔
      List.Forall₂ Entry.Denotes entries ds := by
  induction entries generalizing ds with
  | nil =>
    constructor
    · intro h
      cases h
      exact .nil
    · rintro ⟨⟩
      rfl
  | cons e entries ih =>
    rw [List.map_cons, List.mapM_cons]
    constructor
    · intro h
      cases first : e.draft.definition with
      | error _ => rw [first] at h; cases h
      | ok d =>
        cases others : (entries.map Entry.draft).mapM Reader.Draft.definition with
        | error _ => rw [first, others] at h; cases h
        | ok ds' =>
          rw [first, others] at h
          cases h
          exact .cons (Entry.definition_eq_ok.1 first) (ih.1 others)
    · rintro ⟨⟩
      rename_i first others
      rw [Entry.definition_eq_ok.2 first, ih.2 others]
      rfl

theorem Written.query_eq_ok {w : Written} {q : Query} : w.command.query = .ok q ↔ w.Denotes q := by
  cases w with
  | ready r => exact ⟨fun h => by cases h; rfl, fun h => congrArg Except.ok h⟩
  | insert entries =>
    have query : (Written.insert entries).command.query =
        ((entries.map Entry.draft).mapM Reader.Draft.definition).map Query.insert := rfl
    rw [query]
    constructor
    · intro h
      cases read : (entries.map Entry.draft).mapM Reader.Draft.definition with
      | error _ => rw [read] at h; cases h
      | ok ds =>
        rw [read] at h
        cases h
        exact definitions_eq_ok.1 read
    · intro h
      cases q with
      | insert ds => rw [definitions_eq_ok.2 h]; rfl
      | _ => exact h.elim

theorem parse_eq_of_derivation {text : String} {w : Written}
    (allowed : excess? {} (stream text).tokens = none) (h : Derivation text ls w) :
    parse text = w.command.query := by
  obtain ⟨⟨p, ending⟩, tokens, sentence⟩ := h
  have whole : stream text = ⟨ls.map Leaf.token, .finished p⟩ := by
    rw [← ending, tokens]
  rw [whole] at allowed
  rw [parse, whole]
  simp only [Stream.enter_ofTokens, allowed, parseAll_of_sentence sentence]

theorem derivation_of_parse {text : String} {q : Query} (h : parse text = .ok q) :
    ∃ ls w, Derivation text ls w := by
  unfold parse at h
  dsimp only at h
  split at h
  · cases h
  · rename_i c entered
    split at h
    · cases h
    · split at h
      · cases h
      · rename_i command all
        obtain ⟨p, ls, w, whole, -, sentence⟩ := sentence_of_parseAll all
        rw [Stream.stream_of_enter entered] at whole
        exact ⟨ls, w, ⟨p, by rw [whole]⟩, by rw [whole], sentence⟩

/-- A text within the bounds on the shape of queries is read as a query just when all of it can be
cut into tokens that the documented grammar derives and the contents of definitions are markup, and
then every such derivation denotes the query that was read. -/
theorem parse_eq_ok_iff_derivation {text : String}
    (allowed : excess? {} (stream text).tokens = none) (q : Query) :
    (parse text = .ok q ↔ ∃ ls w, Derivation text ls w ∧ w.Denotes q) ∧
      (parse text = .ok q → ∀ ls w, Derivation text ls w → w.Denotes q) := by
  have denotes : parse text = .ok q → ∀ ls w, Derivation text ls w → w.Denotes q := by
    intro read ls w derivation
    rw [parse_eq_of_derivation allowed derivation] at read
    exact Written.query_eq_ok.1 read
  refine ⟨⟨fun read => ?_, ?_⟩, denotes⟩
  · obtain ⟨ls, w, derivation⟩ := derivation_of_parse read
    exact ⟨ls, w, derivation, denotes read ls w derivation⟩
  · rintro ⟨ls, w, derivation, denoted⟩
    rw [parse_eq_of_derivation allowed derivation]
    exact Written.query_eq_ok.2 denoted

theorem derivation_of_filter :
    excess? {} (stream "not #a & (reviews >= 3 OR *) | limit(5)").tokens = none ∧
      ∃ ls w, Derivation "not #a & (reviews >= 3 OR *) | limit(5)" ls w ∧
        w.Denotes (.filter (.and (.not (.hasTag "a")) (.or (.compare .reviews .ge 3) .all))
          [.limit 5]) :=
  have allowed : excess? {} (stream "not #a & (reviews >= 3 OR *) | limit(5)").tokens = none := by
    decide +kernel
  have read : parse "not #a & (reviews >= 3 OR *) | limit(5)" =
      .ok (.filter (.and (.not (.hasTag "a")) (.or (.compare .reviews .ge 3) .all)) [.limit 5]) := by
    decide +kernel
  ⟨allowed, (parse_eq_ok_iff_derivation allowed _).1.1 read⟩

end Wordhoard.Query
