import Wordhoard.Proofs.Query.RoundTrip

/-! The text that lists all words or those that wait for a review, up to a limit. Main statement: it is
read as this filter, whatever number of words the limit lets through. -/
namespace Wordhoard.Query

open Grammar (Leaf Row)

variable {apart unreviewed : Bool} {limit : Option Nat} {ls : List (Leaf Kind)}

/-- The query for the stored words, or those that wait for a review, up to a limit. A blank may stand
before the limit. -/
def listing (apart unreviewed : Bool) (limit : Option Nat) : String :=
  (if unreviewed then "not reviewed" else "") ++ (if apart then " " else "") ++
    limit.elim "" fun n => "| limit(" ++ toString n ++ ")"

example : listing true true (some 20) = "not reviewed | limit(20)" := by decide

def waiting (unreviewed : Bool) : Condition := if unreviewed then .not .reviewed else .all

def waitingLexemes (unreviewed : Bool) : List Lexeme :=
  if unreviewed then (Condition.not .reviewed).lexemes else []

def limitLexemes : Option Nat → List Lexeme
  | none => []
  | some n => .mark .pipe :: .blank :: (Step.limit n).lexemes

def listingLexemes (apart unreviewed : Bool) (limit : Option Nat) : List Lexeme :=
  waitingLexemes unreviewed ++ ((if apart then [.blank] else []) ++ limitLexemes limit)

theorem listing_eq (apart unreviewed : Bool) (limit : Option Nat) : listing apart unreviewed limit =
    String.ofList ((listingLexemes apart unreviewed limit).flatMap Lexeme.chars) := by
  have chars : (listing apart unreviewed limit).toList =
      (listingLexemes apart unreviewed limit).flatMap Lexeme.chars := by
    have selection : (if unreviewed then "not reviewed" else "").toList =
        (waitingLexemes unreviewed).flatMap Lexeme.chars := by
      cases unreviewed <;> decide
    have gap : (if apart then " " else "").toList =
        (if apart then [Lexeme.blank] else []).flatMap Lexeme.chars := by
      cases apart <;> rfl
    have bound : (limit.elim "" fun n => "| limit(" ++ toString n ++ ")").toList =
        (limitLexemes limit).flatMap Lexeme.chars := by
      cases limit with
      | none => rfl
      | some n => simp [limitLexemes, Step.lexemes, called, enclosed, Lexeme.chars, Mark.char]
    simp only [listing, listingLexemes, String.toList_append, List.flatMap_append, selection, gap,
      bound, List.append_assoc]
  rw [← chars, String.ofList_toList]

theorem tidy_limit (n : Nat) : Tidy (limitLexemes (some n)) :=
  (tidy_mark .pipe).spaced (tidy_step (.limit n))

theorem proper_listing : ∀ x ∈ listingLexemes apart unreviewed limit, x.Proper := by
  refine List.forall_mem_append.2 ⟨?_, List.forall_mem_append.2 ⟨?_, ?_⟩⟩
  · cases unreviewed with
    | false => exact List.forall_mem_nil _
    | true => exact (tidy_condition (.not .reviewed)).proper
  · cases apart with
    | false => exact List.forall_mem_nil _
    | true => exact List.forall_mem_singleton.2 trivial
  · cases limit with
    | none => exact List.forall_mem_nil _
    | some n => exact (tidy_limit n).proper

theorem chain_listing :
    (listingLexemes apart unreviewed limit).IsChain fun x y => x.joins y := by
  have words : waitingLexemes true = [.word "not", .blank, .word "reviewed"] := rfl
  have none : waitingLexemes false = [] := rfl
  cases apart <;> cases unreviewed <;> cases limit <;>
    simp [listingLexemes, words, none, limitLexemes, Step.lexemes, called, enclosed, Lexeme.joins,
      Lexeme.breaks, Lexeme.visible]

theorem goes_listing : Goes {} (listingLexemes apart unreviewed limit) {} := by
  have selection : Goes {} (waitingLexemes unreviewed) {} := ?selection
  have gap : Goes {} (if apart then [.blank] else []) {} := ?gap
  have bound : Goes {} (limitLexemes limit) {} := ?bound
  · exact selection.append (gap.append bound)
  case selection =>
    cases unreviewed with
    | false => exact goes_nil
    | true => exact goes_condition (.not .reviewed) {} (by decide) (by decide)
  case gap =>
    cases apart with
    | false => exact goes_nil
    | true => exact goes_nil.blank
  case bound =>
    cases limit with
    | none => exact goes_nil
    | some n =>
      have step := passable_step (.limit n) 0 (Nat.zero_le _)
      exact .mark ⟨by decide, by decide⟩ step.blank

theorem selection_of_spells (h : Spells (waitingLexemes unreviewed) ls) :
    Selection ls (waiting unreviewed) := by
  cases unreviewed with
  | false =>
    rw [h.eq_nil]
    exact .none
  | true =>
    have range : (Condition.not .reviewed).InRange := trivial
    exact .some ((derives_condition range h).raise (Condition.level _).looseness_le_expr)

theorem piped_of_spells (fits : ∀ n ∈ limit, n < UInt64.size) (h : Spells (limitLexemes limit) ls) :
    Row PipedStep ls (limit.toList.map .limit) := by
  cases limit with
  | none =>
    rw [h.eq_nil]
    exact .nil
  | some n =>
    obtain ⟨bar, ls, rfl, isBar, h⟩ := h.visible rfl
    have step : StepOf ls (.limit n) := stepOf_lexemes (fits n rfl) h.blank_cons
    have row := Row.cons (S := PipedStep) ⟨bar, ls, rfl, isBar.isMark, step⟩ .nil
    rwa [List.append_nil] at row

theorem parse_listing (apart unreviewed : Bool) (fits : ∀ n ∈ limit, n < UInt64.size) :
    parse (listing apart unreviewed limit) =
      .ok (.filter (waiting unreviewed) (limit.toList.map .limit)) := by
  have proper : ∀ x ∈ listingLexemes apart unreviewed limit, x.Proper := proper_listing
  obtain ⟨ls, p, scanned, spelled⟩ := spells_scan _ proper chain_listing _ .start (Nat.le_refl _)
  have whole : stream (listing apart unreviewed limit) = ⟨ls.map Leaf.token, .finished p⟩ := by
    rw [stream, Rule.stream, ← scanned, listing_eq, String.toList_ofList, String.length_ofList]
  have allowed : excess? {} (stream (listing apart unreviewed limit)).tokens = none := by
    rw [whole]
    exact excess?_of_goes goes_listing spelled
  obtain ⟨selected, behind, rfl, selection, rest⟩ := Spells.of_append spelled
  obtain ⟨gap, piped, rfl, blank, bound⟩ := Spells.of_append rest
  have none : gap = [] := by
    cases apart with
    | false => exact blank.eq_nil
    | true => exact blank.blank_cons.eq_nil
  subst none
  have derivation : Derivation (listing apart unreviewed limit) (selected ++ piped)
      (.ready (.filter (waiting unreviewed) (limit.toList.map .limit))) :=
    ⟨⟨p, by rw [whole]⟩, by rw [whole]; rfl,
      .filter (selection_of_spells selection) (piped_of_spells fits bound)⟩
  rw [parse_eq_of_derivation allowed derivation]
  rfl

end Wordhoard.Query
