import Wordhoard.Proofs.Grammar.Loops
import Wordhoard.Query.Token

/-! Repetitions of items that may be empty. Main statement: a repetition of any items returns, with at
most one item more than tokens were left; a row of items and separators does so just when it comes to
no round that gives its cursor back, and otherwise it never returns. -/
namespace Wordhoard.Grammar

variable {κ ν : Type} {τ : ν → Type} {α β : Type}

/-- The run comes to an end wherever it starts. -/
def Returns (run : Cursor κ → Outcome κ α) : Prop := ∀ c, run c ≠ .error .endless

/-- The row comes to an end: its first item fails, or the separators and items behind it end. -/
def RowEnds (item : Cursor κ → Outcome κ α) (separator : Cursor κ → Outcome κ β) (c : Cursor κ)
    (o : Outcome κ (List α)) : Prop :=
  match item c with
  | .error f => o = .error f
  | .ok a => Separates item separator [a.value] a.rest a.furthest o

/-- The row comes to a round that gives its cursor back. -/
def Stalls (item : Cursor κ → Outcome κ α) (separator : Cursor κ → Outcome κ β) (c : Cursor κ) :
    Prop :=
  ∃ a k d, item c = .ok a ∧ Rounds (Turn item separator) k a.rest d ∧ Idle item separator d

variable {item : Cursor κ → Outcome κ α} {separator : Cursor κ → Outcome κ β} {values : List α}
  {rest c : Cursor κ} {furthest : Option Expectation} {o : Outcome κ (List α)}

theorem moves_of_not_idle (onward : Onward item) (onward' : Onward separator) {s : Parsed κ β}
    {p : Parsed κ α} (between : separator rest = .ok s) (round : item s.rest = .ok p)
    (busy : ¬ Idle item separator rest) : p.rest.remaining < rest.remaining := by
  refine Decidable.byContradiction fun still => ?_
  have reaches := (onward' _ _ between).trans (onward _ _ round)
  exact busy ⟨s, p, between, round, reaches.eq_of_remaining still⟩

/-- As long as no round gives its cursor back, the tokens run out. -/
theorem exists_separates (onward : Onward item) (onward' : Onward separator) (values : List α)
    (rest : Cursor κ) (furthest : Option Expectation)
    (busy : ∀ k d, Rounds (Turn item separator) k rest d → ¬ Idle item separator d) :
    ∃ o, Separates item separator values rest furthest o := by
  cases between : separator rest with
  | error f =>
    cases f with
    | expected e => exact ⟨_, .refused between⟩
    | tokenize e => exact ⟨_, .stopped (.inl between) (fatal_tokenize e)⟩
    | endless => exact ⟨_, .stopped (.inl between) fatal_endless⟩
  | ok s =>
    cases round : item s.rest with
    | error f =>
      cases f with
      | expected e => exact ⟨_, .givenBack between round⟩
      | tokenize e => exact ⟨_, .stopped (.inr ⟨s, between, round⟩) (fatal_tokenize e)⟩
      | endless => exact ⟨_, .stopped (.inr ⟨s, between, round⟩) fatal_endless⟩
    | ok p =>
      have moves := moves_of_not_idle onward onward' between round (busy 0 rest (.none rest))
      obtain ⟨o, others⟩ := exists_separates onward onward' (values ++ [p.value]) p.rest _
        fun k d taken => busy (k + 1) d (.more ⟨s, p, between, round, rfl, moves⟩ taken)
      exact ⟨o, .more between round others⟩
termination_by rest.remaining

theorem Separates.length_le (h : Separates item separator values rest furthest o)
    (onward : Onward item) (onward' : Onward separator) {a : Parsed κ (List α)}
    (accepted : o = .ok a) : a.value.length ≤ values.length + rest.remaining := by
  induction h with
  | refused =>
    cases accepted
    dsimp only
    omega
  | givenBack =>
    cases accepted
    dsimp only
    omega
  | more between round others ih =>
    have bound := ih accepted
    have busy := (Separates.more between round others).not_idle
    have moves := moves_of_not_idle onward onward' between round busy
    rw [List.length_append, List.length_singleton] at bound
    omega
  | stopped => cases accepted

theorem Separates.ne_endless (h : Separates item separator values rest furthest o)
    (returns : Returns item) (returns' : Returns separator) : o ≠ .error .endless := by
  induction h with
  | refused => nofun
  | givenBack => nofun
  | more between round others ih => exact ih
  | stopped stopped fatal =>
    intro endless
    cases endless
    rcases stopped with stopped | ⟨s, -, stopped⟩
    · exact returns' _ stopped
    · exact returns _ stopped

theorem runSeparated_of_idle {k : Nat} {d : Cursor κ}
    (taken : Rounds (Turn item separator) k rest d) (idle : Idle item separator d) (rounds : Nat)
    (values : List α) (furthest : Option Expectation) :
    runSeparated item separator rounds values rest furthest = .error .endless := by
  induction taken generalizing rounds values furthest with
  | none c =>
    obtain ⟨s, p, between, round, same⟩ := idle
    unfold runSeparated
    simp only [between, round, same, Nat.lt_irrefl, if_false]
  | more first others ih =>
    obtain ⟨s, p, between, round, rfl, moves⟩ := first
    unfold runSeparated
    simp only [between, round, moves, if_true]
    cases rounds with
    | zero => rfl
    | succ n => exact ih idle n _ _

theorem RowEnds.not_stalls (h : RowEnds item separator c o) : ¬ Stalls item separator c := by
  rintro ⟨a, k, d, first, taken, idle⟩
  rw [RowEnds, first] at h
  obtain ⟨values, furthest, last⟩ := h.further taken
  exact last.not_idle idle

theorem exists_rowEnds (onward : Onward item) (onward' : Onward separator)
    (h : ¬ Stalls item separator c) : ∃ o, RowEnds item separator c o := by
  unfold RowEnds
  cases first : item c with
  | error f => exact ⟨_, rfl⟩
  | ok a =>
    exact exists_separates onward onward' [a.value] a.rest a.furthest fun k d taken idle =>
      h ⟨a, k, d, first, taken, idle⟩

theorem RowEnds.length_le (h : RowEnds item separator c o) (onward : Onward item)
    (onward' : Onward separator) {a : Parsed κ (List α)} (accepted : o = .ok a) :
    a.value.length ≤ c.remaining + 1 := by
  unfold RowEnds at h
  split at h
  · rw [accepted] at h
    cases h
  · rename_i b first
    have bound := h.length_le onward onward' accepted
    have fewer := (onward _ _ first).remaining_le
    rw [List.length_singleton] at bound
    omega

theorem RowEnds.ne_endless (h : RowEnds item separator c o) (returns : Returns item)
    (returns' : Returns separator) : o ≠ .error .endless := by
  unfold RowEnds at h
  split at h
  · rename_i f first
    intro endless
    rw [endless] at h
    cases h
    exact returns c first
  · exact h.ne_endless returns returns'

variable [DecidableEq κ] [TokenKind κ] {call : (n : ν) → Cursor κ → Outcome κ (τ n)}
  {p : Grammar κ τ α} {s : Grammar κ τ β}

theorem RowEnds.interpret_eq (h : RowEnds (interpret call p) (interpret call s) c o)
    (onward : Onward (interpret call p)) (onward' : Onward (interpret call s)) :
    interpret call (.sepBy1 p s) c = o := by
  have busy := h.not_stalls
  unfold RowEnds at h
  cases first : interpret call p c with
  | error f =>
    rw [first] at h
    simp only [interpret, first]
    exact h.symm
  | ok a =>
    rw [first] at h
    simp only [interpret, first]
    refine h.runSeparated_eq (fun k d t b taken between round => ?_) (Nat.le_refl _)
    exact moves_of_not_idle onward onward' between round fun idle =>
      busy ⟨a, k, d, first, taken, idle⟩

theorem interpret_of_stalls (h : Stalls (interpret call p) (interpret call s) c) :
    interpret call (.sepBy1 p s) c = .error .endless := by
  obtain ⟨a, k, d, first, taken, idle⟩ := h
  simp only [interpret, first]
  exact runSeparated_of_idle taken idle _ _ _

omit [DecidableEq κ] [TokenKind κ] in
theorem returns_takeToken (fits : Token κ → Bool) (description : String) :
    Returns (takeToken fits description) := by
  intro c endless
  cases c with
  | finished p => cases endless
  | token t next =>
    simp only [takeToken] at endless
    split at endless
    · cases entered : next.enter with
      | error e => rw [entered] at endless; cases endless
      | ok rest => rw [entered] at endless; cases endless
    · cases endless

theorem returns_opt (returns : Returns (interpret call p)) : Returns (interpret call (.opt p)) := by
  intro c endless
  have loop := repeats_runMany (interpret call p) 0 (some 1) c.remaining [] c none (Nat.le_refl _)
  cases inner : runMany (interpret call p) 0 (some 1) c.remaining [] c none with
  | ok a =>
    simp only [opt, interpret, inner] at endless
    cases endless
  | error f =>
    simp only [opt, interpret, inner] at endless
    cases endless
    obtain ⟨k, d, -, -, stopped⟩ := loop.exists_stopped fatal_endless inner
    exact returns d stopped

/-- A repetition of items that return and never go back returns itself, and a row does just when it
does not stall; both have at most one item more than tokens are left. A named grammar stands for any
parser here, as nothing else is asked of `call`. -/
theorem repetition_returns {call : (n : ν) → Cursor κ → Outcome κ (τ n)} {p : Grammar κ τ α}
    {s : Grammar κ τ β} (returns : Returns (interpret call p)) (returns' : Returns (interpret call s))
    (onward : Onward (interpret call p)) (onward' : Onward (interpret call s)) (least : Nat)
    (most : Option Nat) (c : Cursor κ) :
    (Repeats (interpret call p) least most [] c none (interpret call (.many p least most) c) ∧
      interpret call (.many p least most) c ≠ .error .endless ∧
      ∀ a, interpret call (.many p least most) c = .ok a → a.value.length ≤ c.remaining + 1) ∧
    (¬ Stalls (interpret call p) (interpret call s) c →
      RowEnds (interpret call p) (interpret call s) c (interpret call (.sepBy1 p s) c) ∧
      interpret call (.sepBy1 p s) c ≠ .error .endless ∧
      ∀ a, interpret call (.sepBy1 p s) c = .ok a → a.value.length ≤ c.remaining + 1) ∧
    (Stalls (interpret call p) (interpret call s) c →
      interpret call (.sepBy1 p s) c = .error .endless ∧
      ∀ o, ¬ RowEnds (interpret call p) (interpret call s) c o) := by
  have loop : Repeats (interpret call p) least most [] c none (interpret call (.many p least most) c) :=
    repeats_runMany _ _ _ _ [] c none (Nat.le_refl _)
  refine ⟨⟨loop, fun endless => ?_, fun a accepted => ?_⟩, fun busy => ?_, fun stalls => ?_⟩
  · obtain ⟨k, d, -, -, stopped⟩ := loop.exists_stopped fatal_endless endless
    exact returns d stopped
  · have bound := loop.length_le accepted
    rwa [List.length_nil, Nat.zero_add] at bound
  · obtain ⟨o, ends⟩ := exists_rowEnds onward onward' busy
    rw [ends.interpret_eq onward onward']
    exact ⟨ends, ends.ne_endless returns returns', fun a => ends.length_le onward onward'⟩
  · exact ⟨interpret_of_stalls stalls, fun o ends => ends.not_stalls stalls⟩

section

open Query (Kind)

/-- A token of the given kind or nothing. -/
def perhaps (kind : Kind) : Grammar Kind (fun _ : Empty => Unit) (Option (Token Kind)) :=
  .opt (.token kind)

theorem returns_perhaps (kind : Kind) : Returns (interpret (noRules.call 0) (perhaps kind)) :=
  returns_opt (returns_takeToken _ _)

def commaAndWord : Cursor Kind :=
  .token ⟨.comma, ",", ⟨0, 1, 1, 1, 2⟩, true⟩
    ⟨[⟨.ident, "a", ⟨1, 1, 2, 1, 3⟩, true⟩], .finished ⟨2, 1, 3, 1, 3⟩⟩

/-- A row whose items may be empty ends where every separator takes a token. -/
theorem rowEnds_of_commaAndWord :
    RowEnds (interpret (noRules.call 0) (perhaps .ident)) (interpret (noRules.call 0) (.token .comma))
      commaAndWord (.ok ⟨[none, some ⟨.ident, "a", ⟨1, 1, 2, 1, 3⟩, true⟩],
        .finished ⟨2, 1, 3, 1, 3⟩, some ⟨⟨2, 1, 3, 1, 3⟩, none, ["','"]⟩⟩) := by
  have comma : Returns (interpret (noRules.call 0) (.token (.comma : Kind))) := returns_takeToken _ _
  obtain ⟨-, ends, stops⟩ := repetition_returns (returns_perhaps .ident) comma
    (onward_interpret (nomatch ·) _) (onward_interpret (nomatch ·) _) 0 none commaAndWord
  refine (ends fun stalls => ?_).1
  cases (stops stalls).1

/-- Where items and separators may both be empty, a row at the end of the text never ends. -/
theorem not_rowEnds_of_perhaps :
    Returns (interpret (noRules.call 0) (perhaps .ident)) ∧
      Returns (interpret (noRules.call 0) (perhaps .comma)) ∧
      Onward (interpret (noRules.call 0) (perhaps .ident)) ∧
      Onward (interpret (noRules.call 0) (perhaps .comma)) ∧
      interpret (noRules.call 0) (.sepBy1 (perhaps .ident) (perhaps .comma))
        (.finished ⟨0, 1, 1, 1, 1⟩) = .error .endless ∧
      ∀ o, ¬ RowEnds (interpret (noRules.call 0) (perhaps .ident))
        (interpret (noRules.call 0) (perhaps .comma)) (.finished ⟨0, 1, 1, 1, 1⟩) o :=
  ⟨returns_perhaps _, returns_perhaps _, onward_interpret (nomatch ·) _,
    onward_interpret (nomatch ·) _, rfl, fun _ ends =>
    ends.not_stalls ⟨_, 0, _, rfl, .none _, _, _, rfl, rfl, rfl⟩⟩

end

end Wordhoard.Grammar
