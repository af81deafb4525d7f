import Wordhoard.Proofs.Grammar.Calls

/-! Repetition as a loop that nobody counts: a derivation for every way in which the loop can come to
an end. Main statements: the counted runs end as the loops do, a row of separators and items never
ends when one round of it gives its cursor back, and no grammar moves its cursor back. -/
namespace Wordhoard

theorem Stream.eq_of_enter {κ : Type} {s : Stream κ} {e : TokenizeError}
    (h : s.enter = .error e) : s = ⟨[], .stuck e⟩ := by
  obtain ⟨tokens, ending⟩ := s
  cases tokens with
  | cons t ts => cases h
  | nil =>
    cases ending with
    | finished p => cases h
    | stuck e' =>
      cases h
      rfl

namespace Cursor

variable {κ : Type} {a b c : Cursor κ}

def Reaches (c d : Cursor κ) : Prop := ∃ ts, c.stream = d.stream.prepend ts

theorem Reaches.refl (c : Cursor κ) : c.Reaches c := ⟨[], rfl⟩

theorem Reaches.trans (h : a.Reaches b) (h' : b.Reaches c) : a.Reaches c := by
  obtain ⟨ts, first⟩ := h
  obtain ⟨us, second⟩ := h'
  exact ⟨ts ++ us, by rw [first, second, Stream.prepend_prepend]⟩

theorem Reaches.ending (h : a.Reaches b) : a.stream.ending = b.stream.ending := by
  obtain ⟨ts, place⟩ := h
  rw [place, Stream.prepend_ending]

theorem Reaches.remaining_le (h : a.Reaches b) : b.remaining ≤ a.remaining := by
  obtain ⟨ts, place⟩ := h
  rw [remaining_of_stream place, length_tokens]
  exact Nat.le_add_left _ _

theorem stream_injective (h : a.stream = b.stream) : a = b := by
  cases a with
  | token t s =>
    cases b with
    | token u s' =>
      obtain ⟨rfl, same⟩ := Stream.prepend_cons_inj h
      rw [Stream.prepend_nil, Stream.prepend_nil] at same
      rw [same]
    | finished q => cases congrArg Stream.tokens h
  | finished p =>
    cases b with
    | token u s' => cases congrArg Stream.tokens h
    | finished q =>
      cases h
      rfl

theorem Reaches.eq_of_remaining (h : a.Reaches b) (still : ¬ b.remaining < a.remaining) : b = a := by
  obtain ⟨ts, place⟩ := h
  have length := remaining_of_stream place
  rw [length_tokens] at length
  have none : ts = [] := List.eq_nil_of_length_eq_zero (by omega)
  rw [none, Stream.prepend_nil] at place
  exact stream_injective place.symm

theorem Reaches.mem (h : a.Reaches b) {t : Token κ} (mem : t ∈ b.stream.tokens) :
    t ∈ a.stream.tokens := by
  obtain ⟨ts, place⟩ := h
  rw [place, Stream.prepend_tokens]
  exact List.mem_append_right _ mem

end Cursor

namespace Grammar

open Expectation (later)

variable {κ : Type} {α β : Type}

def Onward (run : Cursor κ → Outcome κ α) : Prop := ∀ c a, run c = .ok a → c.Reaches a.rest

inductive Repeats (item : Cursor κ → Outcome κ α) (least : Nat) (most : Option Nat) :
    List α → Cursor κ → Option Expectation → Outcome κ (List α) → Prop where
  | full {values : List α} {rest : Cursor κ} {furthest : Option Expectation}
      (full : ¬ most.all (values.length < ·)) :
      Repeats item least most values rest furthest (closeMany least values rest furthest)
  | last {values : List α} {rest : Cursor κ} {furthest : Option Expectation} {p : Parsed κ α}
      (room : most.all (values.length < ·)) (round : item rest = .ok p)
      (still : ¬ p.rest.remaining < rest.remaining) :
      Repeats item least most values rest furthest
        (closeMany least (values ++ [p.value]) p.rest (later furthest p.furthest))
  | more {values : List α} {rest : Cursor κ} {furthest : Option Expectation} {p : Parsed κ α}
      {o : Outcome κ (List α)} (room : most.all (values.length < ·)) (round : item rest = .ok p)
      (moves : p.rest.remaining < rest.remaining)
      (others : Repeats item least most (values ++ [p.value]) p.rest
        (later furthest p.furthest) o) :
      Repeats item least most values rest furthest o
  | few {values : List α} {rest : Cursor κ} {furthest : Option Expectation} {e : Expectation}
      (room : most.all (values.length < ·)) (refused : item rest = .error (.expected e))
      (few : values.length < least) :
      Repeats item least most values rest furthest (.error (.expected (e.mergeWith furthest)))
  | enough {values : List α} {rest : Cursor κ} {furthest : Option Expectation} {e : Expectation}
      (room : most.all (values.length < ·)) (refused : item rest = .error (.expected e))
      (enough : ¬ values.length < least) :
      Repeats item least most values rest furthest (.ok ⟨values, rest, later furthest (some e)⟩)
  | stopped {values : List α} {rest : Cursor κ} {furthest : Option Expectation} {f : Failure}
      (room : most.all (values.length < ·)) (stopped : item rest = .error f) (fatal : Fatal f) :
      Repeats item least most values rest furthest (.error f)

variable {item : Cursor κ → Outcome κ α} {separator : Cursor κ → Outcome κ β} {least : Nat}
  {most : Option Nat} {values : List α} {rest : Cursor κ} {furthest : Option Expectation}
  {o : Outcome κ (List α)}

theorem repeats_runMany (item : Cursor κ → Outcome κ α) (least : Nat) (most : Option Nat)
    (rounds : Nat) (values : List α) (rest : Cursor κ) (furthest : Option Expectation)
    (enough : rest.remaining ≤ rounds) :
    Repeats item least most values rest furthest
      (runMany item least most rounds values rest furthest) := by
  unfold runMany
  split
  · rename_i room
    split
    · rename_i p round
      dsimp only
      split
      · rename_i moves
        cases rounds with
        | zero => omega
        | succ n => exact .more room round moves (repeats_runMany item least most n _ _ _ (by omega))
      · rename_i still
        exact .last room round still
    · rename_i e refused
      split
      · rename_i few
        exact .few room refused few
      · rename_i enough
        exact .enough room refused enough
    · rename_i f fatal stopped
      exact .stopped room stopped fatal
  · rename_i full
    exact .full full
termination_by rounds

theorem closeMany_eq_ok {a : Parsed κ (List α)} (h : closeMany least values rest furthest = .ok a) :
    a = ⟨values, rest, furthest⟩ := by
  unfold closeMany at h
  split at h
  · cases h
  · exact (Except.ok.inj h).symm

theorem closeMany_ne_stopped {f : Failure} (fatal : Fatal f) :
    closeMany least values rest furthest ≠ .error f := by
  unfold closeMany
  split
  · exact fun h => fatal _ (Except.error.inj h).symm
  · nofun

theorem Repeats.length_le (h : Repeats item least most values rest furthest o)
    {a : Parsed κ (List α)} (accepted : o = .ok a) :
    a.value.length ≤ values.length + rest.remaining + 1 := by
  induction h with
  | full =>
    rw [closeMany_eq_ok accepted]
    dsimp only
    omega
  | last =>
    rw [closeMany_eq_ok accepted, List.length_append, List.length_singleton]
    omega
  | more room round moves others ih =>
    have bound := ih accepted
    rw [List.length_append, List.length_singleton] at bound
    omega
  | enough =>
    cases accepted
    dsimp only
    omega
  | few => cases accepted
  | stopped => cases accepted

theorem Repeats.reaches (h : Repeats item least most values rest furthest o)
    (onward : Onward item) {a : Parsed κ (List α)} (accepted : o = .ok a) : rest.Reaches a.rest := by
  induction h with
  | full =>
    rw [closeMany_eq_ok accepted]
    exact .refl _
  | last room round =>
    rw [closeMany_eq_ok accepted]
    exact onward _ _ round
  | more room round moves others ih => exact (onward _ _ round).trans (ih accepted)
  | enough =>
    cases accepted
    exact .refl _
  | few => cases accepted
  | stopped => cases accepted

theorem Repeats.exists_stopped (h : Repeats item least most values rest furthest o) {f : Failure}
    (fatal : Fatal f) (stopped : o = .error f) :
    ∃ k d, Rounds (Item item) k rest d ∧ most.all (values.length + k < ·) ∧ item d = .error f := by
  induction h with
  | full => exact absurd stopped (closeMany_ne_stopped fatal)
  | last => exact absurd stopped (closeMany_ne_stopped fatal)
  | more room round moves others ih =>
    obtain ⟨k, d, taken, further, last⟩ := ih stopped
    refine ⟨k + 1, d, .more ⟨_, round, rfl, moves⟩ taken, ?_, last⟩
    simpa [Nat.add_assoc, Nat.add_comm 1] using further
  | few => exact absurd (Except.error.inj stopped).symm (fatal _)
  | enough => cases stopped
  | stopped room here =>
    cases stopped
    exact ⟨0, _, .none _, by simpa using room, here⟩

inductive Separates (item : Cursor κ → Outcome κ α) (separator : Cursor κ → Outcome κ β) :
    List α → Cursor κ → Option Expectation → Outcome κ (List α) → Prop where
  | refused {values : List α} {rest : Cursor κ} {furthest : Option Expectation} {e : Expectation}
      (refused : separator rest = .error (.expected e)) :
      Separates item separator values rest furthest (.ok ⟨values, rest, later furthest (some e)⟩)
  | givenBack {values : List α} {rest : Cursor κ} {furthest : Option Expectation} {s : Parsed κ β}
      {e : Expectation} (between : separator rest = .ok s)
      (refused : item s.rest = .error (.expected e)) :
      Separates item separator values rest furthest
        (.ok ⟨values, rest, later (later furthest s.furthest) (some e)⟩)
  | more {values : List α} {rest : Cursor κ} {furthest : Option Expectation} {s : Parsed κ β}
      {p : Parsed κ α} {o : Outcome κ (List α)} (between : separator rest = .ok s)
      (round : item s.rest = .ok p)
      (others : Separates item separator (values ++ [p.value]) p.rest
        (later (later furthest s.furthest) p.furthest) o) :
      Separates item separator values rest furthest o
  | stopped {values : List α} {rest : Cursor κ} {furthest : Option Expectation} {f : Failure}
      (stopped : separator rest = .error f ∨
        ∃ s, separator rest = .ok s ∧ item s.rest = .error f) (fatal : Fatal f) :
      Separates item separator values rest furthest (.error f)

def Idle (item : Cursor κ → Outcome κ α) (separator : Cursor κ → Outcome κ β) (c : Cursor κ) :
    Prop :=
  ∃ s p, separator c = .ok s ∧ item s.rest = .ok p ∧ p.rest = c

/-- Any derivation goes on through a round, so at an idle one it would have to contain itself. -/
theorem Separates.not_idle (h : Separates item separator values rest furthest o) :
    ¬ Idle item separator rest := by
  induction h with
  | refused refused =>
    rintro ⟨s, p, between, -, -⟩
    cases between.symm.trans refused
  | givenBack between refused =>
    rintro ⟨s, p, between', round, -⟩
    cases between'.symm.trans between
    cases round.symm.trans refused
  | more between round others ih =>
    rintro ⟨s, p, between', round', same⟩
    cases between'.symm.trans between
    cases round'.symm.trans round
    rw [same] at ih
    exact ih ⟨_, _, between, round, same⟩
  | stopped stopped fatal =>
    rintro ⟨s, p, between, round, -⟩
    rcases stopped with stopped | ⟨s', between', stopped⟩
    · cases between.symm.trans stopped
    · cases between.symm.trans between'
      cases round.symm.trans stopped

theorem Separates.further (h : Separates item separator values rest furthest o) {k : Nat}
    {d : Cursor κ} (taken : Rounds (Turn item separator) k rest d) :
    ∃ values furthest, Separates item separator values d furthest o := by
  induction taken generalizing values furthest with
  | none c => exact ⟨values, furthest, h⟩
  | more first others ih =>
    obtain ⟨s, p, between, round, rfl, -⟩ := first
    cases h with
    | refused refused => cases between.symm.trans refused
    | givenBack between' refused =>
      cases between.symm.trans between'
      cases round.symm.trans refused
    | more between' round' others' =>
      cases between.symm.trans between'
      cases round.symm.trans round'
      exact ih others'
    | stopped stopped =>
      rcases stopped with stopped | ⟨s', between', stopped⟩
      · cases between.symm.trans stopped
      · cases between.symm.trans between'
        cases round.symm.trans stopped

/-- The row is the same loop when it is counted, wherever it comes to an end. -/
theorem Separates.runSeparated_eq (h : Separates item separator values rest furthest o)
    (moves : ∀ k d s p, Rounds (Turn item separator) k rest d → separator d = .ok s →
      item s.rest = .ok p → p.rest.remaining < d.remaining) {rounds : Nat}
    (enough : rest.remaining ≤ rounds) :
    runSeparated item separator rounds values rest furthest = o := by
  induction h generalizing rounds with
  | refused refused =>
    unfold runSeparated
    simp only [refused]
  | givenBack between refused =>
    unfold runSeparated
    simp only [between, refused]
  | @more values rest furthest s p o between round others ih =>
    have moved := moves 0 rest s p (.none rest) between round
    unfold runSeparated
    simp only [between, round, moved, if_true]
    cases rounds with
    | zero => omega
    | succ n =>
      have turn : Turn item separator rest p.rest := ⟨s, p, between, round, rfl, moved⟩
      exact ih (fun k d s' p' taken => moves (k + 1) d s' p' (.more turn taken)) (by omega)
  | @stopped values rest furthest f stopped fatal =>
    unfold runSeparated
    cases f with
    | expected e => exact absurd rfl (fatal e)
    | _ =>
      rcases stopped with stopped | ⟨s, between, stopped⟩
      · simp only [stopped]
      · simp only [between, stopped]

theorem exists_turns (item : Cursor κ → Outcome κ α) (separator : Cursor κ → Outcome κ β)
    (rounds : Nat) (values : List α) (rest : Cursor κ) (furthest : Option Expectation) :
    ∃ k d, Rounds (Turn item separator) k rest d ∧
      ((∃ vs f, runSeparated item separator rounds values rest furthest = .ok ⟨vs, d, f⟩) ∨
        runSeparated item separator rounds values rest furthest = .error .endless ∨
        ∃ f, runSeparated item separator rounds values rest furthest = .error f ∧
          (separator d = .error f ∨ ∃ s, separator d = .ok s ∧ item s.rest = .error f)) := by
  unfold runSeparated
  split
  · exact ⟨0, rest, .none rest, .inl ⟨_, _, rfl⟩⟩
  · rename_i f _ stopped
    exact ⟨0, rest, .none rest, .inr (.inr ⟨f, rfl, .inl stopped⟩)⟩
  · rename_i s between
    split
    · exact ⟨0, rest, .none rest, .inl ⟨_, _, rfl⟩⟩
    · rename_i f _ stopped
      exact ⟨0, rest, .none rest, .inr (.inr ⟨f, rfl, .inr ⟨s, between, stopped⟩⟩)⟩
    · rename_i p round
      split
      · rename_i moves
        cases rounds with
        | zero => exact ⟨0, rest, .none rest, .inr (.inl rfl)⟩
        | succ n =>
          obtain ⟨k, d, taken, ends⟩ := exists_turns item separator n (values ++ [p.value]) p.rest
            (later (later furthest s.furthest) p.furthest)
          exact ⟨k + 1, d, .more ⟨s, p, between, round, rfl, moves⟩ taken, ends⟩
      · exact ⟨0, rest, .none rest, .inr (.inl rfl)⟩
termination_by rounds

theorem reaches_of_items (onward : Onward item) {k : Nat} {d : Cursor κ}
    (taken : Rounds (Item item) k rest d) : rest.Reaches d := by
  induction taken with
  | none c => exact .refl c
  | more first others ih =>
    obtain ⟨p, round, rfl, -⟩ := first
    exact (onward _ _ round).trans ih

theorem reaches_of_turns (onward : Onward item) (onward' : Onward separator) {k : Nat} {d : Cursor κ}
    (taken : Rounds (Turn item separator) k rest d) : rest.Reaches d := by
  induction taken with
  | none c => exact .refl c
  | more first others ih =>
    obtain ⟨s, p, between, round, rfl, -⟩ := first
    exact ((onward' _ _ between).trans (onward _ _ round)).trans ih

section

variable {γ : Type} {p q : Cursor κ → Outcome κ α} {s : Cursor κ → Outcome κ β} {c : Cursor κ}
  {f : Failure} {description : String} {g : α → Option γ}

theorem runSeq_eq_ok {a : Parsed κ (α × β)} (accepted : runSeq p s c = .ok a) :
    ∃ first second, p c = .ok first ∧ s first.rest = .ok second ∧ a.rest = second.rest := by
  unfold runSeq at accepted
  split at accepted
  · cases accepted
  · rename_i first here
    split at accepted
    · cases accepted
    · rename_i second behind
      cases accepted
      exact ⟨first, second, here, behind, rfl⟩

theorem runEither_eq_ok {a : Parsed κ α} (accepted : runEither p q c = .ok a) :
    ∃ b, (p c = .ok b ∨ q c = .ok b) ∧ a.rest = b.rest := by
  unfold runEither at accepted
  split at accepted
  · rename_i first
    cases accepted
    exact ⟨_, .inl first, rfl⟩
  · split at accepted
    · rename_i b second
      cases accepted
      exact ⟨b, .inr second, rfl⟩
    · cases accepted
    · cases accepted
  · cases accepted

theorem runFilterMap_eq_ok {a : Parsed κ γ} (accepted : runFilterMap description g p c = .ok a) :
    ∃ b, p c = .ok b ∧ a.rest = b.rest := by
  unfold runFilterMap at accepted
  split at accepted
  · cases accepted
  · rename_i b inner
    split at accepted
    · cases accepted
      exact ⟨b, inner, rfl⟩
    · cases accepted

/- What is no mismatch stopped the part that ran last. -/

theorem runSeq_stopped (fatal : Fatal f) (stopped : runSeq p s c = .error f) :
    p c = .error f ∨ ∃ a, p c = .ok a ∧ s a.rest = .error f := by
  unfold runSeq at stopped
  split at stopped
  · rename_i first
    cases stopped
    exact .inl first
  · rename_i a first
    split at stopped
    · rename_i f' second
      cases f' with
      | expected e => exact absurd (Except.error.inj stopped).symm (fatal _)
      | _ =>
        cases stopped
        exact .inr ⟨a, first, second⟩
    · cases stopped

theorem runEither_stopped (fatal : Fatal f) (stopped : runEither p q c = .error f) :
    p c = .error f ∨ ∃ e, p c = .error (.expected e) ∧ q c = .error f := by
  unfold runEither at stopped
  split at stopped
  · cases stopped
  · rename_i e first
    split at stopped
    · cases stopped
    · exact absurd (Except.error.inj stopped).symm (fatal _)
    · rename_i second
      exact .inr ⟨e, first, second.trans stopped⟩
  · rename_i first
    exact .inl (first.trans stopped)

theorem runFilterMap_stopped (fatal : Fatal f)
    (stopped : runFilterMap description g p c = .error f) : p c = .error f := by
  unfold runFilterMap at stopped
  split at stopped
  · rename_i inner
    cases stopped
    exact inner
  · split at stopped
    · cases stopped
    · exact absurd (Except.error.inj stopped).symm (fatal _)

end

variable {ν : Type} {τ : ν → Type}

theorem onward_takeToken (fits : Token κ → Bool) (description : String) :
    Onward (takeToken fits description) := by
  intro c a accepted
  cases c with
  | finished p => cases accepted
  | token t next =>
    simp only [takeToken] at accepted
    split at accepted
    · cases entered : next.enter with
      | error e => rw [entered] at accepted; cases accepted
      | ok rest =>
        rw [entered] at accepted
        cases accepted
        exact ⟨[t], by rw [Stream.stream_of_enter entered]; rfl⟩
    · cases accepted

theorem onward_takeFinish : Onward (takeFinish (κ := κ)) := by
  intro c a accepted
  cases c with
  | token t next => cases accepted
  | finished p =>
    cases accepted
    exact .refl _

variable [DecidableEq κ] [TokenKind κ] {call : (n : ν) → Cursor κ → Outcome κ (τ n)}
  {p : Grammar κ τ α} {s : Grammar κ τ β} {c : Cursor κ}

theorem interpret_sepBy1_eq_ok {a : Parsed κ (List α)}
    (accepted : interpret call (.sepBy1 p s) c = .ok a) :
    ∃ first k, interpret call p c = .ok first ∧
      Rounds (Turn (interpret call p) (interpret call s)) k first.rest a.rest := by
  simp only [interpret] at accepted
  split at accepted
  · cases accepted
  · rename_i first here
    obtain ⟨k, d, taken, ends⟩ := exists_turns (interpret call p) (interpret call s)
      first.rest.remaining [first.value] first.rest first.furthest
    rw [accepted] at ends
    rcases ends with ⟨vs, f, same⟩ | stopped | ⟨f, stopped, -⟩
    · cases same
      exact ⟨first, k, here, taken⟩
    · cases stopped
    · cases stopped

theorem interpret_sepBy1_stopped {f : Failure}
    (stopped : interpret call (.sepBy1 p s) c = .error f) (other : f ≠ .endless) :
    interpret call p c = .error f ∨ ∃ a k b, interpret call p c = .ok a ∧
      Rounds (Turn (interpret call p) (interpret call s)) k a.rest b ∧
      (interpret call s b = .error f ∨
        ∃ t, interpret call s b = .ok t ∧ interpret call p t.rest = .error f) := by
  simp only [interpret] at stopped
  split at stopped
  · rename_i first
    cases stopped
    exact .inl first
  · rename_i a first
    obtain ⟨k, b, taken, ends⟩ := exists_turns (interpret call p) (interpret call s)
      a.rest.remaining [a.value] a.rest a.furthest
    rw [stopped] at ends
    rcases ends with ⟨vs, f', accepted⟩ | endless | ⟨f', same, inner⟩
    · cases accepted
    · exact absurd (Except.error.inj endless) other
    · cases same
      exact .inr ⟨a, k, b, first, taken, inner⟩

theorem onward_interpret (calls : ∀ n, Onward (call n)) {γ : Type} (g : Grammar κ τ γ) :
    Onward (interpret call g) := by
  induction g with
  | token kind => exact onward_takeToken _ _
  | keyword kind text => exact onward_takeToken _ _
  | finish => exact onward_takeFinish
  | seq p q ihp ihq =>
    intro c a accepted
    obtain ⟨first, second, here, behind, same⟩ := runSeq_eq_ok accepted
    rw [same]
    exact (ihp _ _ here).trans (ihq _ _ behind)
  | either p q ihp ihq =>
    intro c a accepted
    obtain ⟨b, first | second, same⟩ := runEither_eq_ok accepted
    · exact same ▸ ihp _ _ first
    · exact same ▸ ihq _ _ second
  | many p least most ih =>
    intro c a accepted
    exact (repeats_runMany _ _ _ _ [] c none (Nat.le_refl _)).reaches ih accepted
  | sepBy1 p s ihp ihs =>
    intro c a accepted
    obtain ⟨first, k, here, taken⟩ := interpret_sepBy1_eq_ok accepted
    exact (ihp _ _ here).trans (reaches_of_turns ihp ihs taken)
  | map f p ih =>
    intro c a accepted
    simp only [interpret] at accepted
    cases inner : interpret call p c with
    | error f => rw [inner] at accepted; cases accepted
    | ok b =>
      rw [inner] at accepted
      cases accepted
      exact ih _ _ inner
  | filterMap description f p ih =>
    intro c a accepted
    obtain ⟨b, inner, same⟩ := runFilterMap_eq_ok accepted
    exact same ▸ ih _ _ inner
  | named n => exact calls n

theorem onward_call (rules : Rules κ τ) (depth : Nat) (n : ν) : Onward (rules.call depth n) := by
  induction depth generalizing n with
  | zero => exact fun c a accepted => nomatch accepted
  | succ depth ih => exact onward_interpret ih (rules.body n)

end Grammar

end Wordhoard
