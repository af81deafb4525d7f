import Wordhoard.Proofs.Grammar.Loops

/-! The tokens that a run takes, in the branches it gives up too. Main statement: a run fails with a
rest that cannot be cut just when it takes, in any branch, a token that stands before that rest. -/
namespace Wordhoard.Grammar

variable {κ ν : Type} {τ : ν → Type} {α : Type} [DecidableEq κ] [TokenKind κ]
  {call : (n : ν) → Cursor κ → Outcome κ (τ n)} {take take' : (Token κ → Bool) → Cursor κ → Prop}
  {name name' : ν → Cursor κ → Prop} {c d : Cursor κ} {e : TokenizeError}

theorem Visits.reaches {g : Grammar κ τ α} (h : Visits call take name g c)
    (calls : ∀ n, Onward (call n)) (takes : ∀ fits c, take fits c → c.Reaches d)
    (names : ∀ n c, name n c → c.Reaches d) : c.Reaches d := by
  induction g generalizing c with
  | token kind => exact takes _ c h
  | keyword kind text => exact takes _ c h
  | finish => exact h.elim
  | seq p q ihp ihq =>
    rcases h with h | ⟨a, eq, h⟩
    · exact ihp h
    · exact (onward_interpret calls p c a eq).trans (ihq h)
  | either p q ihp ihq =>
    rcases h with h | ⟨f, -, h⟩
    · exact ihp h
    · exact ihq h
  | many p least most ih =>
    obtain ⟨k, b, taken, -, h⟩ := h
    exact (reaches_of_items (onward_interpret calls p) taken).trans (ih h)
  | sepBy1 p s ihp ihs =>
    rcases h with h | ⟨a, k, b, eq, taken, h⟩
    · exact ihp h
    · have first := onward_interpret calls p c a eq
      have others := reaches_of_turns (onward_interpret calls p) (onward_interpret calls s) taken
      refine (first.trans others).trans ?_
      rcases h with h | ⟨t, separated, h⟩
      · exact ihs h
      · exact (onward_interpret calls s b t separated).trans (ihp h)
  | map f p ih => exact ih h
  | filterMap description f p ih => exact ih h
  | named n => exact names n c h

def Standing (t : Token κ) (s : Stream κ) (fits : Token κ → Bool) (c : Cursor κ) : Prop :=
  c = .token t s ∧ fits t

def Rules.Consumes (rules : Rules κ τ) (t : Token κ) (s : Stream κ) : Nat → ν → Cursor κ → Prop
  | 0, _, _ => False
  | depth + 1, n, c =>
    Visits (rules.call depth) (Standing t s) (rules.Consumes t s depth) (rules.body n) c

/-- The run of a grammar takes, in any branch, a token that stands before the given rest. -/
def Consumes (rules : Rules κ τ) (depth : Nat) (g : Grammar κ τ α) (c : Cursor κ) (t : Token κ)
    (s : Stream κ) : Prop :=
  Visits (rules.call depth) (Standing t s) (rules.Consumes t s depth) g c

omit [DecidableEq κ] [TokenKind κ] in
theorem Standing.takeToken_eq {t : Token κ} {s : Stream κ} {fits : Token κ → Bool}
    (h : Standing t s fits c) (stuck : s.enter = .error e) (description : String) :
    takeToken fits description c = .error (.tokenize e) := by
  obtain ⟨rfl, fitting⟩ := h
  simp only [takeToken, fitting, stuck, if_true]

omit [DecidableEq κ] [TokenKind κ] in
theorem exists_standing {fits : Token κ → Bool} {description : String}
    (stopped : takeToken fits description c = .error (.tokenize e)) :
    ∃ t s, s.enter = .error e ∧ Standing t s fits c := by
  cases c with
  | finished p => cases stopped
  | token t s =>
    simp only [takeToken] at stopped
    split at stopped
    · rename_i fitting
      cases entered : s.enter with
      | ok rest => rw [entered] at stopped; cases stopped
      | error e' =>
        rw [entered] at stopped
        cases stopped
        exact ⟨t, s, entered, rfl, fitting⟩
    · cases stopped

theorem exists_visited {within : Token κ → Stream κ → ν → Cursor κ → Prop}
    (names : ∀ n c, call n c = .error (.tokenize e) → ∃ t s, s.enter = .error e ∧ within t s n c)
    (g : Grammar κ τ α) (c : Cursor κ) (stopped : interpret call g c = .error (.tokenize e)) :
    ∃ t s, s.enter = .error e ∧ Visits call (Standing t s) (within t s) g c := by
  induction g generalizing c with
  | token kind => exact exists_standing stopped
  | keyword kind text => exact exists_standing stopped
  | finish => cases c <;> cases stopped
  | seq p q ihp ihq =>
    rcases runSeq_stopped (fatal_tokenize e) stopped with first | ⟨a, first, second⟩
    · obtain ⟨t, s, stuck, visited⟩ := ihp c first
      exact ⟨t, s, stuck, .inl visited⟩
    · obtain ⟨t, s, stuck, visited⟩ := ihq a.rest second
      exact ⟨t, s, stuck, .inr ⟨a, first, visited⟩⟩
  | either p q ihp ihq =>
    rcases runEither_stopped (fatal_tokenize e) stopped with first | ⟨e', first, second⟩
    · obtain ⟨t, s, stuck, visited⟩ := ihp c first
      exact ⟨t, s, stuck, .inl visited⟩
    · obtain ⟨t, s, stuck, visited⟩ := ihq c second
      exact ⟨t, s, stuck, .inr ⟨e', first, visited⟩⟩
  | many p least most ih =>
    have loop := repeats_runMany (interpret call p) least most c.remaining [] c none (Nat.le_refl _)
    obtain ⟨k, b, taken, room, inner⟩ := loop.exists_stopped (fatal_tokenize e) stopped
    obtain ⟨t, s, stuck, visited⟩ := ih b inner
    exact ⟨t, s, stuck, k, b, taken, by simpa using room, visited⟩
  | sepBy1 p s ihp ihs =>
    rcases interpret_sepBy1_stopped stopped nofun with first | ⟨a, k, b, first, taken, inner⟩
    · obtain ⟨t, s, stuck, visited⟩ := ihp c first
      exact ⟨t, s, stuck, .inl visited⟩
    · rcases inner with inner | ⟨w, separated, inner⟩
      · obtain ⟨t, s, stuck, visited⟩ := ihs b inner
        exact ⟨t, s, stuck, .inr ⟨a, k, b, first, taken, .inl visited⟩⟩
      · obtain ⟨t, s, stuck, visited⟩ := ihp w.rest inner
        exact ⟨t, s, stuck, .inr ⟨a, k, b, first, taken, .inr ⟨w, separated, visited⟩⟩⟩
  | map f p ih =>
    simp only [interpret] at stopped
    cases inner : interpret call p c with
    | ok a => rw [inner] at stopped; cases stopped
    | error f =>
      rw [inner] at stopped
      cases stopped
      exact ih c inner
  | filterMap description f p ih => exact ih c (runFilterMap_stopped (fatal_tokenize e) stopped)
  | named n => exact names n c stopped

variable {rules : Rules κ τ} {depth : Nat}

/- One lemma for each half: what the names of the rules do, by the calls that are still allowed, and
from it what a grammar over them does. -/

theorem Rules.Consumes.call_eq {n : ν} {t : Token κ} {s : Stream κ}
    (h : rules.Consumes t s depth n c) (stuck : s.enter = .error e) :
    rules.call depth n c = .error (.tokenize e) := by
  induction depth generalizing n c with
  | zero => exact h.elim
  | succ depth ih =>
    exact h.stopped (fatal_tokenize e) (fun _ _ standing => standing.takeToken_eq stuck)
      fun _ _ inner => ih inner

theorem exists_call_consumes {n : ν} (stopped : rules.call depth n c = .error (.tokenize e)) :
    ∃ t s, s.enter = .error e ∧ rules.Consumes t s depth n c := by
  induction depth generalizing n c with
  | zero => cases stopped
  | succ depth ih =>
    have names (n : ν) (c : Cursor κ) (inner : rules.call depth n c = .error (.tokenize e)) :=
      ih inner
    exact exists_visited names (rules.body n) c stopped

theorem Rules.Consumes.reaches {n : ν} {t : Token κ} {s : Stream κ}
    (h : rules.Consumes t s depth n c) : c.Reaches (.token t s) := by
  induction depth generalizing n c with
  | zero => exact h.elim
  | succ depth ih =>
    exact h.reaches (onward_call rules depth) (fun _ _ standing => standing.1 ▸ .refl _)
      fun _ _ inner => ih inner

variable {g : Grammar κ τ α}

/-- A run fails with a rest that cannot be cut just when it takes, in any branch, a token that stands
before that rest. -/
theorem interpret_eq_tokenize_iff :
    interpret (rules.call depth) g c = .error (.tokenize e) ↔
      ∃ t s, Consumes rules depth g c t s ∧ s.enter = .error e := by
  constructor
  · intro stopped
    obtain ⟨t, s, stuck, visited⟩ := exists_visited (fun _ _ => exists_call_consumes) g c stopped
    exact ⟨t, s, visited, stuck⟩
  · rintro ⟨t, s, consumes, stuck⟩
    exact consumes.stopped (fatal_tokenize e) (fun _ _ standing => standing.takeToken_eq stuck)
      fun _ _ inner => inner.call_eq stuck

theorem Consumes.reaches {t : Token κ} {s : Stream κ} (h : Consumes rules depth g c t s) :
    c.Reaches (.token t s) :=
  Visits.reaches h (onward_call rules depth) (fun _ _ standing => standing.1 ▸ .refl _)
    fun _ _ inner => inner.reaches

theorem ending_of_tokenize {s : Stream κ} (entered : s.enter = .ok c)
    (stopped : interpret (rules.call depth) g c = .error (.tokenize e)) : s.ending = .stuck e := by
  obtain ⟨t, rest, consumes, stuck⟩ := interpret_eq_tokenize_iff.1 stopped
  rw [← Stream.stream_of_enter entered, consumes.reaches.ending, Stream.eq_of_enter stuck]
  rfl

omit [DecidableEq κ] [TokenKind κ] in
theorem requireEnd_eq_tokenize_iff {o : Outcome κ α} :
    requireEnd o = .error (.tokenize e) ↔ o = .error (.tokenize e) := by
  unfold requireEnd
  cases o with
  | error f => simp only [Except.error.injEq]
  | ok p =>
    refine ⟨fun h => ?_, nofun⟩
    dsimp only at h
    split at h <;> cases h

end Wordhoard.Grammar
