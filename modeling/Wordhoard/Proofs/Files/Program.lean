import Wordhoard.Files.Program

/-! What a program that may fail gives on a disk, and how the outcome of a sequence follows from those of
its parts. -/
namespace Wordhoard.Files

variable {ε α β : Type} {a : ExceptT ε Program α} {f : α → ExceptT ε Program β} {d d' : Disk}

theorem Program.bind_assoc {γ : Type} (p : Program α) (f : α → Program β) (g : β → Program γ) :
    (p.bind f).bind g = p.bind fun x => (f x).bind g := by
  induction p with
  | done a => rfl
  | ask r next ih => exact congrArg (Program.ask r) (funext ih)

instance : LawfulMonad Program :=
  .mk' Program
    (fun p => by
      induction p with
      | done a => rfl
      | ask r next ih => exact congrArg (Program.ask r) (funext ih))
    (fun _ _ => rfl) Program.bind_assoc

def outcome (a : ExceptT ε Program α) (d : Disk) : Except ε α × Disk := Program.run a.run d

theorem outcome_lift (p : Program α) (d : Disk) :
    outcome (ExceptT.lift p : ExceptT ε Program α) d = (.ok (p.run d).1, (p.run d).2) :=
  Program.run_bind p _ d

theorem outcome_bind (a : ExceptT ε Program α) (f : α → ExceptT ε Program β) (d : Disk) :
    outcome (a >>= f) d = Program.run (ExceptT.bindCont f (outcome a d).1) (outcome a d).2 :=
  Program.run_bind _ _ d

theorem outcome_bind_of_ok {x : α} (h : outcome a d = (.ok x, d')) :
    outcome (a >>= f) d = outcome (f x) d' := by
  rw [outcome_bind, h]
  rfl

theorem outcome_bind_of_error {e : ε} (h : outcome a d = (.error e, d')) :
    outcome (a >>= f) d = (.error e, d') := by
  rw [outcome_bind, h]
  rfl

theorem outcome_ignore {s : ExceptT ε Program Unit} {b : ExceptT ε Program β} {y : β}
    (h : outcome b d = outcome (s >>= fun _ => pure y) d) :
    outcome (b >>= fun _ => pure ()) d = outcome s d := by
  cases first : outcome s d with
  | mk result d₁ =>
    cases result with
    | ok x =>
      rw [outcome_bind_of_ok first] at h
      exact outcome_bind_of_ok h
    | error e =>
      rw [outcome_bind_of_error first] at h
      exact outcome_bind_of_error h

theorem outcome_of_bind {y : β} (h : outcome (a >>= f) d = (.ok y, d')) :
    ∃ x d₁, outcome a d = (.ok x, d₁) ∧ outcome (f x) d₁ = (.ok y, d') := by
  cases first : outcome a d with
  | mk result d₁ =>
    cases result with
    | ok x => exact ⟨x, d₁, rfl, by rwa [outcome_bind_of_ok first] at h⟩
    | error e =>
      rw [outcome_bind_of_error first] at h
      cases h

theorem outcome_error_of_bind {e : ε} (h : outcome (a >>= f) d = (.error e, d')) :
    outcome a d = (.error e, d') ∨
      ∃ x d₁, outcome a d = (.ok x, d₁) ∧ outcome (f x) d₁ = (.error e, d') := by
  cases first : outcome a d with
  | mk result d₁ =>
    cases result with
    | ok x => exact .inr ⟨x, d₁, rfl, by rwa [outcome_bind_of_ok first] at h⟩
    | error e' =>
      rw [outcome_bind_of_error first] at h
      cases h
      exact .inl rfl

end Wordhoard.Files
