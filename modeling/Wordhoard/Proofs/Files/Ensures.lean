import Wordhoard.Proofs.Files.Program

/-! What a program that may fail ensures of the disk it ends with, once for its value and once for its
error. A longer program is followed request by request. -/
namespace Wordhoard.Files

variable {ε ε' α β : Type} {a : ExceptT ε Program α} {f : α → ExceptT ε Program β} {d d' : Disk}

/-- On the disk the program gives a value and ends as the first condition says, or it fails and ends as
the second one says. -/
def Ensures (a : ExceptT ε Program α) (d : Disk) (ok : α → Disk → Prop)
    (fail : ε → Disk → Prop) : Prop :=
  match outcome a d with
  | (.ok x, d') => ok x d'
  | (.error e, d') => fail e d'

abbrev Leaves (a : ExceptT ε Program α) (d : Disk) (P : Disk → Prop) : Prop :=
  Ensures a d (fun _ => P) fun _ => P

/-- How a program may fail: for a reason that excuses it, or nothing is changed. -/
def Undone (excused : ε → Bool) (d : Disk) (e : ε) (d' : Disk) : Prop := excused e = true ∨ d' = d

variable {ok ok' : α → Disk → Prop} {fail fail' : ε → Disk → Prop} {P : Disk → Prop}
  {excused : ε → Bool} {excused' : ε' → Bool}

theorem ensures_of_outcome (value : ∀ x d', outcome a d = (.ok x, d') → ok x d')
    (error : ∀ e d', outcome a d = (.error e, d') → fail e d') : Ensures a d ok fail := by
  unfold Ensures
  split
  · rename_i run
    exact value _ _ run
  · rename_i run
    exact error _ _ run

theorem ensures_of_ok {x : α} (run : outcome a d = (.ok x, d')) (h : ok x d') :
    Ensures a d ok fail := by
  rwa [Ensures, run]

theorem ensures_of_error {e : ε} (run : outcome a d = (.error e, d')) (h : fail e d') :
    Ensures a d ok fail := by
  rwa [Ensures, run]

theorem Ensures.of_eq {b : ExceptT ε Program α} (h : Ensures b d ok fail)
    (same : outcome a d = outcome b d) : Ensures a d ok fail := by
  rwa [Ensures, same]

theorem Ensures.value (h : Ensures a d ok fail) {x : α} (run : outcome a d = (.ok x, d')) :
    ok x d' := by
  rwa [Ensures, run] at h

theorem Ensures.error (h : Ensures a d ok fail) {e : ε} (run : outcome a d = (.error e, d')) :
    fail e d' := by
  rwa [Ensures, run] at h

theorem Ensures.mono (h : Ensures a d ok fail) (value : ∀ x d', ok x d' → ok' x d')
    (error : ∀ e d', fail e d' → fail' e d') : Ensures a d ok' fail' :=
  ensures_of_outcome (fun x d' run => value x d' (h.value run))
    fun e d' run => error e d' (h.error run)

theorem Ensures.undone (h : Ensures a d ok fun _ d' => d' = d) : Ensures a d ok (Undone excused d) :=
  h.mono (fun _ _ => id) fun _ _ => .inr

theorem Ensures.looks {Q : α → Prop} {R : ε → Prop}
    (h : Ensures a d (fun x d' => d' = d ∧ Q x) fun e d' => d' = d ∧ R e) (here : P d) : Leaves a d P := by
  refine h.mono ?_ ?_
  · rintro x d' ⟨rfl, -⟩
    exact here
  · rintro e d' ⟨rfl, -⟩
    exact here

theorem Ensures.looks_undone {Q : α → Prop} {R : ε → Prop}
    (h : Ensures a d (fun x d' => d' = d ∧ Q x) fun e d' => d' = d ∧ R e) :
    Ensures a d (fun _ d' => d' = d) (Undone excused d) := (h.looks (P := (· = d)) rfl).undone

theorem ensures_pure {x : α} (h : ok x d) : Ensures (pure x) d ok fail := h

theorem ensures_throw {e : ε} (h : fail e d) : Ensures (throw e) d ok fail := h

theorem ensures_except {x : Except ε α} (error : ∀ e, x = .error e → fail e d) :
    Ensures (liftM x : ExceptT ε Program α) d (fun y d' => d' = d ∧ x = .ok y) fail := by
  cases x with
  | ok y => exact ⟨rfl, rfl⟩
  | error e => exact error e rfl

theorem leaves_except {x : Except ε α} (h : P d) :
    Leaves (liftM x : ExceptT ε Program α) d P := by
  cases x with
  | ok y => exact h
  | error e => exact h

theorem ensures_request (r : Request) {ok : r.Reply → Disk → Prop}
    (h : ok (r.answer d).1 (r.answer d).2) :
    Ensures (ExceptT.lift (Program.request r) : ExceptT ε Program r.Reply) d ok fail := h

theorem leaves_write {path : String} {content : ByteArray} (unwritten : P d)
    (written : ∀ d', d.write path content = .ok d' → P d') :
    Leaves (ExceptT.lift (Program.request (.write path content)) : ExceptT ε Program _) d P := by
  refine ensures_request _ ?_
  cases result : d.write path content with
  | error e =>
    simp only [Request.answer, result, changed]
    exact unwritten
  | ok d' =>
    simp only [Request.answer, result, changed]
    exact written d' result

theorem outcome_adapt (g : ε → ε') :
    outcome (a.adapt g) d = ((outcome a d).1.mapError g, (outcome a d).2) :=
  Program.run_bind _ _ d

theorem ensures_adapt {g : ε → ε'} {fail : ε' → Disk → Prop}
    (h : Ensures a d ok fun e => fail (g e)) : Ensures (a.adapt g) d ok fail := by
  unfold Ensures at h ⊢
  rw [outcome_adapt]
  split at h
  · rename_i run
    rw [run]
    exact h
  · rename_i run
    rw [run]
    exact h

theorem Ensures.adapt {g : ε → ε'} (h : Ensures a d ok fun _ => P) :
    Ensures (a.adapt g) d ok fun _ => P := ensures_adapt h

theorem Ensures.adapt_undone {g : ε → ε'} (same : ∀ e, excused' (g e) = excused e)
    (h : Ensures a d ok (Undone excused d)) : Ensures (a.adapt g) d ok (Undone excused' d) := by
  refine ensures_adapt (h.mono (fun _ _ => id) fun e _ undone => ?_)
  rwa [Undone, same]

theorem Ensures.bind {mid : α → Disk → Prop} {ok : β → Disk → Prop} (h : Ensures a d mid fail)
    (next : ∀ x d', mid x d' → Ensures (f x) d' ok fail) : Ensures (a >>= f) d ok fail := by
  cases run : outcome a d with
  | mk result d' =>
    cases result with
    | ok x =>
      have further := next x d' (h.value run)
      rwa [Ensures, outcome_bind_of_ok run]
    | error e => exact ensures_of_error (outcome_bind_of_error run) (h.error run)

theorem Ensures.of_ignored {ok : Disk → Prop}
    (h : Ensures (a >>= fun _ => pure ()) d (fun _ => ok) fail) :
    Ensures a d (fun _ => ok) fail := by
  refine ensures_of_outcome (fun x d' run => ?_) fun e d' run => ?_
  · exact h.value (outcome_bind_of_ok run)
  · exact h.error (outcome_bind_of_error run)

theorem ensures_mapM {f : α → ExceptT ε Program β} {I : List α → Disk → Prop} {Q : β → Prop}
    {items : List α} (each : ∀ x others d, I (x :: others) d →
      Ensures (f x) d (fun y d' => I others d' ∧ Q y) fail) (start : I items d) :
    Ensures (items.mapM f) d (fun ys d' => I [] d' ∧ ∀ y ∈ ys, Q y) fail := by
  induction items generalizing d with
  | nil => exact ⟨start, List.forall_mem_nil _⟩
  | cons x others ih =>
    rw [List.mapM_cons]
    refine (each x others d start).bind fun y d₁ ⟨holds, here⟩ => ?_
    refine (ih holds).bind fun ys d₂ ⟨holds, further⟩ => ?_
    exact ⟨holds, List.forall_mem_cons.2 ⟨here, further⟩⟩

theorem ensures_each {f : α → ExceptT ε Program β} {I : List α → Disk → Prop} {items : List α}
    (each : ∀ x others d, I (x :: others) d → Ensures (f x) d (fun _ => I others) fail)
    (start : I items d) : Ensures (items.mapM f) d (fun _ => I []) fail := by
  refine (ensures_mapM (I := I) (Q := fun _ => True) (fun x others d holds => ?_) start).mono
    (fun _ _ => And.left) fun _ _ => id
  exact (each x others d holds).mono (fun _ _ holds => ⟨holds, trivial⟩) fun _ _ => id

theorem leaves_mapM {f : α → ExceptT ε Program β} {items : List α}
    (each : ∀ x d, P d → Leaves (f x) d P) (start : P d) : Leaves (items.mapM f) d P :=
  ensures_each (I := fun _ => P) (fun x _ d => each x d) start

theorem ensures_foldlM {f : β → α → ExceptT ε Program β} {I : β → Disk → Prop}
    (each : ∀ y x d, I y d → Ensures (f y x) d I fail) (items : List α) {y : β} (start : I y d) :
    Ensures (items.foldlM f y) d I fail := by
  induction items generalizing y d with
  | nil => exact start
  | cons x others ih => exact (each y x d start).bind fun y d' holds => ih holds

end Wordhoard.Files
