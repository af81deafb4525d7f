import Wordhoard.Proofs.Files.Program
import Wordhoard.Proofs.Files.Stop

/-! Programs whose changes of the disk may fail: for want of permission, of space, or for any other
reason. What they look at is answered as it is. Main statements: a program that only looks ends in one
way, and what a sequence withstands follows from its parts. -/
namespace Wordhoard.Files

variable {ε ε' α β : Type} {d d' d'' : Disk} {failed : Bool}

def Request.changes : Request → Bool
  | read _ => false
  | .exists _ => false
  | write _ _ => true
  | createDirectories _ => true
  | rename _ _ => true
  | remove _ => true

def Request.Done (d : Disk) (r : Request) : Prop :=
  r.changes = true → ∀ e, (r.answer d).1 ≠ r.failure e

namespace Program

/-- How a program ends if any change may fail, and whether one did. -/
inductive Ends : Program α → Disk → Bool → α → Disk → Prop where
  | done (a : α) (d : Disk) : Ends (.done a) d false a d
  | answered {r : Request} {next : r.Reply → Program α} {d d' : Disk} {failed : Bool} {a : α}
      (carried : r.Done d) (later : Ends (next (r.answer d).1) (r.answer d).2 failed a d') :
      Ends (.ask r next) d failed a d'
  | refused {r : Request} {next : r.Reply → Program α} {d d' d'' : Disk} {failed : Bool} {a : α}
      (e : Fault) (change : r.changes = true) (between : r.Midway d d')
      (later : Ends (next (r.failure e)) d' failed a d'') : Ends (.ask r next) d true a d''

variable {p : Program α} {f : α → Program β} {x : α} {y : β}

theorem ends_run (p : Program α) (d : Disk) : ∃ failed, Ends p d failed (p.run d).1 (p.run d).2 := by
  induction p generalizing d with
  | done a => exact ⟨false, .done a d⟩
  | ask r next ih =>
    obtain ⟨failed, later⟩ := ih (r.answer d).1 (r.answer d).2
    by_cases refused : r.changes = true ∧ ∃ e, (r.answer d).1 = r.failure e
    · obtain ⟨change, e, failure⟩ := refused
      rw [failure] at later
      refine ⟨true, ?_⟩
      rw [run, failure]
      exact .refused e change (.whole r) later
    · exact ⟨failed, .answered (fun change e failure => refused ⟨change, e, failure⟩) later⟩

theorem Ends.stops (h : Ends p d failed x d') : Stops p d (some x) d' := by
  induction h with
  | done a d => exact .ended a d
  | answered carried later ih => exact .answered ih
  | refused e change between later ih => exact .failed e between ih

theorem Ends.of_bind (h : Ends (p.bind f) d failed y d'') : ∃ first second x d',
    Ends p d first x d' ∧ Ends (f x) d' second y d'' ∧ failed = (first || second) := by
  induction p generalizing d failed with
  | done a => exact ⟨false, failed, a, d, .done a d, h, rfl⟩
  | ask r next ih =>
    cases h with
    | answered carried later =>
      obtain ⟨first, second, x, d', begins, goes, rfl⟩ := ih _ later
      exact ⟨first, second, x, d', .answered carried begins, goes, rfl⟩
    | refused e change between later =>
      obtain ⟨first, second, x, d', begins, goes, -⟩ := ih _ later
      exact ⟨true, second, x, d', .refused e change between begins, goes, rfl⟩

theorem Ends.of_request {r : Request} {reply : r.Reply} (h : Ends (request r) d failed reply d') :
    failed = false ∧ r.Done d ∧ r.answer d = (reply, d') ∨
      failed = true ∧ ∃ e, reply = r.failure e := by
  cases h with
  | answered carried later =>
    cases later
    exact .inl ⟨rfl, carried, rfl⟩
  | refused e change between later =>
    cases later
    exact .inr ⟨rfl, e, rfl⟩

theorem eq_ok_of_changed {change : Except Fault Disk} {reply : Except Fault Unit}
    (carried : ∀ e, (changed d change).1 ≠ .error e) (answer : changed d change = (reply, d')) :
    reply = .ok () ∧ change = .ok d' := by
  cases change with
  | ok d₁ =>
    cases answer
    exact ⟨rfl, rfl⟩
  | error e => exact absurd rfl (carried e)

section Changes

variable {path source target : String} {content : ByteArray} {reply : Except Fault Unit}

theorem Ends.of_write (h : Ends (request (.write path content)) d failed reply d') :
    failed = false ∧ reply = .ok () ∧ d.write path content = .ok d' ∨
      failed = true ∧ ∃ e, reply = .error e :=
  h.of_request.imp_left fun ⟨fine, carried, answer⟩ =>
    ⟨fine, eq_ok_of_changed (carried rfl) answer⟩

theorem Ends.of_rename (h : Ends (request (.rename source target)) d failed reply d') :
    failed = false ∧ reply = .ok () ∧ d.rename source target = .ok d' ∨
      failed = true ∧ ∃ e, reply = .error e :=
  h.of_request.imp_left fun ⟨fine, carried, answer⟩ =>
    ⟨fine, eq_ok_of_changed (carried rfl) answer⟩

theorem Ends.of_createDirectories (h : Ends (request (.createDirectories path)) d failed reply d') :
    failed = false ∧ reply = .ok () ∨ failed = true ∧ ∃ e, reply = .error e := by
  refine h.of_request.imp_left fun ⟨fine, carried, answer⟩ => ⟨fine, ?_⟩
  have carried := carried rfl
  rw [answer] at carried
  cases reply with
  | ok => rfl
  | error e => exact absurd rfl (carried e)

end Changes

/-- Whatever is answered, the program asks for no change. -/
def Looks : Program α → Prop
  | done _ => True
  | ask r next => r.changes = false ∧ ∀ reply, (next reply).Looks

theorem Looks.bind (h : p.Looks) (next : ∀ x, (f x).Looks) : (p.bind f).Looks := by
  induction p with
  | done a => exact next a
  | ask r following ih => exact ⟨h.1, fun reply => ih reply (h.2 reply)⟩

theorem Looks.run_eq (h : p.Looks) (ends : Ends p d failed x d') :
    failed = false ∧ p.run d = (x, d') := by
  induction ends with
  | done => exact ⟨rfl, rfl⟩
  | answered carried later ih => exact ih (h.2 _)
  | refused e change =>
    cases h.1.symm.trans change

end Program

open Program (Ends Looks)

variable {a : ExceptT ε Program α} {f : α → ExceptT ε Program β} {x : α} {e : ε}

theorem looks_bind (h : Looks a.run) (next : ∀ x, Looks (f x).run) : Looks (a >>= f).run := by
  refine h.bind fun r => ?_
  cases r with
  | ok x => exact next x
  | error e => trivial

theorem looks_except (x : Except ε α) : Looks (liftM x : ExceptT ε Program α).run := by
  cases x <;> trivial

theorem looks_adapt {g : ε → ε'} (h : Looks a.run) : Looks (a.adapt g).run := by
  refine h.bind fun r => ?_
  trivial

theorem looks_mapM {f : α → ExceptT ε Program β} (each : ∀ x, Looks (f x).run) (items : List α) :
    Looks (items.mapM f).run := by
  induction items with
  | nil => trivial
  | cons x others ih =>
    rw [List.mapM_cons]
    exact looks_bind (each x) fun y => looks_bind ih fun ys => trivial

theorem looks_foldlM {f : β → α → ExceptT ε Program β} (each : ∀ y x, Looks (f y x).run)
    (items : List α) (y : β) : Looks (items.foldlM f y).run := by
  induction items generalizing y with
  | nil => trivial
  | cons x others ih =>
    rw [List.foldlM_cons]
    exact looks_bind (each y x) ih

/-- No change fails, since none is asked for, and the program answers just this and leaves this disk. -/
def Always (a : ExceptT ε Program α) (d : Disk) (answer : Except ε α) (d' : Disk) : Prop :=
  ∀ failed other d'', Ends a.run d failed other d'' → failed = false ∧ other = answer ∧ d'' = d'

theorem always_of_looks {answer : Except ε α} (looks : Looks a.run)
    (run : outcome a d = (answer, d')) : Always a d answer d' := by
  intro failed other d'' ends
  obtain ⟨fine, same⟩ := looks.run_eq ends
  obtain ⟨rfl, rfl⟩ := Prod.mk.inj (same.symm.trans run)
  exact ⟨fine, rfl, rfl⟩

theorem Always.bind {answer : Except ε β} (h : Always a d (.ok x) d')
    (next : Always (f x) d' answer d'') : Always (a >>= f) d answer d'' := by
  intro failed other d₂ ends
  obtain ⟨first, second, r, d₁, begins, goes, rfl⟩ := Ends.of_bind ends
  obtain ⟨rfl, rfl, rfl⟩ := h _ _ _ begins
  exact next _ _ _ goes

theorem Always.bind_error (h : Always a d (.error e) d') : Always (a >>= f) d (.error e) d' := by
  intro failed other d₂ ends
  obtain ⟨first, second, r, d₁, begins, goes, rfl⟩ := Ends.of_bind ends
  obtain ⟨rfl, rfl, rfl⟩ := h _ _ _ begins
  cases goes
  exact ⟨rfl, rfl, rfl⟩

theorem Always.outcome_eq {answer : Except ε α} (h : Always a d answer d') :
    outcome a d = (answer, d') := by
  obtain ⟨failed, ends⟩ := Program.ends_run a.run d
  obtain ⟨-, same, left⟩ := h _ _ _ ends
  exact Prod.ext same left

/-- However its changes fail, the program ends in one of two ways: if none of them did, with a value and
on a disk as the first condition says, and else with an error and on a disk as the second one says. -/
def Withstands (a : ExceptT ε Program α) (d : Disk) (ok : α → Disk → Prop) (fail : ε → Disk → Prop) :
    Prop :=
  ∀ failed answer d', Ends a.run d failed answer d' →
    (∃ x, failed = false ∧ answer = .ok x ∧ ok x d') ∨
      ∃ e, failed = true ∧ answer = .error e ∧ fail e d'

variable {ok ok' : α → Disk → Prop} {fail fail' : ε → Disk → Prop} {P : Disk → Prop}

theorem Withstands.mono (h : Withstands a d ok fail) (value : ∀ x d', ok x d' → ok' x d')
    (error : ∀ e d', fail e d' → fail' e d') : Withstands a d ok' fail' := by
  intro failed answer d' ends
  rcases h _ _ _ ends with ⟨x, fine, same, holds⟩ | ⟨e, broken, same, fails⟩
  · exact .inl ⟨x, fine, same, value x d' holds⟩
  · exact .inr ⟨e, broken, same, error e d' fails⟩

theorem Withstands.of_stops (h : Withstands a d ok fail)
    (safe : ∀ answer d', Program.Stops a.run d (some answer) d' → P d') :
    Withstands a d ok fun e d' => fail e d' ∧ P d' := by
  intro failed answer d' ends
  refine (h _ _ _ ends).imp_right ?_
  rintro ⟨e, broken, rfl, fails⟩
  exact ⟨e, broken, rfl, fails, safe _ _ ends.stops⟩

theorem Withstands.ends_of_ok (h : Withstands a d ok fail) (run : outcome a d = (.ok x, d')) :
    Ends a.run d false (.ok x) d' ∧ ok x d' := by
  obtain ⟨failed, ends⟩ := Program.ends_run a.run d
  have same : a.run.run d = (.ok x, d') := run
  rw [same] at ends
  rcases h _ _ _ ends with ⟨_, rfl, told, holds⟩ | ⟨_, -, told, -⟩
  · cases told
    exact ⟨ends, holds⟩
  · cases told

theorem withstands_pure (h : ok x d) : Withstands (pure x) d ok fail := by
  intro failed answer d' ends
  cases ends
  exact .inl ⟨x, rfl, rfl, h⟩

theorem Withstands.bind {mid : α → Disk → Prop} {ok : β → Disk → Prop} (h : Withstands a d mid fail)
    (next : ∀ x d', mid x d' → Withstands (f x) d' ok fail) : Withstands (a >>= f) d ok fail := by
  intro failed answer d'' ends
  obtain ⟨first, second, r, d', begins, goes, rfl⟩ := Ends.of_bind ends
  rcases h _ _ _ begins with ⟨x, rfl, rfl, holds⟩ | ⟨e, rfl, rfl, fails⟩
  · exact next x d' holds _ _ _ goes
  · cases goes
    exact .inr ⟨e, rfl, rfl, fails⟩

theorem Always.bind_withstands {ok : β → Disk → Prop} (h : Always a d (.ok x) d')
    (next : Withstands (f x) d' ok fail) : Withstands (a >>= f) d ok fail := by
  intro failed answer d'' ends
  obtain ⟨first, second, r, d₁, begins, goes, rfl⟩ := Ends.of_bind ends
  obtain ⟨rfl, rfl, rfl⟩ := h _ _ _ begins
  exact next _ _ _ goes

theorem withstands_adapt {g : ε → ε'} {fail : ε' → Disk → Prop}
    (h : Withstands a d ok fun e => fail (g e)) : Withstands (a.adapt g) d ok fail := by
  intro failed answer d'' ends
  obtain ⟨first, second, r, d', begins, goes, rfl⟩ := Ends.of_bind ends
  cases goes
  rcases h _ _ _ begins with ⟨x, rfl, rfl, holds⟩ | ⟨e, rfl, rfl, fails⟩
  · exact .inl ⟨x, rfl, rfl, holds⟩
  · exact .inr ⟨g e, rfl, rfl, fails⟩

/-- The condition is about the items that are done, and about what they gave. -/
theorem withstands_mapM {f : α → ExceptT ε Program β} {I : List α → List β → Disk → Prop}
    {items : List α} (each : ∀ done x others ys d, items = done ++ x :: others → I done ys d →
      Withstands (f x) d (fun y => I (done ++ [x]) (ys ++ [y])) fail)
    (start : I [] [] d) : Withstands (items.mapM f) d (I items) fail := by
  have onward (others done : List α) (ys : List β) (d : Disk) (parts : items = done ++ others)
      (holds : I done ys d) : Withstands (others.mapM f) d (fun zs => I items (ys ++ zs)) fail := by
    induction others generalizing done ys d with
    | nil =>
      rw [List.append_nil] at parts
      rw [List.mapM_nil, parts]
      refine withstands_pure ?_
      rwa [List.append_nil]
    | cons x others ih =>
      rw [List.mapM_cons]
      refine (each done x others ys d parts holds).bind fun y d₁ holds => ?_
      refine (ih (done ++ [x]) (ys ++ [y]) d₁ (by simp [parts]) holds).bind fun zs d₂ holds => ?_
      rw [List.append_assoc] at holds
      exact withstands_pure holds
  exact onward items [] [] d rfl start

end Wordhoard.Files
