import Mathlib.Data.List.Infix
import Mathlib.Data.List.Perm.Subperm
import Wordhoard.Query.Evaluate

/-! What a filter lists. Main statement: it lists items that match, none of them more often than the
collection holds it, and as many as its steps leave; without limits it lists all of them, and without
sorting, shuffling and reversing they stand next to each other and in their order. -/
namespace Wordhoard

variable {α ρ : Type} [RandomSource ρ]

namespace RandomSource

theorem swapIfInBounds_perm (items : Array α) (i j : Nat) :
    (items.swapIfInBounds i j).toList.Perm items.toList := by
  unfold Array.swapIfInBounds
  split
  · split
    · exact (Array.swap_perm _ _).toList
    · exact List.Perm.refl _
  · exact List.Perm.refl _

/-- Whatever the source draws, shuffling only changes the order. -/
theorem shuffleFrom_perm (last : Nat) (items : Array α) (r : ρ) :
    (shuffleFrom last items r).1.toList.Perm items.toList := by
  induction last generalizing items r with
  | zero => exact List.Perm.refl _
  | succ i ih => exact (ih _ _).trans (swapIfInBounds_perm items _ _)

theorem shuffle_perm (items : List α) (r : ρ) : (shuffle items r).1.Perm items :=
  shuffleFrom_perm _ _ _

end RandomSource

namespace Query

def Step.left : Step → Nat → Nat
  | limit count, n => min n count
  | skip count, n => n - count
  | _, n => n

def Step.KeepsAll : Step → Prop
  | limit _ => False
  | skip _ => False
  | _ => True

def Step.KeepsOrder : Step → Prop
  | limit _ => True
  | skip _ => True
  | _ => False

variable (view : α → Word)

theorem length_run (step : Step) (items : List α) (r : ρ) :
    (step.run view items r).1.length = step.left items.length := by
  cases step with
  | limit count => simp [Step.run, Step.left, Nat.min_comm]
  | skip count => simp [Step.run, Step.left]
  | sort key direction => simp [Step.run, Step.left]
  | shuffle => exact (RandomSource.shuffle_perm items r).length_eq
  | reverse => simp [Step.run, Step.left]

theorem perm_run (step : Step) (all : step.KeepsAll) (items : List α) (r : ρ) :
    (step.run view items r).1.Perm items := by
  cases step with
  | limit count => cases all
  | skip count => cases all
  | sort key direction => exact List.mergeSort_perm _ _
  | shuffle => exact RandomSource.shuffle_perm items r
  | reverse => exact List.reverse_perm items

theorem infix_run (step : Step) (order : step.KeepsOrder) (items : List α) (r : ρ) :
    (step.run view items r).1 <:+: items := by
  cases step with
  | limit count => exact (List.take_prefix _ _).isInfix
  | skip count => exact (List.drop_suffix _ _).isInfix
  | sort key direction => cases order
  | shuffle => cases order
  | reverse => cases order

theorem subperm_run (step : Step) (items : List α) (r : ρ) :
    (step.run view items r).1.Subperm items := by
  cases step with
  | limit count => exact (infix_run view (.limit count) trivial items r).sublist.subperm
  | skip count => exact (infix_run view (.skip count) trivial items r).sublist.subperm
  | sort key direction => exact (perm_run view (.sort key direction) trivial items r).subperm
  | shuffle => exact (perm_run view .shuffle trivial items r).subperm
  | reverse => exact (perm_run view .reverse trivial items r).subperm

/-- What each step does to a list, a row of steps does to it, if it may be repeated. -/
theorem runSteps_induct {R : List α → List α → Prop} (refl : ∀ items, R items items)
    (trans : ∀ {a b c}, R a b → R b c → R a c) (steps : List Step)
    (each : ∀ step ∈ steps, ∀ items (r : ρ), R (step.run view items r).1 items) (items : List α)
    (r : ρ) : R (runSteps view steps items r).1 items := by
  induction steps generalizing items r with
  | nil => exact refl items
  | cons step steps ih =>
    have first := each step List.mem_cons_self items r
    exact trans (ih (fun s hs => each s (List.mem_cons_of_mem _ hs)) _ _) first

theorem length_runSteps (steps : List Step) (items : List α) (r : ρ) :
    (runSteps view steps items r).1.length =
      steps.foldl (fun n step => step.left n) items.length := by
  induction steps generalizing items r with
  | nil => rfl
  | cons step steps ih =>
    rw [List.foldl_cons, ← length_run view step items r]
    exact ih _ _

/-- Every filter lists a selection of the matching items: none more often than the collection holds
it, and as many as the steps leave, one after the other, of those that match. -/
theorem selection_of_filter (now : Time.Instant) (condition : Condition) (steps : List Step)
    (items : List α) (r : ρ) :
    ∃ listed r', evaluate now view (.filter condition steps) items r = .ok (.listed listed, r') ∧
      listed.Subperm items ∧
      (∀ x ∈ listed, condition.holds now (view x) = true) ∧
      listed.length = steps.foldl (fun n step => step.left n)
        (items.countP fun x => condition.holds now (view x)) ∧
      ((∀ step ∈ steps, step.KeepsAll) →
        listed.Perm (items.filter fun x => condition.holds now (view x))) ∧
      ((∀ step ∈ steps, step.KeepsOrder) →
        listed <:+: items.filter fun x => condition.holds now (view x)) := by
  let found := items.filter fun x => condition.holds now (view x)
  have selected : (runSteps view steps found r).1.Subperm found :=
    runSteps_induct view List.Subperm.refl List.Subperm.trans steps
      (fun step _ => subperm_run view step) found r
  refine ⟨_, _, rfl, ?_, ?_, ?_, ?_, ?_⟩
  · exact selected.trans List.filter_sublist.subperm
  · intro x hx
    exact (List.mem_filter.1 (selected.subset hx)).2
  · rw [List.countP_eq_length_filter]
    exact length_runSteps view steps found r
  · intro all
    exact runSteps_induct view List.Perm.refl List.Perm.trans steps
      (fun step hs => perm_run view step (all step hs)) found r
  · intro order
    exact runSteps_induct view List.infix_refl List.IsInfix.trans steps
      (fun step hs => infix_run view step (order step hs)) found r

end Query

end Wordhoard
