import Wordhoard.Files.Program

/-! Two programs that work on one disk, their requests one by one in any order. Main statement: what each
of them relies on may be followed program by program, if the other one's requests leave it. -/
namespace Wordhoard.Files.Program

variable {α β : Type} {p : Program α} {q : Program β} {d d' : Disk} {a : α} {b : β}

/-- Both programs come to their ends with these values and leave this disk. -/
inductive Together : Program α → Program β → Disk → α → β → Disk → Prop where
  | ended (a : α) (b : β) (d : Disk) : Together (.done a) (.done b) d a b d
  | left {r : Request} {next : r.Reply → Program α} {q : Program β} {d d' : Disk} {a : α} {b : β}
      (later : Together (next (r.answer d).1) q (r.answer d).2 a b d') :
      Together (.ask r next) q d a b d'
  | right {p : Program α} {r : Request} {next : r.Reply → Program β} {d d' : Disk} {a : α} {b : β}
      (later : Together p (next (r.answer d).1) (r.answer d).2 a b d') :
      Together p (.ask r next) d a b d'

/-- Each request of a program keeps the invariant and leads to its next stage, and the stages of the
other program stay. -/
def Advances (invariant : Disk → Prop) (stage : Program α → Disk → Prop)
    (others : Program β → Disk → Prop) : Prop :=
  ∀ (r : Request) (next : r.Reply → Program α) (d : Disk), invariant d → stage (.ask r next) d →
    invariant (r.answer d).2 ∧ stage (next (r.answer d).1) (r.answer d).2 ∧
      ∀ q, others q d → others q (r.answer d).2

theorem Together.induct {invariant : Disk → Prop} {first : Program α → Disk → Prop}
    {second : Program β → Disk → Prop} (run : Together p q d a b d')
    (left : Advances invariant first second) (right : Advances invariant second first)
    (holds : invariant d) (here : first p d) (there : second q d) :
    invariant d' ∧ first (.done a) d' ∧ second (.done b) d' := by
  induction run with
  | ended a b d => exact ⟨holds, here, there⟩
  | left later ih =>
    obtain ⟨kept, further, stays⟩ := left _ _ _ holds here
    exact ih kept further (stays _ there)
  | right later ih =>
    obtain ⟨kept, further, stays⟩ := right _ _ _ holds there
    exact ih kept (stays _ here) further

/-- What two programs come to if they make their requests in these turns, the first program where it is
true. -/
def turns : List Bool → Program α → Program β → Disk → Option (α × β × Disk)
  | [], .done a, .done b, d => some (a, b, d)
  | true :: rest, .ask r next, q, d => turns rest (next (r.answer d).1) q (r.answer d).2
  | false :: rest, p, .ask r next, d => turns rest p (next (r.answer d).1) (r.answer d).2
  | _, _, _, _ => none

theorem together_iff_turns :
    Together p q d a b d' ↔ ∃ order, turns order p q d = some (a, b, d') := by
  constructor
  · intro run
    induction run with
    | ended a b d => exact ⟨[], rfl⟩
    | left later ih =>
      obtain ⟨order, same⟩ := ih
      exact ⟨true :: order, same⟩
    | right later ih =>
      obtain ⟨order, same⟩ := ih
      exact ⟨false :: order, by simpa only [turns] using same⟩
  · rintro ⟨order, same⟩
    fun_induction turns order p q d with
    | case1 a b d =>
      cases same
      exact .ended _ _ _
    | case2 d rest r next q ih => exact .left (ih same)
    | case3 d rest p r next ih => exact .right (ih same)
    | case4 => cases same

theorem exists_together {γ : Type} {c : γ} (order : List Bool) (see : Disk → γ)
    (h : (turns order p q d).map (fun x => (x.1, x.2.1, see x.2.2)) = some (a, b, c)) :
    ∃ d', Together p q d a b d' ∧ see d' = c := by
  obtain ⟨⟨a, b, d'⟩, same, seen⟩ := Option.map_eq_some_iff.1 h
  cases seen
  exact ⟨d', together_iff_turns.2 ⟨order, same⟩, rfl⟩

end Wordhoard.Files.Program
