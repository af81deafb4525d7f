import Wordhoard.Files.Program

/-! Programs that stop anywhere. A program may die between two requests or inside of one, and every
request may fail. Main statement: what all the disks satisfy on which a program may stop follows from
its requests one by one. -/
namespace Wordhoard.Files

variable {α : Type} {d : Disk}

/-- What a request may leave when it fails or is cut off. A file may hold any first part of what is to
be written, and of nested directories the outer ones may be there. All else happens wholly or not at
all. -/
inductive Request.Midway (d : Disk) : Request → Disk → Prop where
  | untouched (r : Request) : Midway d r d
  | whole (r : Request) : Midway d r (r.answer d).2
  | write {path : String} {content : ByteArray} {d' : Disk} (length : Nat)
      (part : d.write path (content.extract 0 length) = .ok d') : Midway d (.write path content) d'
  | createDirectories {path : String} (count : Nat) : Midway d (.createDirectories path)
      (d.createWalk (d.start path) ((segments path).take count)).2

/-- The reply that tells of a failure. Asked whether a file is there, this is no. -/
def Request.failure (e : Fault) : (r : Request) → r.Reply
  | read _ => .error e
  | .exists _ => false
  | write _ _ => .error e
  | createDirectories _ => .error e
  | rename _ _ => .error e
  | remove _ => .error e

theorem changed_cases {change : Except Fault Disk} {P : Disk → Prop} (unchanged : P d)
    (done : ∀ d', change = .ok d' → P d') : P (changed d change).2 := by
  cases change with
  | ok d' => exact done d' rfl
  | error e => exact unchanged

namespace Program

/-- On which disk a program may stop: with a value where it ended, and with none where it died. -/
inductive Stops : Program α → Disk → Option α → Disk → Prop where
  | ended (a : α) (d : Disk) : Stops (.done a) d (some a) d
  | died (p : Program α) (d : Disk) : Stops p d none d
  | cut {r : Request} {next : r.Reply → Program α} {d d' : Disk} (between : r.Midway d d') :
      Stops (.ask r next) d none d'
  | answered {r : Request} {next : r.Reply → Program α} {d d' : Disk} {x : Option α}
      (later : Stops (next (r.answer d).1) (r.answer d).2 x d') : Stops (.ask r next) d x d'
  | failed {r : Request} {next : r.Reply → Program α} {d d' d'' : Disk} {x : Option α} (e : Fault)
      (between : r.Midway d d') (later : Stops (next (r.failure e)) d' x d'') :
      Stops (.ask r next) d x d''

/-- Wherever the program stops, the disk is good, and a value that it ends with is too. -/
def Safe (good : Disk → Prop) (ok : α → Disk → Prop) (p : Program α) (d : Disk) : Prop :=
  ∀ x d', Stops p d x d' → good d' ∧ ∀ a, x = some a → ok a d'

variable {good : Disk → Prop} {ok : α → Disk → Prop}

theorem safe_done {a : α} (here : good d) (value : ok a d) : Safe good ok (.done a) d := by
  intro x d' stops
  cases stops with
  | ended => exact ⟨here, by rintro _ ⟨⟩; exact value⟩
  | died => exact ⟨here, nofun⟩

theorem safe_ask {r : Request} {next : r.Reply → Program α}
    (midway : ∀ d', r.Midway d d' → good d')
    (answered : Safe good ok (next (r.answer d).1) (r.answer d).2)
    (failed : ∀ e d', r.Midway d d' → Safe good ok (next (r.failure e)) d') :
    Safe good ok (.ask r next) d := by
  intro x d' stops
  cases stops with
  | died => exact ⟨midway _ (.untouched r), nofun⟩
  | cut between => exact ⟨midway _ between, nofun⟩
  | answered later => exact answered _ _ later
  | failed e between later => exact failed e _ between _ _ later

theorem stops_run (p : Program α) (d : Disk) : Stops p d (some (p.run d).1) (p.run d).2 := by
  induction p generalizing d with
  | done a => exact .ended a d
  | ask r next ih => exact .answered (ih _ _)

end Program

end Wordhoard.Files
