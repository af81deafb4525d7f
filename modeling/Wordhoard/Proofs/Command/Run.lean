import Wordhoard.Command.Run
import Wordhoard.Proofs.Files.Ensures

/-! A run of a task on words: it looks for the settings and for the place of the collection, and then
it works there. -/
namespace Wordhoard.Command

open Files (Disk Ensures ensures_of_outcome ensures_pure ensures_request ensures_throw Leaves
  leaves_except outcome Program Request)

variable {ρ : Type} [RandomSource ρ] {e : Environment} {p : Preferences} {s : Store.Surroundings} {r : ρ}
  {settings : Settings} {path : String} {d d' : Disk} {task : WordTask}

def found (e : Environment) (p : Preferences) : Action (Settings × String) := do
  let settings ← .ofSettings (Settings.load (← settingsFile e))
  return (settings, ← storeFile e p settings)

theorem leaves_loadSettings : Leaves (Settings.load path) d (· = d) := by
  have asked (request : Request) (same : (request.answer d).2 = d) :
      Leaves (ExceptT.lift (Program.request request) : Settings.Action _) d (· = d) :=
    ensures_request request same
  refine (asked (.exists path) rfl).bind ?_
  rintro there d' rfl
  split
  · refine (asked (.read path) rfl).bind ?_
    rintro reply d' rfl
    split
    · exact ensures_throw rfl
    · exact leaves_except rfl
  · exact ensures_pure rfl

theorem ensures_found : Ensures (found e p) d
    (fun x d' => d' = d ∧ outcome (found e p) d = (.ok x, d)) (fun _ d' => d' = d) := by
  have file : Leaves (settingsFile e) d (· = d) := by
    unfold settingsFile
    split
    · exact ensures_pure rfl
    · exact ensures_throw rfl
  have left : Leaves (found e p) d (· = d) := by
    refine file.bind ?_
    rintro path d' rfl
    refine leaves_loadSettings.adapt.bind ?_
    rintro settings d' rfl
    unfold storeFile
    split
    · exact ensures_pure rfl
    · exact ensures_throw rfl
  refine ensures_of_outcome (fun x d' run => ?_) fun _ _ run => left.error run
  obtain rfl := left.value run
  exact ⟨rfl, run⟩

def shown (e : Environment) (p : Preferences) (s : Store.Surroundings) (r : ρ)
    (task : WordTask) : Action (Outcome × View) := do
  let settings ← (Task.words task).settings e
  return (← (Task.words task).run e p settings s r, .of e p settings s.now)

theorem shown_eq : shown e p s r task =
    found e p >>= fun x => task.run x.2 x.1 s r >>= fun o => pure (o, .of e p x.1 s.now) := by
  simp [shown, found, Task.settings, Task.run]

def Transcript.of (p : Preferences) : Except Error (Outcome × View) → Transcript
  | .ok (outcome, view) => { result := .ok outcome, out := outcome.render view }
  | .error error => .failed p error

theorem run_words : (Command.run e p s r (.words task)).run d =
    (.of p (outcome (shown e p s r task) d).1, (outcome (shown e p s r task) d).2) := by
  have whole := Program.run_bind (shown e p s r task).run (fun result => pure (Transcript.of p result)) d
  refine Eq.trans (congrArg (fun q : Program Transcript => q.run d) ?_) whole
  refine congrArg (Program.bind (shown e p s r task).run) (funext fun result => ?_)
  cases result <;> rfl

/-- What a task ensures at the place that was found, the run ensures. -/
theorem run_of_ensures {ok : Outcome → Disk → Prop} {fail : Error → Disk → Prop} {t : Transcript}
    (unfound : ∀ error, fail error d)
    (each : ∀ settings path, outcome (found e p) d = (.ok (settings, path), d) →
      Ensures (task.run path settings s r) d ok fail)
    (run : (Command.run e p s r (.words task)).run d = (t, d')) :
    (∃ o, t.result = .ok o ∧ ok o d') ∨ ∃ error, t.result = .error error ∧ fail error d' := by
  have ensured : Ensures (shown e p s r task) d (fun x d' => ok x.1 d') fail := by
    rw [shown_eq]
    refine (ensures_found.mono (fun _ _ => id) ?_).bind ?_
    · rintro error d' rfl
      exact unfound error
    · rintro ⟨settings, path⟩ d' ⟨rfl, here⟩
      exact (each settings path here).bind fun o d' holds => ensures_pure holds
  rw [run_words] at run
  cases part : outcome (shown e p s r task) d with
  | mk result d₁ =>
    rw [part] at run
    cases result with
    | ok x =>
      cases run
      exact .inl ⟨x.1, rfl, ensured.value part⟩
    | error error =>
      cases run
      exact .inr ⟨error, rfl, ensured.error part⟩

end Wordhoard.Command
