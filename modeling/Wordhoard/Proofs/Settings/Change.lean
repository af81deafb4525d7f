import Wordhoard.Proofs.Files.Beside
import Wordhoard.Proofs.Settings.RoundTrip
import Wordhoard.Proofs.Store.Saved
import Wordhoard.Settings.File

/-! Changing a setting in its file. Main statement: a change is refused and leaves the disk, or the file
holds the earlier settings with this one set; so after any changes each setting has the last value that
was accepted for it. -/
namespace Wordhoard.Settings

open Files (Disk outcome Program)

variable {α : Type} {path key value : String} {s s' : Settings} {d d' : Disk} {call : String × String}
  {calls : List (String × String)}

def Loads (path : String) (d : Disk) (s : Settings) : Prop := outcome (load path) d = (.ok s, d)

theorem Loads.unique (h : Loads path d s) (h' : Loads path d s') : s = s' :=
  Except.ok.inj (Prod.mk.inj (h.symm.trans h')).1

theorem outcome_load (path : String) (d : Disk) : outcome (load path) d =
    (if d.exists? path then
      match d.read path with
      | .error _ => .error .unreadable
      | .ok bytes => decode bytes
    else .ok {}, d) := by
  have asked : outcome (ExceptT.lift (Program.request (.exists path)) : Action Bool) d =
      (.ok (d.exists? path), d) := rfl
  have next : outcome (load path) d = outcome _ d := Files.outcome_bind_of_ok asked
  rw [next]
  split
  · have answered : outcome (ExceptT.lift (Program.request (.read path)) : Action _) d =
        (.ok (d.read path), d) := rfl
    refine (Files.outcome_bind_of_ok answered).trans ?_
    cases d.read path with
    | error => rfl
    | ok bytes => cases decode bytes <;> rfl
  · rfl

theorem exists?_of_read {bytes : ByteArray} (stored : d.read path = .ok bytes) :
    d.exists? path = true := by
  obtain ⟨p, found, node⟩ := Disk.read_eq_ok stored
  simp [Disk.exists?, found, node]

theorem loads_of_read {text : String} (stored : d.read path = .ok text.toUTF8)
    (holds : read? text = some s) : Loads path d s := by
  have decoded : decode text.toUTF8 = .ok s := by
    rw [decode, Store.fromUTF8?_toUTF8]
    dsimp only
    rw [holds]
  rw [Loads, outcome_load, if_pos (exists?_of_read stored), stored]
  dsimp only
  rw [decoded]

def made (path : String) (d : Disk) : Disk :=
  (Files.parent? path).elim d fun directory => (d.createDirectories directory).2

/-- Whatever is to be written, the directory can be created and the file be written in it. -/
structure Writable (path : String) (d : Disk) : Prop where
  directory : ∀ directory ∈ Files.parent? path, (d.createDirectories directory).1 = .ok ()
  file : ∀ content, ∃ d', (made path d).write path content = .ok d'

theorem writable_of_read {bytes : ByteArray} (stored : d.read path = .ok bytes) : Writable path d := by
  obtain ⟨p, found, node⟩ := Disk.read_eq_ok stored
  have there {directory : String} (lies : Files.parent? path = some directory) :
      d.createDirectories directory = (.ok (), d) := Disk.createDirectories_parent found lies
  have same : made path d = d := by
    unfold made
    cases lies : Files.parent? path with
    | none => rfl
    | some directory => exact congrArg Prod.snd (there lies)
  have file : d.node? p ≠ some .directory := by
    rw [node]
    exact nofun
  refine ⟨fun directory lies => congrArg Prod.fst (there lies), fun content => ?_⟩
  rw [same]
  exact ⟨_, Disk.write_of_locate found file⟩

theorem exists_outcome_save (writable : Writable path d) (s : Settings) :
    ∃ d', outcome (save path s) d = (.ok (), d') ∧ d'.read path = .ok s.text.toUTF8 := by
  obtain ⟨d', written⟩ := writable.file s.text.toUTF8
  refine ⟨d', ?_, Disk.read_of_write written⟩
  have answer : (Program.request (.write path s.text.toUTF8)).run (made path d) = (.ok (), d') :=
    congrArg (Files.changed (made path d)) written
  have put : outcome (ExceptT.lift (Program.request (.write path s.text.toUTF8)) : Action _)
      (made path d) = (.ok (.ok ()), d') := by
    rw [Files.outcome_lift, answer]
  unfold save
  cases lies : Files.parent? path with
  | none =>
    have same : made path d = d := by rw [made, lies]; rfl
    rw [same] at put
    exact Files.outcome_bind_of_ok put
  | some directory =>
    have same : made path d = (d.createDirectories directory).2 := by rw [made, lies]; rfl
    have create : outcome (ExceptT.lift (Program.request (.createDirectories directory)) : Action _) d =
        (.ok (.ok ()), made path d) := by
      rw [same, ← writable.directory directory lies]
      rfl
    exact (Files.outcome_bind_of_ok create).trans (Files.outcome_bind_of_ok put)

/-- The value is accepted for the setting of the key, and settings change to others by it alone. -/
inductive Accepts (value : String) (s : Settings) : String → Settings → Prop where
  | storePath : Accepts value s "store.path" { s with storePath := some value }
  | color {b : Bool} (word : readBool? value = some b) :
      Accepts value s "output.color" { s with color := some b }
  | defaultQuery {q : Query} (parsed : Query.parse value = .ok q) :
      Accepts value s "query.default" { s with defaultQuery := some value }

/-- There is no such setting, or it does not take the value. -/
inductive Rejects (value : String) : String → Prop where
  | unknown {key : String} (other : key ∉ ["store.path", "output.color", "query.default"]) :
      Rejects value key
  | color (none : readBool? value = none) : Rejects value "output.color"
  | defaultQuery {e : Query.ParseError} (unread : Query.parse value = .error e) :
      Rejects value "query.default"

theorem set_cases (s : Settings) (key value : String) :
    (∃ s', s.set key value = .ok s' ∧ Accepts value s key s') ∨
      ∃ e, s.set key value = .error e ∧ Rejects value key := by
  unfold set
  split
  · rename_i same
    subst same
    exact .inl ⟨_, rfl, .storePath⟩
  split
  · rename_i same
    subst same
    cases word : readBool? value with
    | some b => exact .inl ⟨_, rfl, .color word⟩
    | none => exact .inr ⟨_, rfl, .color word⟩
  split
  · rename_i same
    subst same
    cases parsed : Query.parse value with
    | ok q => exact .inl ⟨_, rfl, .defaultQuery parsed⟩
    | error e => exact .inr ⟨_, rfl, .defaultQuery parsed⟩
  · rename_i path color query
    exact .inr ⟨_, rfl, .unknown (by simp [path, color, query])⟩

theorem set_of_accepts (h : Accepts value s key s') : s.set key value = .ok s' := by
  cases h with
  | storePath => rfl
  | color word => simp [set, word]
  | defaultQuery parsed => simp [set, parsed]

theorem set_of_rejects (h : Rejects value key) (s : Settings) : ∃ e, s.set key value = .error e := by
  cases h with
  | unknown other =>
    simp only [List.mem_cons, List.not_mem_nil, or_false, not_or] at other
    exact ⟨_, by rw [set, if_neg other.1, if_neg other.2.1, if_neg other.2.2]⟩
  | color none => exact ⟨.notBoolean value, by simp [set, none]⟩
  | defaultQuery unread => exact ⟨_, by simp [set, unread]; rfl⟩

/-- There is a file that cannot be loaded, or the value is not accepted for the key. -/
inductive Refused (path key value : String) (d : Disk) : Prop where
  | unread (there : d.exists? path) (unread : ∀ s, ¬ Loads path d s)
  | rejected (h : Rejects value key)

theorem loads_of_missing (missing : d.exists? path = false) : Loads path d {} := by
  rw [Loads, outcome_load, missing]
  rfl

theorem loads_or_unread (path : String) (d : Disk) :
    (∃ s, Loads path d s) ∨ ((∀ s, ¬ Loads path d s) ∧ ∃ e, outcome (load path) d = (.error e, d)) := by
  cases run : outcome (load path) d with
  | mk result d' =>
    obtain rfl : d = d' := by
      rw [outcome_load] at run
      exact (Prod.mk.inj run).2
    cases result with
    | ok s => exact .inl ⟨s, run⟩
    | error e =>
      refine .inr ⟨fun s loaded => ?_, e, rfl⟩
      cases run.symm.trans loaded

theorem outcome_change_of_error {e : Error} (loaded : Loads path d s)
    (rejected : s.set key value = .error e) :
    outcome (change path key value) d = (.error e, d) := by
  have next : outcome (change path key value) d = outcome _ d := Files.outcome_bind_of_ok loaded
  rw [next, rejected]
  rfl

theorem outcome_change_of_ok (loaded : Loads path d s) (accepted : s.set key value = .ok s') :
    outcome (change path key value) d = outcome (save path s') d := by
  have next : outcome (change path key value) d = outcome _ d := Files.outcome_bind_of_ok loaded
  rw [next, accepted]
  rfl

theorem outcome_change_of_unread (unread : ∀ s, ¬ Loads path d s) (key value : String) :
    ∃ e, outcome (change path key value) d = (.error e, d) := by
  obtain ⟨s, loaded⟩ | ⟨-, e, fails⟩ := loads_or_unread path d
  · exact absurd loaded (unread s)
  · exact ⟨e, Files.outcome_bind_of_error fails⟩

theorem outcome_change_of_refused (h : Refused path key value d) :
    ∃ e, outcome (change path key value) d = (.error e, d) := by
  obtain ⟨s, loaded⟩ | ⟨unread, -⟩ := loads_or_unread path d
  · cases h with
    | unread _ unread => exact absurd loaded (unread s)
    | rejected h =>
      obtain ⟨e, rejected⟩ := set_of_rejects h s
      exact ⟨e, outcome_change_of_error loaded rejected⟩
  · exact outcome_change_of_unread unread key value

theorem Accepts.not_refused (h : Accepts value s key s') (loaded : Loads path d s) :
    ¬ Refused path key value d := by
  rintro (⟨-, unread⟩ | ⟨rejected⟩)
  · exact unread s loaded
  · obtain ⟨e, fails⟩ := set_of_rejects rejected s
    cases (set_of_accepts h).symm.trans fails

theorem outcome_change_of_accepted (writable : Writable path d) (loaded : Loads path d s)
    (accepted : s.set key value = .ok s') :
    ∃ d', outcome (change path key value) d = (.ok (), d') ∧ Loads path d' s' ∧ Writable path d' := by
  obtain ⟨d', saved, stored⟩ := exists_outcome_save writable s'
  exact ⟨d', (outcome_change_of_ok loaded accepted).trans saved,
    loads_of_read stored (read?_text s'), writable_of_read stored⟩

def changed (path : String) (calls : List (String × String)) (d : Disk) : Disk :=
  calls.foldl (fun d call => (outcome (change path call.1 call.2) d).2) d

def applied (s : Settings) (call : String × String) : Settings := (s.set call.1 call.2).toOption.getD s

def taken? (name : String) (take : String → Option α) (call : String × String) : Option α :=
  if call.1 = name then take call.2 else none

def last? (name : String) (take : String → Option α) (calls : List (String × String)) : Option α :=
  (calls.filterMap (taken? name take)).getLast?

def readQuery? (value : String) : Option String := if (Query.parse value).isOk then some value else none

/-- Each setting has the last value that was accepted for it, or its old value. -/
structure LastAccepted (calls : List (String × String)) (s s' : Settings) : Prop where
  storePath : s'.storePath = (last? "store.path" some calls).or s.storePath
  color : s'.color = (last? "output.color" readBool? calls).or s.color
  defaultQuery : s'.defaultQuery = (last? "query.default" readQuery? calls).or s.defaultQuery

theorem last?_cons {name : String} {take : String → Option α} :
    last? name take (call :: calls) = (last? name take calls).or (taken? name take call) := by
  unfold last?
  cases here : taken? name take call with
  | none => rw [List.filterMap_cons_none here, Option.or_none]
  | some a =>
    rw [List.filterMap_cons_some here, List.getLast?_cons]
    cases List.getLast? _ <;> rfl

theorem last?_singleton {name : String} {take : String → Option α} :
    last? name take [call] = taken? name take call := last?_cons

theorem lastAccepted_applied (s : Settings) (call : String × String) :
    LastAccepted [call] s (applied s call) := by
  obtain ⟨key, value⟩ := call
  rcases set_cases s key value with ⟨s', accepted, how⟩ | ⟨e, rejected, why⟩
  · have same : applied s (key, value) = s' := by rw [applied, accepted]; rfl
    rw [same]
    cases how with
    | storePath => constructor <;> simp [last?_singleton, taken?]
    | color word => constructor <;> simp [last?_singleton, taken?, word]
    | defaultQuery parsed =>
      constructor <;> simp [last?_singleton, taken?, readQuery?, parsed, Except.isOk, Except.toBool]
  · have same : applied s (key, value) = s := by rw [applied, rejected]; rfl
    rw [same]
    cases why with
    | unknown other =>
      simp only [List.mem_cons, List.not_mem_nil, or_false, not_or] at other
      constructor <;> simp [last?_singleton, taken?, other]
    | color none => constructor <;> simp [last?_singleton, taken?, none]
    | defaultQuery unread =>
      constructor <;> simp [last?_singleton, taken?, readQuery?, unread, Except.isOk, Except.toBool]

theorem LastAccepted.cons {s₁ s₂ : Settings} (h : LastAccepted [call] s s₁)
    (h' : LastAccepted calls s₁ s₂) : LastAccepted (call :: calls) s s₂ where
  storePath := by rw [h'.storePath, h.storePath, last?_singleton, last?_cons, Option.or_assoc]
  color := by rw [h'.color, h.color, last?_singleton, last?_cons, Option.or_assoc]
  defaultQuery := by
    rw [h'.defaultQuery, h.defaultQuery, last?_singleton, last?_cons, Option.or_assoc]

theorem lastAccepted_foldl (calls : List (String × String)) (s : Settings) :
    LastAccepted calls s (calls.foldl applied s) := by
  induction calls generalizing s with
  | nil => exact ⟨rfl, rfl, rfl⟩
  | cons call others ih => exact (lastAccepted_applied s call).cons (ih (applied s call))

theorem loads_change (writable : Writable path d) (loaded : Loads path d s) (call : String × String) :
    let d' := (outcome (change path call.1 call.2) d).2
    Writable path d' ∧ Loads path d' (applied s call) := by
  intro d'
  rcases set_cases s call.1 call.2 with ⟨s', accepted, -⟩ | ⟨e, rejected, -⟩
  · obtain ⟨d₁, run, loaded, writable⟩ := outcome_change_of_accepted writable loaded accepted
    simp only [d', applied, run, accepted]
    exact ⟨writable, loaded⟩
  · simp only [d', applied, outcome_change_of_error loaded rejected, rejected]
    exact ⟨writable, loaded⟩

theorem loads_changed (writable : Writable path d) (loaded : Loads path d s)
    (calls : List (String × String)) : Loads path (changed path calls d) (calls.foldl applied s) := by
  -- A change keeps the file one that can be written, so the next one may be made.
  induction calls generalizing d s with
  | nil => exact loaded
  | cons call others ih =>
    obtain ⟨writable, loaded⟩ := loads_change writable loaded call
    exact ih writable loaded

theorem changed_of_unread (unread : ∀ s, ¬ Loads path d s) (calls : List (String × String)) :
    changed path calls d = d := by
  induction calls with
  | nil => rfl
  | cons call others ih =>
    obtain ⟨e, fails⟩ := outcome_change_of_unread unread call.1 call.2
    have same : (outcome (change path call.1 call.2) d).2 = d := by rw [fails]
    rw [changed, List.foldl_cons, same]
    exact ih

/-- A change is refused and leaves the disk, just if the file is there and does not load or the value is
not accepted for the key; or the file holds the earlier settings with this one set. After any changes
each setting has the last value that was accepted for it, or its old value, unless the file never
loaded. -/
theorem change_sets_one (path : String) (d : Disk) :
    (∀ key value, Refused path key value d → ∃ e, outcome (change path key value) d = (.error e, d)) ∧
    (Writable path d → ∀ key value, ¬ Refused path key value d →
      ∃ s s' d', Loads path d s ∧ Accepts value s key s' ∧
        outcome (change path key value) d = (.ok (), d') ∧ Loads path d' s') ∧
    (Writable path d → ∀ calls s, Loads path d s →
      ∃ s', Loads path (changed path calls d) s' ∧ LastAccepted calls s s') ∧
    ((∀ s, ¬ Loads path d s) → ∀ calls, changed path calls d = d) := by
  refine ⟨fun key value => outcome_change_of_refused, ?_, ?_, changed_of_unread⟩
  · intro writable key value allowed
    obtain ⟨s, loaded⟩ | ⟨unread, -⟩ := loads_or_unread path d
    · rcases set_cases s key value with ⟨s', accepted, how⟩ | ⟨e, -, why⟩
      · obtain ⟨d', run, after, -⟩ := outcome_change_of_accepted writable loaded accepted
        exact ⟨s, s', d', loaded, how, run, after⟩
      · exact absurd (.rejected why) allowed
    · cases there : d.exists? path with
      | true => exact absurd (.unread there unread) allowed
      | false => exact absurd (loads_of_missing there) (unread {})
  · intro writable calls s loaded
    exact ⟨_, loads_changed writable loaded calls, lastAccepted_foldl calls s⟩

/-- Colours are switched on and off again, and what is misspelled in between does not count. -/
theorem colors_off_again :
    let d : Disk := { nodes := [(["config.toml"], .file "[store]\npath = 'a\\b'\n".toUTF8)] }
    let calls := [("output.color", "yes"), ("output.colour", "no"), ("query.default", "not reviewed"),
      ("query.default", "not"), ("output.color", "OFF")]
    (∃ e, outcome (change "config.toml" "query.default" "not") d = (.error e, d)) ∧
      (∃ d', outcome (change "config.toml" "output.color" "yes") d = (.ok (), d') ∧
        Loads "config.toml" d' { storePath := some "a\\b", color := some true }) ∧
      Loads "config.toml" (changed "config.toml" calls d)
        { storePath := some "a\\b", color := some false, defaultQuery := some "not reviewed" } := by
  intro d calls
  have stored : d.read "config.toml" = .ok "[store]\npath = 'a\\b'\n".toUTF8 := rfl
  have loaded : Loads "config.toml" d { storePath := some "a\\b" } := by
    exact loads_of_read stored (by decide +kernel)
  obtain ⟨refused, accepted, after, -⟩ := change_sets_one "config.toml" d
  have writable := writable_of_read stored
  refine ⟨refused _ _ (.rejected ?_), ?_, ?_⟩
  · cases parsed : Query.parse "not" with
    | error e => exact .defaultQuery parsed
    | ok q =>
      have misspelled : (Query.parse "not").isOk = false := by decide +kernel
      rw [parsed] at misspelled
      cases misspelled
  · have color : Accepts "yes" { storePath := some "a\\b" } "output.color"
        { storePath := some "a\\b", color := some true } := .color (by decide +kernel)
    obtain ⟨s, s', d', loaded', how, run, there⟩ := accepted writable _ _ (color.not_refused loaded)
    obtain rfl := loaded'.unique loaded
    cases (set_of_accepts how).symm.trans (set_of_accepts color)
    exact ⟨d', run, there⟩
  · obtain ⟨⟨path, color, query⟩, loaded', last⟩ := after writable calls _ loaded
    have none : last? "store.path" some calls = none := by decide
    have off : last? "output.color" readBool? calls = some false := by decide +kernel
    have words : last? "query.default" readQuery? calls = some "not reviewed" := by decide +kernel
    obtain rfl : path = some "a\\b" := by simpa [none] using last.storePath
    obtain rfl : color = some false := by simpa [off] using last.color
    obtain rfl : query = some "not reviewed" := by simpa [words] using last.defaultQuery
    exact loaded'

end Wordhoard.Settings
