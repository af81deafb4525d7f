import Wordhoard.Proofs.Grammar.Trace
import Wordhoard.Query.Token

/-! The order in which a refusal lists what would have been taken. Main statement: whatever the merges
on the way, it is the order in which the trace of the run tells of the mismatches. That is the order in
which they happened, unless a construct is cut short where it had met something else before. -/
namespace Wordhoard

open Grammar (Mismatch Trace)

variable {κ : Type}

namespace Expectation

theorem addUnseen_append (first second third : List String) :
    addUnseen first (second ++ third) = addUnseen (addUnseen first second) third :=
  List.foldl_append

theorem addUnseen_singleton (first : List String) (d : String) :
    addUnseen first [d] = if d ∈ first then first else first ++ [d] := rfl

theorem addUnseen_addUnseen (first second third : List String) :
    addUnseen first (addUnseen second third) = addUnseen (addUnseen first second) third := by
  induction third generalizing second with
  | nil => rfl
  | cons d rest ih =>
    have one : addUnseen first (addUnseen second [d]) = addUnseen (addUnseen first second) [d] := by
      rw [addUnseen_singleton second]
      split
      · rename_i known
        rw [addUnseen_singleton, if_pos (mem_addUnseen.2 (.inr known))]
      · exact addUnseen_append ..
    rw [← List.singleton_append, addUnseen_append, addUnseen_append, ih, one]

theorem addUnseen_eraseDups (seen rest : List String) :
    addUnseen seen.eraseDups rest = (seen ++ rest).eraseDups := by
  induction rest generalizing seen with
  | nil => rw [List.append_nil]; rfl
  | cons d rest ih =>
    have one : addUnseen seen.eraseDups [d] = (seen ++ [d]).eraseDups := by
      rw [addUnseen_singleton, List.eraseDups_append, List.removeAll]
      by_cases known : d ∈ seen <;> simp [known, List.eraseDups_cons]
    rw [← List.singleton_append, addUnseen_append, one, ih, List.append_assoc]

theorem eraseDups_append_eq (first second : List String) :
    (first ++ second).eraseDups = addUnseen first.eraseDups second.eraseDups := by
  have alone : second.eraseDups = addUnseen [] second := (addUnseen_eraseDups [] second).symm
  rw [alone, addUnseen_addUnseen]
  exact (addUnseen_eraseDups first second).symm

end Expectation

namespace Grammar

def descriptionsAt (index : Nat) (ms : List (Mismatch κ)) : List String :=
  (ms.filter (·.place.index = index)).map (·.description)

theorem mem_descriptionsAt {index : Nat} {ms : List (Mismatch κ)} {d : String} :
    d ∈ descriptionsAt index ms ↔ ∃ m ∈ ms, m.place.index = index ∧ m.description = d := by
  simp [descriptionsAt, and_assoc]

theorem descriptionsAt_append (index : Nat) (ms ns : List (Mismatch κ)) :
    descriptionsAt index (ms ++ ns) = descriptionsAt index ms ++ descriptionsAt index ns := by
  rw [descriptionsAt, List.filter_append, List.map_append]
  rfl

theorem descriptionsAt_eq_nil {index : Nat} {ms : List (Mismatch κ)}
    (before : ∀ m ∈ ms, m.place.index < index) : descriptionsAt index ms = [] := by
  rw [descriptionsAt, List.map_eq_nil_iff, List.filter_eq_nil_iff]
  exact fun m hm there => Nat.ne_of_lt (before m hm) (of_decide_eq_true there)

theorem append_comm_of_same {first second : List String}
    (same : ∀ d ∈ first, ∀ d' ∈ second, d = d') : first ++ second = second ++ first := by
  cases first with
  | nil => exact (List.append_nil _).symm
  | cons d rest =>
    cases second with
    | nil => exact List.append_nil _
    | cons d' rest' =>
      have right : d' :: rest' = List.replicate (rest'.length + 1) d :=
        List.eq_replicate_iff.2 ⟨rfl, fun x hx => (same d (List.mem_cons_self ..) x hx).symm⟩
      have left : d :: rest = List.replicate (rest.length + 1) d := by
        refine List.eq_replicate_iff.2 ⟨rfl, fun x hx => ?_⟩
        have head := same d (List.mem_cons_self ..) d' (List.mem_cons_self ..)
        exact (same x hx d' (List.mem_cons_self ..)).trans head.symm
      rw [left, right, List.replicate_append_replicate, List.replicate_append_replicate,
        Nat.add_comm]

/-- At one place of the text, what is told first is what happened first. -/
def Trace.InTime (index : Nat) (t : Trace κ) : Prop :=
  (descriptionsAt index t.told).eraseDups = (descriptionsAt index t.seen).eraseDups

theorem Trace.inTime_of_not_overtakes {index : Nat} {t : Trace κ} (calm : ¬ t.Overtakes index) :
    t.InTime index := by
  induction t with
  | step ms => rfl
  | inTurn first second ih ih' =>
    obtain ⟨calm, calm'⟩ := not_or.1 calm
    have left : first.InTime index := ih calm
    have right : second.InTime index := ih' calm'
    rw [Trace.InTime, Trace.told, Trace.seen, descriptionsAt_append, descriptionsAt_append,
      Expectation.eraseDups_append_eq, Expectation.eraseDups_append_eq, left, right]
  | cutShort earlier last ih ih' =>
    obtain ⟨calm, alone⟩ := not_or.1 calm
    obtain ⟨calm, calm'⟩ := not_or.1 calm
    have left : earlier.InTime index := ih calm
    have right : last.InTime index := ih' calm'
    -- if both parts met something at this place, it was one and the same description
    have same : ∀ d ∈ descriptionsAt index last.seen, ∀ d' ∈ descriptionsAt index earlier.seen,
        d = d' := by
      intro d hd d' hd'
      obtain ⟨n, hn, there, rfl⟩ := mem_descriptionsAt.1 hd
      obtain ⟨m, hm, there', rfl⟩ := mem_descriptionsAt.1 hd'
      exact Decidable.byContradiction fun other =>
        alone ⟨m, hm, n, hn, there', there, Ne.symm other⟩
    calc (descriptionsAt index (last.told ++ earlier.told)).eraseDups
        = (descriptionsAt index (last.seen ++ earlier.seen)).eraseDups := by
          rw [descriptionsAt_append, descriptionsAt_append, Expectation.eraseDups_append_eq,
            Expectation.eraseDups_append_eq, right, left]
      _ = (descriptionsAt index (earlier.seen ++ last.seen)).eraseDups := by
          rw [descriptionsAt_append, descriptionsAt_append, append_comm_of_same same]

end Grammar

namespace Expectation

open Grammar (descriptionsAt descriptionsAt_append descriptionsAt_eq_nil)

/-- The refusal sums up the mismatches and lists those at its place in order, each where it comes
first. -/
structure Lists (e : Expectation) (ms : List (Mismatch κ)) : Prop where
  sumsUp : e.SumsUp ms
  inOrder : e.expected = (descriptionsAt e.position.index ms).eraseDups

def ListsAll : Option Expectation → List (Mismatch κ) → Prop
  | none, ms => ms = []
  | some e, ms => e.Lists ms

theorem lists_here (c : Cursor κ) (d : String) : (Expectation.here c d).Lists [⟨c, d⟩] where
  sumsUp := .here c d
  inOrder := by
    have there : descriptionsAt c.index [⟨c, d⟩] = [d] := by simp [descriptionsAt]
    exact (congrArg List.eraseDups there).symm

theorem Lists.merge {a b : Expectation} {ms ns : List (Mismatch κ)} (ha : a.Lists ms)
    (hb : b.Lists ns) : (a.merge b).Lists (ms ++ ns) := by
  refine ⟨ha.sumsUp.merge hb.sumsUp, ?_⟩
  rw [descriptionsAt_append]
  unfold Expectation.merge
  split
  · rename_i less
    rw [descriptionsAt_eq_nil fun m hm => Nat.lt_of_le_of_lt (ha.sumsUp.furthest m hm) less]
    exact hb.inOrder
  · split
    · rename_i more
      rw [descriptionsAt_eq_nil fun m hm => Nat.lt_of_le_of_lt (hb.sumsUp.furthest m hm) more,
        List.append_nil]
      exact ha.inOrder
    · rename_i not_less not_more
      have level : a.position.index = b.position.index := by omega
      rw [eraseDups_append_eq, ← ha.inOrder]
      dsimp only
      rw [level, ← hb.inOrder]

theorem Lists.mergeWith {e : Expectation} {before : Option Expectation}
    {ms ns : List (Mismatch κ)} (h : e.Lists ns) (hb : ListsAll before ms) :
    (e.mergeWith before).Lists (ns ++ ms) := by
  cases before with
  | none => cases hb; rw [List.append_nil]; exact h
  | some b => exact h.merge hb

theorem ListsAll.later {a b : Option Expectation} {ms ns : List (Mismatch κ)}
    (ha : ListsAll a ms) (hb : ListsAll b ns) : ListsAll (later a b) (ms ++ ns) := by
  cases a with
  | none => cases ha; exact hb
  | some a => exact Lists.mergeWith ha hb

/-- The trace sees the mismatches and the refusal lists them as the trace tells of them. So it lists
them as they happened just if these are told in time, as they are where nothing is overtaken. -/
structure ListsAsTold (e : Expectation) (t : Trace κ) (ms : List (Mismatch κ)) : Prop where
  seen : t.seen = ms
  told : e.Lists t.told
  inTime_iff : e.Lists ms ↔ t.InTime e.position.index
  calm : ¬ t.Overtakes e.position.index → e.Lists ms

theorem Lists.asTold {e : Expectation} {t : Trace κ} {ms : List (Mismatch κ)} (h : e.Lists t.told)
    (seen : t.seen = ms) : e.ListsAsTold t ms := by
  subst seen
  have sums : e.SumsUp t.seen := h.sumsUp.congr fun m => t.told_perm_seen.mem_iff
  have inTime : e.Lists t.seen ↔ t.InTime e.position.index :=
    ⟨fun lists => h.inOrder.symm.trans lists.inOrder, fun same => ⟨sums, h.inOrder.trans same⟩⟩
  exact ⟨rfl, h, inTime, fun calm => inTime.2 (Trace.inTime_of_not_overtakes calm)⟩

end Expectation

namespace Grammar

open Expectation (Lists ListsAll later lists_here)

variable {ν : Type} {τ : ν → Type} {α β : Type}

def Tells (o : Outcome κ α) (t : Trace κ) : Prop :=
  match o with
  | .ok p => ListsAll p.furthest t.told
  | .error (.expected e) => e.Lists t.told
  | .error _ => True

def reported? : Outcome κ α → Option Expectation
  | .ok p => p.furthest
  | .error (.expected e) => some e
  | .error _ => none

theorem Tells.lists {o : Outcome κ α} {t : Trace κ} (h : Tells o t) {e : Expectation}
    (reports : reported? o = some e) : e.Lists t.told := by
  cases o with
  | ok p =>
    rw [Tells, show p.furthest = some e from reports] at h
    exact h
  | error f =>
    cases f with
    | tokenize e' => cases reports
    | expected e' =>
      cases reports
      exact h
    | endless => cases reports

theorem Tells.of_error {f : Failure} {t : Trace κ} (h : Tells (.error f : Outcome κ α) t) :
    Tells (.error f : Outcome κ β) t := by
  cases f <;> exact h

theorem tells_stopped {f : Failure} (stops : ∀ e, f ≠ .expected e) (t : Trace κ) :
    Tells (.error f : Outcome κ α) t := by
  cases f with
  | expected e => exact absurd rfl (stops e)
  | tokenize e => trivial
  | endless => trivial

theorem tells_token (fits : Token κ → Bool) (description : String) (c : Cursor κ) :
    Tells (takeToken fits description c) (.step (watchToken fits description c).mismatches) := by
  cases c with
  | finished p => exact lists_here _ _
  | token t next =>
    simp only [takeToken, watchToken]
    split
    · cases next.enter with
      | ok rest => exact rfl
      | error e => trivial
    · exact lists_here _ _

theorem tells_finish (c : Cursor κ) : Tells (takeFinish c) (.step (watchFinish c).mismatches) := by
  cases c with
  | finished p => exact rfl
  | token t next => exact lists_here _ _

theorem tells_seq {p : Cursor κ → Outcome κ α} {q : Cursor κ → Outcome κ β}
    {p' : Cursor κ → Watched κ α} {q' : Cursor κ → Watched κ β} {t t' : Cursor κ → Trace κ}
    (hp : ∀ c, Reports (p c) (p' c)) (hq : ∀ c, Reports (q c) (q' c)) (tp : ∀ c, Tells (p c) (t c))
    (tq : ∀ c, Tells (q c) (t' c)) (c : Cursor κ) :
    Tells (runSeq p q c)
      ((p' c).verdict.elim
        (fun _ rest =>
          (q' rest).verdict.elim (fun _ _ => (t c).inTurn (t' rest))
            ((t c).cutShort (t' rest)) ((t c).inTurn (t' rest)))
        (t c) (t c)) := by
  have first := hp c
  have told := tp c
  unfold runSeq
  split
  · rename_i f eq
    rw [eq] at first told
    rw [first.elim_error]
    exact told.of_error
  · rename_i a eq
    rw [eq] at first told
    rw [Verdict.elim_accepted first.1]
    have second := hq a.rest
    have told' := tq a.rest
    split
    · rename_i f eq
      rw [eq] at second told'
      cases f with
      | tokenize e => trivial
      | expected e =>
        -- the refusal of the second part takes in that of the first
        rw [Verdict.elim_refused second.1]
        exact told'.mergeWith told
      | endless => trivial
    · rename_i b eq
      rw [eq] at second told'
      rw [Verdict.elim_accepted second.1]
      exact told.later told'

theorem tells_either {p q : Cursor κ → Outcome κ α} {p' : Cursor κ → Watched κ α}
    {t t' : Cursor κ → Trace κ} (hp : ∀ c, Reports (p c) (p' c)) (tp : ∀ c, Tells (p c) (t c))
    (tq : ∀ c, Tells (q c) (t' c)) (c : Cursor κ) :
    Tells (runEither p q c)
      ((p' c).verdict.elim (fun _ _ => t c) ((t c).inTurn (t' c)) (t c)) := by
  have first := hp c
  have told := tp c
  unfold runEither
  split
  · rename_i a eq
    rw [eq] at first told
    rw [Verdict.elim_accepted first.1]
    exact told
  · rename_i e eq
    rw [eq] at first told
    rw [Verdict.elim_refused first.1]
    have told' := tq c
    split
    · rename_i b eq
      rw [eq] at told'
      exact ListsAll.later (a := some e) told told'
    · rename_i e' eq
      rw [eq] at told'
      exact told.merge told'
    · rename_i f not_refused eq
      exact tells_stopped not_refused _
  · rename_i f not_refused eq
    exact tells_stopped not_refused _

theorem tells_close (least : Nat) (values : List α) (rest : Cursor κ)
    {furthest : Option Expectation} {earlier : Trace κ} (met : ListsAll furthest earlier.told) :
    Tells (closeMany least values rest furthest) (traceClose least values rest earlier) := by
  unfold closeMany traceClose watchClose
  split
  · exact Lists.mergeWith (lists_here _ _) met
  · exact met

theorem tells_many {item : Cursor κ → Outcome κ α} {item' : Cursor κ → Watched κ α}
    {t : Cursor κ → Trace κ} (h : ∀ c, Reports (item c) (item' c)) (ht : ∀ c, Tells (item c) (t c))
    (least : Nat) (most : Option Nat) (rounds : Nat) (values : List α) (rest : Cursor κ)
    {furthest : Option Expectation} {earlier : Trace κ} (met : ListsAll furthest earlier.told) :
    Tells (runMany item least most rounds values rest furthest)
      (traceMany item' t least most rounds values rest earlier) := by
  have one := h rest
  have told := ht rest
  unfold runMany traceMany
  split
  · split
    · rename_i p eq
      rw [eq] at one told
      have further : ListsAll (later furthest p.furthest) (earlier.inTurn (t rest)).told :=
        met.later told
      rw [Verdict.elim_accepted one.1]
      dsimp only
      split
      · cases rounds with
        | zero => exact tells_close _ _ _ further
        | succ n => exact tells_many h ht least most n _ _ further
      · exact tells_close _ _ _ further
    · rename_i e eq
      rw [eq] at one told
      rw [Verdict.elim_refused one.1]
      split
      · exact Lists.mergeWith told met
      · exact met.later (b := some e) told
    · rename_i f not_refused eq
      exact tells_stopped not_refused _
  · exact tells_close _ _ _ met
termination_by rounds

theorem tells_separated {item : Cursor κ → Outcome κ α} {item' : Cursor κ → Watched κ α}
    {separator : Cursor κ → Outcome κ β} {separator' : Cursor κ → Watched κ β}
    {t t' : Cursor κ → Trace κ} (h : ∀ c, Reports (item c) (item' c))
    (hs : ∀ c, Reports (separator c) (separator' c)) (ht : ∀ c, Tells (item c) (t c))
    (hs' : ∀ c, Tells (separator c) (t' c)) (rounds : Nat) (values : List α) (rest : Cursor κ)
    {furthest : Option Expectation} {earlier : Trace κ} (met : ListsAll furthest earlier.told) :
    Tells (runSeparated item separator rounds values rest furthest)
      (traceSeparated item' separator' t t' rounds rest earlier) := by
  have first := hs rest
  have told := hs' rest
  unfold runSeparated traceSeparated
  split
  · rename_i e eq
    rw [eq] at first told
    rw [Verdict.elim_refused first.1]
    exact met.later (b := some e) told
  · rename_i f not_refused eq
    exact tells_stopped not_refused _
  · rename_i s eq
    rw [eq] at first told
    rw [Verdict.elim_accepted first.1]
    have between : ListsAll (later furthest s.furthest) (earlier.inTurn (t' rest)).told :=
      met.later told
    have second := h s.rest
    have told' := ht s.rest
    split
    · rename_i e eq
      rw [eq] at second told'
      rw [Verdict.elim_refused second.1]
      exact between.later (b := some e) told'
    · rename_i f not_refused eq
      exact tells_stopped not_refused _
    · rename_i p eq
      rw [eq] at second told'
      rw [Verdict.elim_accepted second.1]
      split
      · cases rounds with
        | zero => trivial
        | succ n => exact tells_separated h hs ht hs' n _ _ (between.later told')
      · trivial
termination_by rounds

theorem tells_filterMap (description : String) (f : α → Option β)
    {p : Cursor κ → Outcome κ α} {p' : Cursor κ → Watched κ α} {t : Cursor κ → Trace κ}
    (hp : ∀ c, Reports (p c) (p' c)) (tp : ∀ c, Tells (p c) (t c)) (c : Cursor κ) :
    Tells (runFilterMap description f p c)
      ((p' c).verdict.elim
        (fun a _ =>
          match f a with
          | some _ => t c
          | none => (t c).cutShort (.step [⟨c, description⟩]))
        (t c) (t c)) := by
  have first := hp c
  have told := tp c
  unfold runFilterMap
  split
  · rename_i e eq
    rw [eq] at first told
    rw [first.elim_error]
    exact told.of_error
  · rename_i a eq
    rw [eq] at first told
    rw [Verdict.elim_accepted first.1]
    cases f a.value with
    | some b => exact told
    | none => exact Lists.mergeWith (lists_here _ _) told

theorem lists_end {o : Outcome κ α} {w : Watched κ α} {t : Trace κ} (h : Reports o w)
    (ht : Tells o t) {e : Expectation} (refused : requireEnd o = .error (.expected e)) :
    e.Lists (traceEnd w t).told := by
  unfold requireEnd at refused
  split at refused
  · rename_i f
    cases refused
    rw [traceEnd, h.elim_error]
    exact ht
  · rename_i p
    split at refused
    · cases refused
    · rename_i left_over
      cases refused
      rw [traceEnd, Verdict.elim_accepted h.1]
      cases eq : p.rest with
      | finished position => exact absurd eq (left_over position)
      | token t' next => exact Lists.mergeWith (lists_here _ _) ht

variable [DecidableEq κ] [TokenKind κ]

theorem tells_interpret {call : (n : ν) → Cursor κ → Outcome κ (τ n)}
    {call' : (n : ν) → Cursor κ → Watched κ (τ n)} {traced : ν → Cursor κ → Trace κ}
    (h : ∀ n c, Reports (call n c) (call' n c)) (ht : ∀ n c, Tells (call n c) (traced n c))
    (g : Grammar κ τ α) (c : Cursor κ) : Tells (interpret call g c) (trace call' traced g c) := by
  induction g generalizing c with
  | token kind => exact tells_token _ _ c
  | keyword kind text => exact tells_token _ _ c
  | finish => exact tells_finish c
  | seq p q ihp ihq => exact tells_seq (reports_interpret h p) (reports_interpret h q) ihp ihq c
  | either p q ihp ihq => exact tells_either (reports_interpret h p) ihp ihq c
  | many p least most ih =>
    have start : ListsAll none (Trace.step ([] : List (Mismatch κ))).told := rfl
    exact tells_many (reports_interpret h p) ih least most _ [] c start
  | sepBy1 p s ihp ihs =>
    have first := reports_interpret h p c
    have told := ihp c
    unfold interpret trace
    split
    · rename_i f eq
      rw [eq] at first told
      rw [first.elim_error]
      exact told.of_error
    · rename_i a eq
      rw [eq] at first told
      rw [Verdict.elim_accepted first.1]
      exact tells_separated (reports_interpret h p) (reports_interpret h s) ihp ihs _ _ _ told
  | map f p ih =>
    have told := ih c
    unfold interpret trace
    cases eq : interpret call p c with
    | error e =>
      rw [eq] at told
      exact told.of_error
    | ok a =>
      rw [eq] at told
      exact told
  | filterMap description f p ih => exact tells_filterMap description f (reports_interpret h p) ih c
  | named n => exact ht n c

theorem tells_call (rules : Rules κ τ) (depth : Nat) (n : ν) (c : Cursor κ) :
    Tells (rules.call depth n c) (rules.traceCall depth n c) := by
  induction depth generalizing n c with
  | zero => trivial
  | succ depth ih => exact tells_interpret (reports_call rules depth) ih (rules.body n) c

/-- Whatever the grammar and however deep its calls may go: the refusal that a run reports, on success
too, and the one that the demand for the end of the text reports stand at the furthest mismatch and list
what was refused there in the order in which the trace tells of it, each description where it comes
first. That is the order in which it happened just if it is told in time, and it is so where nothing is
overtaken. -/
theorem expected_as_told (rules : Rules κ τ) (depth : Nat) (g : Grammar κ τ α) (c : Cursor κ)
    (e : Expectation) :
    (reported? (interpret (rules.call depth) g c) = some e →
      e.ListsAsTold (trace (rules.watchCall depth) (rules.traceCall depth) g c)
        (watch (rules.watchCall depth) g c).mismatches) ∧
    (requireEnd (interpret (rules.call depth) g c) = .error (.expected e) →
      e.ListsAsTold
        (traceEnd (watch (rules.watchCall depth) g c)
          (trace (rules.watchCall depth) (rules.traceCall depth) g c))
        (watchEnd (watch (rules.watchCall depth) g c)).mismatches) := by
  have reports := reports_run rules depth g c
  have told := tells_interpret (reports_call rules depth) (tells_call rules depth) g c
  have seen := seen_trace (seen_traceCall rules depth) g c
  constructor
  · intro reported
    exact (told.lists reported).asTold seen
  · intro refused
    exact (lists_end reports told refused).asTold (seen_traceEnd seen)

section

open Query (Kind)

/-- A word, perhaps behind a comma, and then a comma, or a word and a number. -/
def commaOrNumberBehind : Grammar Kind (fun _ : Empty => Unit) (Token Kind × Token Kind) :=
  .either (.seq (.preceded (.opt (.token .comma)) (.token .ident)) (.token .comma))
    (.seq (.token .ident) (.token .number))

def oneWord : Cursor Kind :=
  .token ⟨.ident, "a", ⟨0, 1, 1, 1, 2⟩, true⟩ ⟨[], .finished ⟨1, 1, 2, 1, 2⟩⟩

def nothingBehind : Expectation := ⟨⟨1, 1, 2, 1, 2⟩, none, ["','", "number"]⟩

/-- Both alternatives are cut short at the end of the text, where neither met anything before. -/
theorem expected_as_told_of_oneWord :
    interpret (noRules.call 0) commaOrNumberBehind oneWord = .error (.expected nothingBehind) ∧
      nothingBehind.Lists (watch (noRules.watchCall 0) commaOrNumberBehind oneWord).mismatches ∧
      nothingBehind.Lists
        (watchEnd (watch (noRules.watchCall 0) commaOrNumberBehind oneWord)).mismatches := by
  obtain ⟨run, ends⟩ := expected_as_told noRules 0 commaOrNumberBehind oneWord nothingBehind
  exact ⟨rfl, (run rfl).calm (by decide), (ends rfl).calm (by decide)⟩

def perhapsWordThenComma :
    Grammar Kind (fun _ : Empty => Unit) (Option (Token Kind) × Token Kind) :=
  .seq (.opt (.token .ident)) (.token .comma)

def wordsWithCommas : Grammar Kind (fun _ : Empty => Unit) (List (Token Kind)) :=
  .sepBy1 (.token .ident) (.token .comma)

def noWord : Cursor Kind := .finished ⟨0, 1, 1, 1, 1⟩

def twoWords : Cursor Kind :=
  .token ⟨.ident, "a", ⟨0, 1, 1, 1, 2⟩, true⟩
    ⟨[⟨.ident, "b", ⟨2, 1, 3, 1, 4⟩, true⟩], .finished ⟨3, 1, 4, 1, 4⟩⟩

def commaMissed : Expectation := ⟨⟨0, 1, 1, 1, 1⟩, none, ["','", "identifier"]⟩

def endMissed : Expectation := ⟨⟨2, 1, 3, 1, 4⟩, some "b", ["end of input", "','"]⟩

/-- The word was missed before the comma, and the comma before the end of the text, but both are
listed behind. -/
theorem expected_out_of_order :
    interpret (noRules.call 0) perhapsWordThenComma noWord = .error (.expected commaMissed) ∧
      (watch (noRules.watchCall 0) perhapsWordThenComma noWord).mismatches =
        [⟨noWord, "identifier"⟩, ⟨noWord, "','"⟩] ∧
      ¬ commaMissed.Lists (watch (noRules.watchCall 0) perhapsWordThenComma noWord).mismatches ∧
      requireEnd (interpret (noRules.call 0) wordsWithCommas twoWords) =
        .error (.expected endMissed) ∧
      ¬ endMissed.Lists
        (watchEnd (watch (noRules.watchCall 0) wordsWithCommas twoWords)).mismatches :=
  ⟨rfl, rfl, fun lists => absurd lists.inOrder (by decide), rfl,
    fun lists => absurd lists.inOrder (by decide)⟩

end

end Grammar

end Wordhoard
