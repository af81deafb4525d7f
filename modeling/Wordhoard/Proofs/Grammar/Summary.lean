import Wordhoard.Proofs.Grammar.Mismatch

/-! The refusal that a run reports sums up its mismatches: it stands at the one furthest into the
text and lists what would have been taken there. -/
namespace Wordhoard

namespace Expectation

variable {κ : Type}

open Grammar (Mismatch)

/-- The refusal stands at a furthest mismatch, and its list holds just the descriptions there. -/
structure SumsUp (e : Expectation) (ms : List (Mismatch κ)) : Prop where
  place : ∃ m ∈ ms, e.position = m.place.position ∧ e.found = m.place.found
  furthest : ∀ m ∈ ms, m.place.index ≤ e.position.index
  expected : ∀ d, d ∈ e.expected ↔ ∃ m ∈ ms, m.place.index = e.position.index ∧ m.description = d
  nodup : e.expected.Nodup

def SumsUpAll : Option Expectation → List (Mismatch κ) → Prop
  | none, ms => ms = []
  | some e, ms => e.SumsUp ms

theorem mem_addUnseen {d : String} {first second : List String} :
    d ∈ addUnseen first second ↔ d ∈ first ∨ d ∈ second := by
  unfold addUnseen
  induction second generalizing first with
  | nil => simp
  | cons x rest ih =>
    rw [List.foldl_cons, ih]
    split
    · rename_i seen
      simp only [List.mem_cons]
      constructor
      · rintro (h | h) <;> simp [h]
      · rintro (h | h | h)
        · exact .inl h
        · exact .inl (h ▸ seen)
        · exact .inr h
    · simp [or_assoc]

theorem nodup_addUnseen {first second : List String} (h : first.Nodup) :
    (addUnseen first second).Nodup := by
  unfold addUnseen
  induction second generalizing first with
  | nil => exact h
  | cons x rest ih =>
    rw [List.foldl_cons]
    apply ih
    split
    · exact h
    · rename_i new
      refine List.nodup_append.2 ⟨h, by simp, fun a ha b hb => ?_⟩
      have same : b = x := by simpa using hb
      exact fun eq => new (same ▸ eq ▸ ha)

theorem SumsUp.here (c : Cursor κ) (d : String) : (Expectation.here c d).SumsUp [⟨c, d⟩] where
  place := ⟨_, List.mem_singleton.2 rfl, rfl, rfl⟩
  furthest m hm := by rw [List.mem_singleton.1 hm]; exact Nat.le_refl _
  expected x := by simp [Expectation.here, Cursor.index, eq_comm]
  nodup := by simp [Expectation.here]

theorem SumsUp.congr {e : Expectation} {ms ns : List (Mismatch κ)} (h : e.SumsUp ms)
    (same : ∀ m, m ∈ ms ↔ m ∈ ns) : e.SumsUp ns where
  place := by simpa only [same] using h.place
  furthest m hm := h.furthest m ((same m).2 hm)
  expected d := by simpa only [same] using h.expected d
  nodup := h.nodup

theorem SumsUp.append_left {e : Expectation} {ms ns : List (Mismatch κ)} (h : e.SumsUp ms)
    (before : ∀ m ∈ ns, m.place.index < e.position.index) : e.SumsUp (ms ++ ns) where
  place := by
    obtain ⟨m, hm, at_place⟩ := h.place
    exact ⟨m, List.mem_append_left _ hm, at_place⟩
  furthest m hm := by
    rcases List.mem_append.1 hm with hm | hm
    · exact h.furthest m hm
    · exact Nat.le_of_lt (before m hm)
  expected d := by
    rw [h.expected]
    constructor
    · rintro ⟨m, hm, at_place⟩
      exact ⟨m, List.mem_append_left _ hm, at_place⟩
    · rintro ⟨m, hm, at_place⟩
      rcases List.mem_append.1 hm with hm | hm
      · exact ⟨m, hm, at_place⟩
      · exact absurd at_place.1 (Nat.ne_of_lt (before m hm))
  nodup := h.nodup

theorem SumsUp.comm {e : Expectation} {ms ns : List (Mismatch κ)} (h : e.SumsUp (ms ++ ns)) :
    e.SumsUp (ns ++ ms) :=
  h.congr fun m => by rw [List.mem_append, List.mem_append, or_comm]

theorem SumsUp.merge {a b : Expectation} {ms ns : List (Mismatch κ)} (ha : a.SumsUp ms)
    (hb : b.SumsUp ns) : (a.merge b).SumsUp (ms ++ ns) := by
  unfold Expectation.merge
  split
  · rename_i less
    exact (hb.append_left fun m hm => Nat.lt_of_le_of_lt (ha.furthest m hm) less).comm
  · split
    · rename_i more
      exact ha.append_left fun m hm => Nat.lt_of_le_of_lt (hb.furthest m hm) more
    · rename_i not_less not_more
      have level : a.position.index = b.position.index := by omega
      refine ⟨?_, fun m hm => ?_, fun d => ?_, nodup_addUnseen ha.nodup⟩
      · obtain ⟨m, hm, at_place⟩ := ha.place
        exact ⟨m, List.mem_append_left _ hm, at_place⟩
      · rcases List.mem_append.1 hm with hm | hm
        · exact ha.furthest m hm
        · exact level ▸ hb.furthest m hm
      · rw [mem_addUnseen, ha.expected, hb.expected, ← level]
        constructor
        · rintro (⟨m, hm, at_place⟩ | ⟨m, hm, at_place⟩)
          · exact ⟨m, List.mem_append_left _ hm, at_place⟩
          · exact ⟨m, List.mem_append_right _ hm, at_place⟩
        · rintro ⟨m, hm, at_place⟩
          rcases List.mem_append.1 hm with hm | hm
          · exact .inl ⟨m, hm, at_place⟩
          · exact .inr ⟨m, hm, at_place⟩

theorem SumsUp.mergeWith {e : Expectation} {before : Option Expectation}
    {ms ns : List (Mismatch κ)} (h : e.SumsUp ns) (hb : SumsUpAll before ms) :
    (e.mergeWith before).SumsUp (ms ++ ns) := by
  cases before with
  | none => cases hb; exact h
  | some b => exact (h.merge hb).comm

theorem SumsUpAll.later {a b : Option Expectation} {ms ns : List (Mismatch κ)}
    (ha : SumsUpAll a ms) (hb : SumsUpAll b ns) : SumsUpAll (later a b) (ms ++ ns) := by
  cases a with
  | none => cases ha; exact hb
  | some a =>
    cases b with
    | none => cases hb; rw [List.append_nil]; exact ha
    | some b => exact SumsUp.merge ha hb

end Expectation

namespace Grammar

open Expectation (SumsUp SumsUpAll later)

variable {κ ν : Type} {τ : ν → Type} {α β γ : Type}

/-- A run and a watched run end alike, and what the run reports sums up what was watched. -/
def Reports (o : Outcome κ α) (w : Watched κ α) : Prop :=
  match o with
  | .ok p => w.verdict = .accepted p.value p.rest ∧ SumsUpAll p.furthest w.mismatches
  | .error (.expected e) => w.verdict = .refused ∧ e.SumsUp w.mismatches
  | .error (.tokenize e) => w.verdict = .tokenize e
  | .error .endless => w.verdict = .endless

open Watched (accept refuse mismatch next_accepted next_refused next_tokenize next_endless)

theorem Reports.mergeWith {f : Failure} {w : Watched κ α} {before : Option Expectation}
    {ms : List (Mismatch κ)} (h : Reports (.error f) w) (hb : SumsUpAll before ms) :
    Reports (.error (f.mergeWith before)) (w.after ms) := by
  cases f with
  | tokenize e => exact h
  | expected e => exact ⟨h.1, h.2.mergeWith hb⟩
  | endless => exact h

theorem Reports.next_error {f : Failure} {w : Watched κ α}
    (h : Reports (.error f : Outcome κ α) w) (k : α → Cursor κ → Watched κ β) :
    Reports (.error f : Outcome κ β) (w.next k refuse) := by
  cases f with
  | tokenize e => exact next_tokenize h _ _
  | expected e =>
    rw [next_refused h.1]
    exact ⟨rfl, by simpa [refuse, Watched.after] using h.2⟩
  | endless => exact next_endless h _ _

theorem Reports.next_stop {f : Failure} {w : Watched κ α}
    (h : Reports (.error f : Outcome κ α) w) (stops : ∀ e, f ≠ .expected e)
    (k : α → Cursor κ → Watched κ β) (r : Watched κ β) :
    Reports (.error f : Outcome κ β) (w.next k r) := by
  cases f with
  | tokenize e => exact next_tokenize h _ _
  | expected e => exact absurd rfl (stops e)
  | endless => exact next_endless h _ _

theorem Reports.after_stop {f : Failure} {w : Watched κ α} {ms : List (Mismatch κ)}
    (h : Reports (.error f : Outcome κ α) w) (stops : ∀ e, f ≠ .expected e) :
    Reports (.error f : Outcome κ α) (w.after ms) := by
  cases f with
  | tokenize e => exact h
  | expected e => exact absurd rfl (stops e)
  | endless => exact h

theorem Reports.next_ok {p : Parsed κ α} {w : Watched κ α} (h : Reports (.ok p) w)
    (k : α → Cursor κ → Watched κ β) (value : β) (rest : Cursor κ)
    (hk : k p.value p.rest = accept value rest) (r : Watched κ β) :
    Reports (.ok ⟨value, rest, p.furthest⟩) (w.next k r) := by
  rw [next_accepted h.1, hk]
  exact ⟨rfl, by simpa [accept, Watched.after] using h.2⟩

theorem reports_token (fits : Token κ → Bool) (description : String) (c : Cursor κ) :
    Reports (takeToken fits description c) (watchToken fits description c) := by
  cases c with
  | finished p => exact ⟨rfl, .here _ _⟩
  | token t next =>
    simp only [takeToken, watchToken]
    split
    · cases next.enter with
      | ok rest => exact ⟨rfl, rfl⟩
      | error e => exact rfl
    · exact ⟨rfl, .here _ _⟩

theorem reports_finish (c : Cursor κ) : Reports (takeFinish c) (watchFinish c) := by
  cases c with
  | finished p => exact ⟨rfl, rfl⟩
  | token t next => exact ⟨rfl, .here _ _⟩

theorem reports_seq {p : Cursor κ → Outcome κ α} {q : Cursor κ → Outcome κ β}
    {p' : Cursor κ → Watched κ α} {q' : Cursor κ → Watched κ β} (hp : ∀ c, Reports (p c) (p' c))
    (hq : ∀ c, Reports (q c) (q' c)) (c : Cursor κ) :
    Reports (runSeq p q c)
      ((p' c).next (fun a rest => (q' rest).next (fun b => accept (a, b)) refuse) refuse) := by
  have first := hp c
  unfold runSeq
  split
  · rename_i f eq
    exact Reports.next_error (eq ▸ first) _
  · rename_i a eq
    rw [eq] at first
    rw [next_accepted first.1]
    have second := hq a.rest
    split
    · rename_i f eq
      exact (Reports.next_error (eq ▸ second) _).mergeWith first.2
    · rename_i b eq
      rw [eq] at second
      rw [next_accepted second.1]
      refine ⟨rfl, ?_⟩
      simpa [accept, Watched.after] using first.2.later second.2

theorem reports_either {p q : Cursor κ → Outcome κ α} {p' q' : Cursor κ → Watched κ α}
    (hp : ∀ c, Reports (p c) (p' c)) (hq : ∀ c, Reports (q c) (q' c)) (c : Cursor κ) :
    Reports (runEither p q c) ((p' c).next accept (q' c)) := by
  have first := hp c
  unfold runEither
  split
  · rename_i a eq
    exact Reports.next_ok (eq ▸ first) _ _ _ rfl _
  · rename_i e eq
    rw [eq] at first
    rw [next_refused first.1]
    have second := hq c
    split
    · rename_i b eq
      rw [eq] at second
      exact ⟨second.1, SumsUpAll.later (a := some e) first.2 second.2⟩
    · rename_i e' eq
      rw [eq] at second
      exact ⟨second.1, first.2.merge second.2⟩
    · rename_i f not_refused eq
      exact Reports.after_stop (eq ▸ second) not_refused
  · rename_i f not_refused eq
    exact Reports.next_stop (eq ▸ first) not_refused _ _

theorem reports_close (least : Nat) (values : List α) (rest : Cursor κ)
    {furthest : Option Expectation} {ms : List (Mismatch κ)} (h : SumsUpAll furthest ms) :
    Reports (closeMany least values rest furthest) ((watchClose least values rest).after ms) := by
  unfold closeMany watchClose
  split
  · exact ⟨rfl, SumsUp.mergeWith (.here _ _) h⟩
  · exact ⟨rfl, by simpa [accept, Watched.after] using h⟩

theorem after_after (ms ns : List (Mismatch κ)) (w : Watched κ α) :
    (w.after ns).after ms = w.after (ms ++ ns) := by
  simp only [Watched.after, List.append_assoc]

theorem reports_many {item : Cursor κ → Outcome κ α} {item' : Cursor κ → Watched κ α}
    (h : ∀ c, Reports (item c) (item' c)) (least : Nat) (most : Option Nat) (rounds : Nat)
    (values : List α) (rest : Cursor κ) {furthest : Option Expectation} {ms : List (Mismatch κ)}
    (before : SumsUpAll furthest ms) :
    Reports (runMany item least most rounds values rest furthest)
      ((watchMany item' least most rounds values rest).after ms) := by
  have one := h rest
  unfold runMany watchMany
  split
  · split
    · rename_i p eq
      rw [eq] at one
      have sum := before.later one.2
      rw [next_accepted one.1, after_after]
      dsimp only
      split
      · cases rounds with
        | zero => exact reports_close _ _ _ sum
        | succ n => exact reports_many h least most n _ _ sum
      · exact reports_close _ _ _ sum
    · rename_i e eq
      rw [eq] at one
      rw [next_refused one.1, after_after]
      split
      · exact ⟨rfl, by simpa [refuse, Watched.after] using one.2.mergeWith before⟩
      · exact ⟨rfl, by simpa [accept, Watched.after] using before.later (b := some e) one.2⟩
    · rename_i f not_refused eq
      exact (Reports.next_stop (eq ▸ one) not_refused _ _).after_stop not_refused
  · exact reports_close _ _ _ before
termination_by rounds

theorem reports_separated {item : Cursor κ → Outcome κ α} {item' : Cursor κ → Watched κ α}
    {separator : Cursor κ → Outcome κ β} {separator' : Cursor κ → Watched κ β}
    (h : ∀ c, Reports (item c) (item' c)) (hs : ∀ c, Reports (separator c) (separator' c))
    (rounds : Nat) (values : List α) (rest : Cursor κ) {furthest : Option Expectation}
    {ms : List (Mismatch κ)} (before : SumsUpAll furthest ms) :
    Reports (runSeparated item separator rounds values rest furthest)
      ((watchSeparated item' separator' rounds values rest).after ms) := by
  have first := hs rest
  unfold runSeparated watchSeparated
  split
  · rename_i e eq
    rw [eq] at first
    rw [next_refused first.1, after_after]
    exact ⟨rfl, by simpa [accept, Watched.after] using before.later (b := some e) first.2⟩
  · rename_i f not_refused eq
    exact (Reports.next_stop (eq ▸ first) not_refused _ _).after_stop not_refused
  · rename_i s eq
    rw [eq] at first
    have between := before.later first.2
    have second := h s.rest
    rw [next_accepted first.1, after_after]
    split
    · rename_i e eq
      rw [eq] at second
      rw [next_refused second.1, after_after]
      exact ⟨rfl, by simpa [accept, Watched.after] using between.later (b := some e) second.2⟩
    · rename_i f not_refused eq
      exact (Reports.next_stop (eq ▸ second) not_refused _ _).after_stop not_refused
    · rename_i p eq
      rw [eq] at second
      have sum := between.later second.2
      rw [next_accepted second.1, after_after]
      split
      · cases rounds with
        | zero => exact rfl
        | succ n => exact reports_separated h hs n _ _ sum
      · exact rfl
termination_by rounds

theorem reports_filterMap (description : String) (f : α → Option β)
    {p : Cursor κ → Outcome κ α} {p' : Cursor κ → Watched κ α} (hp : ∀ c, Reports (p c) (p' c))
    (c : Cursor κ) :
    Reports (runFilterMap description f p c)
      ((p' c).next
        (fun a rest =>
          match f a with
          | some b => accept b rest
          | none => mismatch c description) refuse) := by
  have first := hp c
  unfold runFilterMap
  split
  · rename_i e eq
    exact Reports.next_error (eq ▸ first) _
  · rename_i a eq
    rw [eq] at first
    split
    · rename_i b fb
      exact first.next_ok _ _ _ (by rw [fb]) _
    · rename_i fb
      rw [next_accepted first.1, fb]
      exact ⟨rfl, SumsUp.mergeWith (.here _ _) first.2⟩

variable [DecidableEq κ] [TokenKind κ]

theorem reports_interpret {call : (n : ν) → Cursor κ → Outcome κ (τ n)}
    {call' : (n : ν) → Cursor κ → Watched κ (τ n)} (h : ∀ n c, Reports (call n c) (call' n c))
    (g : Grammar κ τ α) (c : Cursor κ) : Reports (interpret call g c) (watch call' g c) := by
  induction g generalizing c with
  | token kind => exact reports_token _ _ c
  | keyword kind text => exact reports_token _ _ c
  | finish => exact reports_finish c
  | seq p q ihp ihq => exact reports_seq ihp ihq c
  | either p q ihp ihq => exact reports_either ihp ihq c
  | many p least most ih =>
    have start : SumsUpAll none ([] : List (Mismatch κ)) := rfl
    exact reports_many ih least most _ [] c start
  | sepBy1 p s ihp ihs =>
    have first := ihp c
    unfold interpret watch
    split
    · rename_i f eq
      exact Reports.next_error (eq ▸ first) _
    · rename_i a eq
      rw [eq] at first
      rw [next_accepted first.1]
      exact reports_separated ihp ihs _ _ _ first.2
  | map f p ih =>
    have first := ih c
    unfold interpret watch
    cases eq : interpret call p c with
    | error e => exact Reports.next_error (eq ▸ first) _
    | ok a => exact Reports.next_ok (eq ▸ first) _ (f a.value) a.rest rfl _
  | filterMap description f p ih => exact reports_filterMap description f ih c
  | named n => exact h n c

theorem reports_call (rules : Rules κ τ) (depth : Nat) (n : ν) (c : Cursor κ) :
    Reports (rules.call depth n c) (rules.watchCall depth n c) := by
  induction depth generalizing n c with
  | zero => exact rfl
  | succ depth ih => exact reports_interpret ih (rules.body n) c

theorem reports_run (rules : Rules κ τ) (depth : Nat) (g : Grammar κ τ α) (c : Cursor κ) :
    Reports (interpret (rules.call depth) g c) (watch (rules.watchCall depth) g c) :=
  reports_interpret (reports_call rules depth) g c

omit [DecidableEq κ] [TokenKind κ] in
theorem Reports.eq_ok {o : Outcome κ α} {w : Watched κ α} {value : α} {rest : Cursor κ}
    (h : Reports o w) (accepted : w.verdict = .accepted value rest) :
    ∃ furthest, o = .ok ⟨value, rest, furthest⟩ := by
  cases o with
  | ok parsed =>
    obtain ⟨verdict, -⟩ := h
    rw [accepted] at verdict
    cases verdict
    exact ⟨parsed.furthest, rfl⟩
  | error f =>
    cases f with
    | tokenize e => rw [Reports, accepted] at h; cases h
    | expected e => rw [Reports, accepted] at h; cases h.1
    | endless => rw [Reports, accepted] at h; cases h

def ReportsEnd (o : Except Failure α) (w : Watched κ α) : Prop :=
  match o with
  | .ok value => ∃ rest, w.verdict = .accepted value rest
  | .error (.expected e) => w.verdict = .refused ∧ e.SumsUp w.mismatches
  | .error (.tokenize e) => w.verdict = .tokenize e
  | .error .endless => w.verdict = .endless

omit [DecidableEq κ] [TokenKind κ] in
theorem reports_end {o : Outcome κ α} {w : Watched κ α} (h : Reports o w) :
    ReportsEnd (requireEnd o) (watchEnd w) := by
  unfold requireEnd watchEnd
  split
  · rename_i f
    cases f with
    | tokenize e => exact next_tokenize h _ _
    | expected e => exact Reports.next_error h _
    | endless => exact next_endless h _ _
  · rename_i p
    rw [next_accepted h.1]
    split
    · rename_i position eq
      exact ⟨p.rest, by rw [eq]; rfl⟩
    · rename_i left_over
      cases eq : p.rest with
      | finished position => exact absurd eq (left_over position)
      | token t next => exact ⟨rfl, SumsUp.mergeWith (.here _ _) h.2⟩

/-- Whatever the grammar and however deep its calls may go: a run ends as the watched run does, it
reports no refusal only if nothing was refused, and a refusal that it reports, or that the demand
for the end of the text reports, stands at the furthest mismatch and lists what was refused there. -/
theorem report_sums_up_mismatches (rules : Rules κ τ) (depth : Nat) (g : Grammar κ τ α)
    (c : Cursor κ) :
    Reports (interpret (rules.call depth) g c) (watch (rules.watchCall depth) g c) ∧
      ReportsEnd (requireEnd (interpret (rules.call depth) g c))
        (watchEnd (watch (rules.watchCall depth) g c)) := by
  have h := reports_run rules depth g c
  exact ⟨h, reports_end h⟩

end Grammar

end Wordhoard
