import Wordhoard.Proofs.Grammar.Summary

/-! How the mismatches of a run come together. A trace keeps which of its constructs were ended by a
refusal, so it knows two orders of the mismatches: the one in which they happened, and the one in
which the constructs tell of them. Main statement: the first is the order of the watched run. -/
namespace Wordhoard.Grammar

variable {κ ν : Type} {τ : ν → Type} {α β : Type}

/-- The mismatches of a run, by the constructs in which they happened. -/
inductive Trace (κ : Type) where
  | step (mismatches : List (Mismatch κ))
  | inTurn (first second : Trace κ)
  /-- A construct that the last of its parts ends by a refusal. -/
  | cutShort (earlier last : Trace κ)

namespace Trace

def seen : Trace κ → List (Mismatch κ)
  | step ms => ms
  | inTurn first second => first.seen ++ second.seen
  | cutShort earlier last => earlier.seen ++ last.seen

/-- The mismatches as they are told: a construct that is cut short begins with what ended it. -/
def told : Trace κ → List (Mismatch κ)
  | step ms => ms
  | inTurn first second => first.told ++ second.told
  | cutShort earlier last => last.told ++ earlier.told

/-- At one place of the text a construct is cut short where it had met something else before. -/
def Overtakes (index : Nat) : Trace κ → Prop
  | step _ => False
  | inTurn first second => first.Overtakes index ∨ second.Overtakes index
  | cutShort earlier last =>
    (earlier.Overtakes index ∨ last.Overtakes index) ∨
      ∃ m ∈ earlier.seen, ∃ n ∈ last.seen,
        m.place.index = index ∧ n.place.index = index ∧ m.description ≠ n.description

instance decidableOvertakes (index : Nat) : (t : Trace κ) → Decidable (t.Overtakes index)
  | step _ => .isFalse id
  | inTurn first second =>
    have := decidableOvertakes index first
    have := decidableOvertakes index second
    inferInstanceAs (Decidable (_ ∨ _))
  | cutShort earlier last =>
    have := decidableOvertakes index earlier
    have := decidableOvertakes index last
    inferInstanceAs (Decidable ((_ ∨ _) ∨ _))

theorem told_perm_seen (t : Trace κ) : t.told.Perm t.seen := by
  induction t with
  | step ms => exact .refl _
  | inTurn first second ih ih' => exact ih.append ih'
  | cutShort earlier last ih ih' => exact (ih'.append ih).trans List.perm_append_comm

end Trace

def Verdict.elim (v : Verdict κ α) (accepted : α → Cursor κ → β) (refused stopped : β) : β :=
  match v with
  | .accepted value rest => accepted value rest
  | .refused => refused
  | .tokenize _ => stopped
  | .endless => stopped

theorem Verdict.elim_accepted {v : Verdict κ α} {value : α} {rest : Cursor κ}
    (h : v = .accepted value rest) (f : α → Cursor κ → β) (r s : β) :
    v.elim f r s = f value rest := by
  rw [h, Verdict.elim]

theorem Verdict.elim_refused {v : Verdict κ α} (h : v = .refused) (f : α → Cursor κ → β)
    (r s : β) : v.elim f r s = r := by
  rw [h, Verdict.elim]

theorem Reports.elim_error {f : Failure} {w : Watched κ α} (h : Reports (.error f : Outcome κ α) w)
    (k : α → Cursor κ → β) (r : β) : w.verdict.elim k r r = r := by
  cases f with
  | tokenize e => rw [show w.verdict = .tokenize e from h, Verdict.elim]
  | expected e => exact Verdict.elim_refused h.1 k r r
  | endless => rw [show w.verdict = .endless from h, Verdict.elim]

def traceClose (least : Nat) (values : List α) (rest : Cursor κ) (earlier : Trace κ) : Trace κ :=
  if values.length < least then
    .cutShort earlier (.step (watchClose least values rest).mismatches)
  else earlier

def traceMany (item : Cursor κ → Watched κ α) (traced : Cursor κ → Trace κ) (least : Nat)
    (most : Option Nat) (rounds : Nat) (values : List α) (rest : Cursor κ) (earlier : Trace κ) :
    Trace κ :=
  if most.all (values.length < ·) then
    (item rest).verdict.elim
      (fun value rest' =>
        if rest'.remaining < rest.remaining then
          match rounds with
          | n + 1 =>
            traceMany item traced least most n (values ++ [value]) rest'
              (earlier.inTurn (traced rest))
          | 0 => traceClose least (values ++ [value]) rest' (earlier.inTurn (traced rest))
        else traceClose least (values ++ [value]) rest' (earlier.inTurn (traced rest)))
      (if values.length < least then .cutShort earlier (traced rest)
        else earlier.inTurn (traced rest))
      (earlier.inTurn (traced rest))
  else traceClose least values rest earlier

def traceSeparated (item : Cursor κ → Watched κ α) (separator : Cursor κ → Watched κ β)
    (traced traced' : Cursor κ → Trace κ) (rounds : Nat) (rest : Cursor κ) (earlier : Trace κ) :
    Trace κ :=
  (separator rest).verdict.elim
    (fun _ between =>
      (item between).verdict.elim
        (fun _ rest' =>
          if rest'.remaining < rest.remaining then
            match rounds with
            | n + 1 =>
              traceSeparated item separator traced traced' n rest'
                ((earlier.inTurn (traced' rest)).inTurn (traced between))
            | 0 => (earlier.inTurn (traced' rest)).inTurn (traced between)
          else (earlier.inTurn (traced' rest)).inTurn (traced between))
        ((earlier.inTurn (traced' rest)).inTurn (traced between))
        ((earlier.inTurn (traced' rest)).inTurn (traced between)))
    (earlier.inTurn (traced' rest))
    (earlier.inTurn (traced' rest))

section

variable [DecidableEq κ] [TokenKind κ]

def trace (call : (n : ν) → Cursor κ → Watched κ (τ n)) (traced : ν → Cursor κ → Trace κ) :
    {α : Type} → Grammar κ τ α → Cursor κ → Trace κ
  | _, token kind, c => .step (watch call (token kind) c).mismatches
  | _, keyword kind text, c => .step (watch call (keyword kind text) c).mismatches
  | _, finish, c => .step (watch call finish c).mismatches
  | _, seq p q, c =>
    (watch call p c).verdict.elim
      (fun _ rest =>
        (watch call q rest).verdict.elim
          (fun _ _ => (trace call traced p c).inTurn (trace call traced q rest))
          ((trace call traced p c).cutShort (trace call traced q rest))
          ((trace call traced p c).inTurn (trace call traced q rest)))
      (trace call traced p c) (trace call traced p c)
  | _, either p q, c =>
    (watch call p c).verdict.elim (fun _ _ => trace call traced p c)
      ((trace call traced p c).inTurn (trace call traced q c)) (trace call traced p c)
  | _, many p least most, c =>
    traceMany (watch call p) (trace call traced p) least most c.remaining [] c (.step [])
  | _, sepBy1 p s, c =>
    (watch call p c).verdict.elim
      (fun _ rest =>
        traceSeparated (watch call p) (watch call s) (trace call traced p) (trace call traced s)
          rest.remaining rest (trace call traced p c))
      (trace call traced p c) (trace call traced p c)
  | _, map _ p, c => trace call traced p c
  | _, filterMap description f p, c =>
    (watch call p c).verdict.elim
      (fun a _ =>
        match f a with
        | some _ => trace call traced p c
        | none => (trace call traced p c).cutShort (.step [⟨c, description⟩]))
      (trace call traced p c) (trace call traced p c)
  | _, named n, c => traced n c

def Rules.traceCall (rules : Rules κ τ) : Nat → ν → Cursor κ → Trace κ
  | 0, _, _ => .step []
  | depth + 1, n, c => trace (rules.watchCall depth) (rules.traceCall depth) (rules.body n) c

end

def traceEnd (w : Watched κ α) (t : Trace κ) : Trace κ :=
  w.verdict.elim
    (fun _ rest =>
      match rest with
      | .finished _ => t
      | .token _ _ => t.cutShort (.step [⟨rest, "end of input"⟩])) t t

/-- A trace that branches as a watched run does sees what the run meets, if its branches do. -/
theorem seen_elim (ms : List (Mismatch κ)) {w : Watched κ α} {f : α → Cursor κ → Trace κ}
    {refused stopped : Trace κ} {f' : α → Cursor κ → Watched κ β} {r : Watched κ β}
    (accepts : ∀ v rest, (f v rest).seen = ms ++ w.mismatches ++ (f' v rest).mismatches)
    (refuses : refused.seen = ms ++ w.mismatches ++ r.mismatches)
    (stops : stopped.seen = ms ++ w.mismatches) :
    (w.verdict.elim f refused stopped).seen = ms ++ (w.next f' r).mismatches := by
  unfold Watched.next
  cases w.verdict with
  | accepted v rest => exact (accepts v rest).trans (List.append_assoc ..)
  | refused => exact refuses.trans (List.append_assoc ..)
  | tokenize e => exact stops
  | endless => exact stops

theorem seen_traceClose (least : Nat) (values : List α) (rest : Cursor κ) (earlier : Trace κ) :
    (traceClose least values rest earlier).seen =
      earlier.seen ++ (watchClose least values rest).mismatches := by
  unfold traceClose
  split
  · rfl
  · rename_i enough
    rw [watchClose, if_neg enough]
    exact (List.append_nil _).symm

theorem seen_traceMany {item : Cursor κ → Watched κ α} {traced : Cursor κ → Trace κ}
    (same : ∀ c, (traced c).seen = (item c).mismatches) (least : Nat) (most : Option Nat)
    (rounds : Nat) (values : List α) (rest : Cursor κ) (earlier : Trace κ) :
    (traceMany item traced least most rounds values rest earlier).seen =
      earlier.seen ++ (watchMany item least most rounds values rest).mismatches := by
  have met : (earlier.inTurn (traced rest)).seen = earlier.seen ++ (item rest).mismatches := by
    rw [Trace.seen, same]
  unfold traceMany watchMany
  split
  · refine seen_elim _ (fun value rest' => ?_) ?_ met
    · rw [← met]
      split
      · cases rounds with
        | zero => exact seen_traceClose ..
        | succ n => exact seen_traceMany same least most n ..
      · exact seen_traceClose ..
    · split
      · exact met.trans (List.append_nil _).symm
      · exact met.trans (List.append_nil _).symm
  · exact seen_traceClose ..
termination_by rounds

theorem seen_traceSeparated {item : Cursor κ → Watched κ α} {separator : Cursor κ → Watched κ β}
    {traced traced' : Cursor κ → Trace κ} (same : ∀ c, (traced c).seen = (item c).mismatches)
    (same' : ∀ c, (traced' c).seen = (separator c).mismatches) (rounds : Nat) (values : List α)
    (rest : Cursor κ) (earlier : Trace κ) :
    (traceSeparated item separator traced traced' rounds rest earlier).seen =
      earlier.seen ++ (watchSeparated item separator rounds values rest).mismatches := by
  have met : (earlier.inTurn (traced' rest)).seen = earlier.seen ++ (separator rest).mismatches := by
    rw [Trace.seen, same']
  unfold traceSeparated watchSeparated
  refine seen_elim _ (fun _ between => ?_) (met.trans (List.append_nil _).symm) met
  rw [← met]
  have further : ((earlier.inTurn (traced' rest)).inTurn (traced between)).seen =
      (earlier.inTurn (traced' rest)).seen ++ (item between).mismatches := by
    rw [Trace.seen, same]
  refine seen_elim _ (fun value rest' => ?_) (further.trans (List.append_nil _).symm) further
  rw [← further]
  split
  · cases rounds with
    | zero => exact (List.append_nil _).symm
    | succ n => exact seen_traceSeparated same same' n ..
  · exact (List.append_nil _).symm
termination_by rounds

variable [DecidableEq κ] [TokenKind κ]

theorem seen_trace {call : (n : ν) → Cursor κ → Watched κ (τ n)} {traced : ν → Cursor κ → Trace κ}
    (same : ∀ n c, (traced n c).seen = (call n c).mismatches) (g : Grammar κ τ α) (c : Cursor κ) :
    (trace call traced g c).seen = (watch call g c).mismatches := by
  induction g generalizing c with
  | token kind => rfl
  | keyword kind text => rfl
  | finish => rfl
  | seq p q ihp ihq =>
    refine seen_elim [] (fun _ rest => ?_) ?_ (ihp c)
    · rw [List.nil_append, ← ihp]
      have both : ((trace call traced p c).inTurn (trace call traced q rest)).seen =
          (trace call traced p c).seen ++ (watch call q rest).mismatches := by
        rw [Trace.seen, ihq]
      have nothing := both.trans (List.append_nil _).symm
      exact seen_elim _ (fun _ _ => nothing) nothing both
    · exact (ihp c).trans (List.append_nil _).symm
  | either p q ihp ihq =>
    refine seen_elim [] (fun _ _ => ?_) ?_ (ihp c)
    · exact (ihp c).trans (List.append_nil _).symm
    · rw [Trace.seen, ihp, ihq]
      rfl
  | many p least most ih => exact seen_traceMany ih ..
  | sepBy1 p s ihp ihs =>
    refine seen_elim [] (fun a rest => ?_) ?_ (ihp c)
    · rw [List.nil_append, ← ihp]
      exact seen_traceSeparated ihp ihs ..
    · exact (ihp c).trans (List.append_nil _).symm
  | map f p ih =>
    rw [trace, ih, watch, Watched.next]
    split
    · exact (List.append_nil _).symm
    · exact (List.append_nil _).symm
    · rfl
    · rfl
  | filterMap description f p ih =>
    refine seen_elim [] (fun a rest => ?_) ?_ (ih c)
    · cases f a with
      | some b => exact (ih c).trans (List.append_nil _).symm
      | none =>
        rw [Trace.seen, ih]
        rfl
    · exact (ih c).trans (List.append_nil _).symm
  | named n => exact same n c

theorem seen_traceCall (rules : Rules κ τ) (depth : Nat) (n : ν) (c : Cursor κ) :
    (rules.traceCall depth n c).seen = (rules.watchCall depth n c).mismatches := by
  induction depth generalizing n c with
  | zero => rfl
  | succ depth ih => exact seen_trace ih (rules.body n) c

omit [DecidableEq κ] [TokenKind κ] in
theorem seen_traceEnd {w : Watched κ α} {t : Trace κ} (same : t.seen = w.mismatches) :
    (traceEnd w t).seen = (watchEnd w).mismatches := by
  have nothing := same.trans (List.append_nil _).symm
  refine seen_elim [] (fun _ rest => ?_) nothing same
  cases rest with
  | finished p => exact nothing
  | token t' next =>
    rw [Trace.seen, same]
    rfl

end Wordhoard.Grammar
