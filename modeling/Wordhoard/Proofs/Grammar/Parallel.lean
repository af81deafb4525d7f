import Wordhoard.Proofs.Grammar.Language
import Wordhoard.Proofs.Grammar.Summary

/-! Two runs of a grammar on streams with a common beginning. As long as the first run is refused
nowhere behind the common part, and nothing that it was refused there would suit the token of the
second stream, both take the same turns. -/
namespace Wordhoard.Grammar

variable {κ ν : Type} {τ : ν → Type} {α β γ : Type}

def Uses (known : Terminal κ → Prop) : {α : Type} → Grammar κ τ α → Prop
  | _, token k => known (.kind k)
  | _, keyword k text => known (.word k text)
  | _, finish => True
  | _, seq p q => Uses known p ∧ Uses known q
  | _, either p q => Uses known p ∧ Uses known q
  | _, many p _ _ => Uses known p
  | _, sepBy1 p s => Uses known p ∧ Uses known s
  | _, map _ p => Uses known p
  | _, filterMap _ _ p => Uses known p
  | _, .named _ => True

def Suits [DecidableEq κ] [TokenKind κ] (known : Terminal κ → Prop) (description : String)
    (t : Token κ) : Prop :=
  ∃ T, known T ∧ T.description = description ∧ T.fits t = true

def Beyond (s : Stream κ) (c : Cursor κ) : Prop := c.remaining < s.tokens.length

/-- The cursors stand before the streams, with the same tokens in between. -/
def Beside (s₁ s₂ : Stream κ) (c₁ c₂ : Cursor κ) : Prop :=
  ∃ ts, c₁.stream = s₁.prepend ts ∧ c₂.stream = s₂.prepend ts

/-- No mismatch lies beyond the first stream, and none at its start would have been none before the
second. -/
structure Silent [DecidableEq κ] [TokenKind κ] (known : Terminal κ → Prop) (s₁ s₂ : Stream κ)
    (ms : List (Mismatch κ)) : Prop where
  beyond : ∀ m ∈ ms, ¬ Beyond s₁ m.place
  blocked : s₁.tokens.head? = s₂.tokens.head? ∨
    ∀ m ∈ ms, m.place.remaining = s₁.tokens.length → ∀ t ∈ s₂.tokens.head?,
      ¬ Suits known m.description t

/-- The run is not refused, and if it accepts, it has gone beyond the stream. -/
def Ahead (s : Stream κ) (w : Watched κ α) : Prop :=
  match w.verdict with
  | .accepted _ rest => Beyond s rest
  | .refused => False
  | _ => True

/-- The runs take the same turns, unless the first goes beyond its stream or one is stopped. -/
def Along (s₁ s₂ : Stream κ) (w₁ w₂ : Watched κ α) : Prop :=
  match w₁.verdict, w₂.verdict with
  | .accepted v rest, .accepted v' rest' => Beyond s₁ rest ∨ v = v' ∧ Beside s₁ s₂ rest rest'
  | .accepted _ rest, .refused => Beyond s₁ rest
  | .refused, .accepted _ _ => False
  | _, _ => True

variable [DecidableEq κ] [TokenKind κ] {known : Terminal κ → Prop} {s₁ s₂ : Stream κ}

theorem Silent.sub {ms ns : List (Mismatch κ)} (h : Silent known s₁ s₂ ms)
    (part : ∀ m ∈ ns, m ∈ ms) : Silent known s₁ s₂ ns where
  beyond m hm := h.beyond m (part m hm)
  blocked := h.blocked.imp_right fun blocked m hm => blocked m (part m hm)

theorem Silent.left {w : Watched κ α} {k : α → Cursor κ → Watched κ β} {r : Watched κ β}
    (h : Silent known s₁ s₂ (w.next k r).mismatches) : Silent known s₁ s₂ w.mismatches :=
  h.sub fun _ hm => Watched.mem_next hm

theorem Silent.right {w : Watched κ α} {ms : List (Mismatch κ)}
    (h : Silent known s₁ s₂ (w.after ms).mismatches) : Silent known s₁ s₂ w.mismatches :=
  h.sub fun _ hm => List.mem_append_right _ hm

omit [DecidableEq κ] [TokenKind κ] in
theorem Ahead.along {w₁ w₂ : Watched κ α} (h : Ahead s₁ w₁) : Along s₁ s₂ w₁ w₂ := by
  unfold Ahead at h
  unfold Along
  cases verdict : w₁.verdict with
  | accepted v rest =>
    simp only [verdict] at h
    cases w₂.verdict with
    | accepted v' rest' => exact .inl h
    | refused => exact h
    | tokenize e => trivial
    | endless => trivial
  | refused => simp only [verdict] at h
  | tokenize e => trivial
  | endless => trivial

theorem Ahead.next {w : Watched κ α} {k : α → Cursor κ → Watched κ β} {r : Watched κ β}
    (h : Silent known s₁ s₂ w.mismatches → Ahead s₁ w) (silent : Silent known s₁ s₂ (w.next k r).mismatches)
    (accepted : ∀ v rest, Beyond s₁ rest → Silent known s₁ s₂ (k v rest).mismatches →
      Ahead s₁ (k v rest)) : Ahead s₁ (w.next k r) := by
  have first := h silent.left
  unfold Ahead at first
  cases verdict : w.verdict with
  | accepted v rest =>
    rw [verdict] at first
    rw [Watched.next_accepted verdict] at silent ⊢
    exact accepted v rest first silent.right
  | refused => rw [verdict] at first; exact first.elim
  | tokenize e => simp only [Ahead, Watched.next, verdict]
  | endless => simp only [Ahead, Watched.next, verdict]

theorem ahead_ite {moved : Prop} [Decidable moved] {w w' : Watched κ α}
    (further : Silent known s₁ s₂ w.mismatches → Ahead s₁ w) (ended : Ahead s₁ w')
    (silent : Silent known s₁ s₂ (if moved then w else w').mismatches) :
    Ahead s₁ (if moved then w else w') := by
  split at silent
  · rename_i more
    rw [if_pos more]
    exact further silent
  · rename_i stayed
    rw [if_neg stayed]
    exact ended

theorem ahead_many {item : Cursor κ → Watched κ α}
    (h : ∀ c, Beyond s₁ c → Silent known s₁ s₂ (item c).mismatches → Ahead s₁ (item c))
    (most : Option Nat) (rounds : Nat) (values : List α) {rest : Cursor κ} (start : Beyond s₁ rest)
    (silent : Silent known s₁ s₂ (watchMany item 0 most rounds values rest).mismatches) :
    Ahead s₁ (watchMany item 0 most rounds values rest) := by
  unfold watchMany at *
  split at silent
  · rename_i room
    rw [if_pos room]
    refine Ahead.next (h rest start) silent fun v rest' beyond silent => ?_
    refine ahead_ite (fun silent => ?_) beyond silent
    cases rounds with
    | zero => exact beyond
    | succ n => exact ahead_many h most n _ beyond silent
  · rename_i full
    rw [if_neg full]
    exact start
termination_by rounds

theorem ahead_separated {item : Cursor κ → Watched κ α} {separator : Cursor κ → Watched κ β}
    (h : ∀ c, Beyond s₁ c → Silent known s₁ s₂ (item c).mismatches → Ahead s₁ (item c))
    (hs : ∀ c, Beyond s₁ c → Silent known s₁ s₂ (separator c).mismatches → Ahead s₁ (separator c))
    (rounds : Nat) (values : List α) {rest : Cursor κ} (start : Beyond s₁ rest)
    (silent : Silent known s₁ s₂ (watchSeparated item separator rounds values rest).mismatches) :
    Ahead s₁ (watchSeparated item separator rounds values rest) := by
  unfold watchSeparated at *
  refine Ahead.next (hs rest start) silent fun b between beyond silent => ?_
  refine Ahead.next (h between beyond) silent fun v rest' beyond silent => ?_
  refine ahead_ite (fun silent => ?_) trivial silent
  cases rounds with
  | zero => trivial
  | succ n => exact ahead_separated h hs n _ beyond silent
termination_by rounds

def Stopped (w : Watched κ α) : Prop :=
  match w.verdict with
  | .tokenize _ => True
  | .endless => True
  | _ => False

omit [DecidableEq κ] [TokenKind κ] in
theorem Stopped.along_left {w₁ w₂ : Watched κ α} (h : Stopped w₁) : Along s₁ s₂ w₁ w₂ := by
  unfold Along
  cases verdict : w₁.verdict with
  | tokenize e => trivial
  | endless => trivial
  | _ => simp only [Stopped, verdict] at h

omit [DecidableEq κ] [TokenKind κ] in
theorem Stopped.along_right {w₁ w₂ : Watched κ α} (h : Stopped w₂) : Along s₁ s₂ w₁ w₂ := by
  unfold Along
  cases verdict : w₂.verdict with
  | tokenize e => split <;> trivial
  | endless => split <;> trivial
  | _ => simp only [Stopped, verdict] at h

omit [DecidableEq κ] [TokenKind κ] in
theorem Stopped.next {w : Watched κ α} (h : Stopped w) (k : α → Cursor κ → Watched κ β)
    (r : Watched κ β) : Stopped (w.next k r) := by
  unfold Stopped at *
  cases verdict : w.verdict with
  | tokenize e => rw [Watched.next_tokenize verdict]; trivial
  | endless => rw [Watched.next_endless verdict]; trivial
  | _ => simp only [verdict] at h

theorem Along.next {w₁ w₂ : Watched κ α} {k₁ k₂ : α → Cursor κ → Watched κ β}
    {r₁ r₂ : Watched κ β} (h : Silent known s₁ s₂ w₁.mismatches → Along s₁ s₂ w₁ w₂)
    (silent : Silent known s₁ s₂ (w₁.next k₁ r₁).mismatches)
    (beyond : ∀ v rest, Beyond s₁ rest → Silent known s₁ s₂ (k₁ v rest).mismatches →
      Ahead s₁ (k₁ v rest))
    (accepted : ∀ v rest rest', Beside s₁ s₂ rest rest' → Silent known s₁ s₂ (k₁ v rest).mismatches →
      Along s₁ s₂ (k₁ v rest) (k₂ v rest'))
    (refused : Silent known s₁ s₂ r₁.mismatches → Along s₁ s₂ r₁ r₂) :
    Along s₁ s₂ (w₁.next k₁ r₁) (w₂.next k₂ r₂) := by
  have first := h silent.left
  unfold Along at first
  cases verdict₂ : w₂.verdict with
  | tokenize e =>
    exact (Stopped.next (by simp only [Stopped, verdict₂]) _ _).along_right
  | endless =>
    exact (Stopped.next (by simp only [Stopped, verdict₂]) _ _).along_right
  | accepted v' rest' =>
    cases verdict₁ : w₁.verdict with
    | tokenize e => exact (Stopped.next (by simp only [Stopped, verdict₁]) _ _).along_left
    | endless => exact (Stopped.next (by simp only [Stopped, verdict₁]) _ _).along_left
    | refused => simp only [verdict₁, verdict₂] at first
    | accepted v rest =>
      simp only [verdict₁, verdict₂] at first
      rw [Watched.next_accepted verdict₁] at silent
      rw [Watched.next_accepted verdict₁, Watched.next_accepted verdict₂]
      rcases first with gone | ⟨rfl, beside⟩
      · exact (beyond v rest gone silent.right).along
      · exact accepted v rest rest' beside silent.right
  | refused =>
    cases verdict₁ : w₁.verdict with
    | tokenize e => exact (Stopped.next (by simp only [Stopped, verdict₁]) _ _).along_left
    | endless => exact (Stopped.next (by simp only [Stopped, verdict₁]) _ _).along_left
    | refused =>
      rw [Watched.next_refused verdict₁] at silent
      rw [Watched.next_refused verdict₁, Watched.next_refused verdict₂]
      exact refused silent.right
    | accepted v rest =>
      simp only [verdict₁, verdict₂] at first
      rw [Watched.next_accepted verdict₁] at silent ⊢
      exact (beyond v rest first silent.right).along

omit [DecidableEq κ] [TokenKind κ] in
theorem Beside.moved {a b a' b' : Cursor κ} (h : Beside s₁ s₂ a b) (h' : Beside s₁ s₂ a' b') :
    a'.remaining < a.remaining ↔ b'.remaining < b.remaining := by
  obtain ⟨ts, ha, hb⟩ := h
  obtain ⟨us, ha', hb'⟩ := h'
  rw [Cursor.remaining_of_stream ha, Cursor.remaining_of_stream ha',
    Cursor.remaining_of_stream hb, Cursor.remaining_of_stream hb']
  omega

theorem along_many {item₁ item₂ : Cursor κ → Watched κ α}
    (ahead : ∀ c, Beyond s₁ c → Silent known s₁ s₂ (item₁ c).mismatches → Ahead s₁ (item₁ c))
    (h : ∀ c c', Beside s₁ s₂ c c' → Silent known s₁ s₂ (item₁ c).mismatches →
      Along s₁ s₂ (item₁ c) (item₂ c'))
    (most : Option Nat) (rounds rounds' : Nat) (values : List α) {rest rest' : Cursor κ}
    (start : Beside s₁ s₂ rest rest') (enough : rest.remaining ≤ rounds)
    (enough' : rest'.remaining ≤ rounds')
    (silent : Silent known s₁ s₂ (watchMany item₁ 0 most rounds values rest).mismatches) :
    Along s₁ s₂ (watchMany item₁ 0 most rounds values rest)
      (watchMany item₂ 0 most rounds' values rest') := by
  unfold watchMany at *
  split at silent
  · rename_i room
    rw [if_pos room, if_pos room]
    refine Along.next (h rest rest' start) silent (fun v after beyond silent => ?_)
      (fun v after after' beside silent => ?_) fun silent => .inr ⟨rfl, start⟩
    · refine ahead_ite (fun silent => ?_) beyond silent
      cases rounds with
      | zero => exact beyond
      | succ n => exact ahead_many ahead most n _ beyond silent
    · split at silent
      · rename_i moved
        have moved' := (start.moved beside).1 moved
        rw [if_pos moved, if_pos moved']
        cases rounds with
        | zero => omega
        | succ n =>
          cases rounds' with
          | zero => omega
          | succ n' =>
            exact along_many ahead h most n n' _ beside (by omega) (by omega) silent
      · rename_i stayed
        have stayed' := mt (start.moved beside).2 stayed
        rw [if_neg stayed, if_neg stayed']
        exact .inr ⟨rfl, beside⟩
  · rename_i full
    rw [if_neg full, if_neg full]
    exact .inr ⟨rfl, start⟩
termination_by rounds

theorem along_separated {item₁ item₂ : Cursor κ → Watched κ α}
    {separator₁ separator₂ : Cursor κ → Watched κ β}
    (ahead : ∀ c, Beyond s₁ c → Silent known s₁ s₂ (item₁ c).mismatches → Ahead s₁ (item₁ c))
    (h : ∀ c c', Beside s₁ s₂ c c' → Silent known s₁ s₂ (item₁ c).mismatches →
      Along s₁ s₂ (item₁ c) (item₂ c'))
    (aheads : ∀ c, Beyond s₁ c → Silent known s₁ s₂ (separator₁ c).mismatches →
      Ahead s₁ (separator₁ c))
    (hs : ∀ c c', Beside s₁ s₂ c c' → Silent known s₁ s₂ (separator₁ c).mismatches →
      Along s₁ s₂ (separator₁ c) (separator₂ c'))
    (rounds rounds' : Nat) (values : List α) {rest rest' : Cursor κ}
    (start : Beside s₁ s₂ rest rest')
    (silent : Silent known s₁ s₂ (watchSeparated item₁ separator₁ rounds values rest).mismatches) :
    Along s₁ s₂ (watchSeparated item₁ separator₁ rounds values rest)
      (watchSeparated item₂ separator₂ rounds' values rest') := by
  unfold watchSeparated at *
  refine Along.next (hs rest rest' start) silent (fun b between beyond silent => ?_)
    (fun b between between' beside silent => ?_) fun silent => .inr ⟨rfl, start⟩
  · refine Ahead.next (ahead between beyond) silent fun v after beyond silent => ?_
    refine ahead_ite (fun silent => ?_) trivial silent
    cases rounds with
    | zero => trivial
    | succ n => exact ahead_separated ahead aheads n _ beyond silent
  · refine Along.next (h between between' beside) silent (fun v after beyond silent => ?_)
      (fun v after after' beside' silent => ?_) fun silent => .inr ⟨rfl, start⟩
    · refine ahead_ite (fun silent => ?_) trivial silent
      cases rounds with
      | zero => trivial
      | succ n => exact ahead_separated ahead aheads n _ beyond silent
    · split at silent
      · rename_i moved
        have moved' := (start.moved beside').1 moved
        rw [if_pos moved, if_pos moved']
        cases rounds with
        | zero => exact Stopped.along_left trivial
        | succ n =>
          cases rounds' with
          | zero => exact Stopped.along_right trivial
          | succ n' => exact along_separated ahead h aheads hs n n' _ beside' silent
      · rename_i stayed
        rw [if_neg stayed]
        exact Stopped.along_left trivial
termination_by rounds

/-- The step looks at one token, and takes it for a value or leaves it. A token that it leaves may
stop it, when the tokens end there. -/
structure OneToken (taken : Token κ → Option α) (description : String)
    (step : Cursor κ → Watched κ α) : Prop where
  finished : ∀ p, step (.finished p) = .mismatch (.finished p) description
  taking : ∀ t next v, taken t = some v →
    step (.token t next) =
      match next.enter with
      | .ok rest => .accept v rest
      | .error e => ⟨.tokenize e, []⟩
  leaving : ∀ t next, taken t = none →
    Stopped (step (.token t next)) ∨ step (.token t next) = .mismatch (.token t next) description

omit [DecidableEq κ] [TokenKind κ] in
theorem oneToken_watchToken (fits : Token κ → Bool) (description : String) :
    OneToken (fun t => if fits t then some t else none) description
      (watchToken fits description) where
  finished p := rfl
  taking t next v h := by
    split at h
    · rename_i fit
      cases h
      cases entered : next.enter <;> simp only [watchToken, fit, if_true, entered]
    · cases h
  leaving t next h := by
    split at h
    · cases h
    · rename_i misfit
      exact .inr (by simp only [watchToken, misfit]; rfl)

omit [DecidableEq κ] [TokenKind κ] in
theorem OneToken.filterMap {taken : Token κ → Option α} {description : String}
    {step : Cursor κ → Watched κ α} (h : OneToken taken description step) (f : α → Option β) :
    OneToken (fun t => (taken t).bind f) description fun c =>
      (step c).next
        (fun a rest =>
          match f a with
          | some b => .accept b rest
          | none => .mismatch c description) .refuse where
  finished p := by rw [h.finished]; rfl
  taking t next v hv := by
    obtain ⟨a, ha, hf⟩ := Option.bind_eq_some_iff.1 hv
    rw [h.taking t next a ha]
    cases next.enter with
    | ok rest => simp only [Watched.next, Watched.accept, hf]; rfl
    | error e => rfl
  leaving t next hv := by
    cases ha : taken t with
    | none =>
      rcases h.leaving t next ha with stopped | refused
      · exact .inl (stopped.next _ _)
      · exact .inr (by rw [refused]; rfl)
    | some a =>
      have hf : f a = none := by simpa [ha] using hv
      rw [h.taking t next a ha]
      cases next.enter with
      | ok rest => exact .inr (by simp only [Watched.next, Watched.accept, hf]; rfl)
      | error e => exact .inl trivial

omit [DecidableEq κ] [TokenKind κ] in
theorem OneToken.along_same {taken : Token κ → Option α} {description : String}
    {step : Cursor κ → Watched κ α} (h : OneToken taken description step) (t : Token κ)
    {ts : List (Token κ)} {next next' : Stream κ} (rest : next = s₁.prepend ts)
    (rest' : next' = s₂.prepend ts) :
    Along s₁ s₂ (step (.token t next)) (step (.token t next')) := by
  cases value : taken t with
  | none =>
    rcases h.leaving t next value with stopped | refused
    · exact stopped.along_left
    · rcases h.leaving t next' value with stopped | refused'
      · exact stopped.along_right
      · rw [refused, refused']
        trivial
  | some v =>
    rw [h.taking t next v value, h.taking t next' v value]
    cases entered : next.enter with
    | error e => exact Stopped.along_left trivial
    | ok a =>
      cases entered' : next'.enter with
      | error e => exact Stopped.along_right trivial
      | ok b =>
        refine .inr ⟨rfl, ts, ?_, ?_⟩
        · rwa [Stream.stream_of_enter entered]
        · rwa [Stream.stream_of_enter entered']

theorem OneToken.along_refused {taken : Token κ → Option α} {description : String}
    {step : Cursor κ → Watched κ α} (h : OneToken taken description step)
    (suits : ∀ t v, taken t = some v → Suits known description t) {c c' : Cursor κ}
    (first : c.stream = s₁) (second : c'.stream = s₂)
    (silent : Silent known s₁ s₂ (step c).mismatches)
    (refused : step c = .mismatch c description)
    (same : ∀ t, s₁.tokens.head? = some t → taken t = none) : Along s₁ s₂ (step c) (step c') := by
  rw [refused] at silent ⊢
  cases c' with
  | finished p =>
    rw [h.finished]
    trivial
  | token t next =>
    have head : s₂.tokens.head? = some t := by
      rw [← second]
      rfl
    have value : taken t = none := by
      rcases silent.blocked with heads | blocked
      · exact same t (heads.trans head)
      · have unsuited := blocked ⟨c, description⟩ (List.mem_singleton.2 rfl)
          (by rw [← first, c.length_tokens]) t head
        cases value : taken t with
        | none => rfl
        | some v => exact absurd (suits t v value) unsuited
    rcases h.leaving t next value with stopped | refused'
    · exact stopped.along_right
    · rw [refused']
      trivial

theorem OneToken.along {taken : Token κ → Option α} {description : String}
    {step : Cursor κ → Watched κ α} (h : OneToken taken description step)
    (suits : ∀ t v, taken t = some v → Suits known description t) {c c' : Cursor κ}
    (start : Beside s₁ s₂ c c') (silent : Silent known s₁ s₂ (step c).mismatches) :
    Along s₁ s₂ (step c) (step c') := by
  obtain ⟨ts, first, second⟩ := start
  cases ts with
  | cons t ts =>
    cases c with
    | finished p => cases congrArg Stream.tokens first
    | token u next =>
      cases c' with
      | finished p => cases congrArg Stream.tokens second
      | token u' next' =>
        obtain ⟨rfl, rest⟩ := Stream.prepend_cons_inj first
        obtain ⟨rfl, rest'⟩ := Stream.prepend_cons_inj second
        exact h.along_same u' rest rest'
  | nil =>
    have first : c.stream = s₁ := first
    have second : c'.stream = s₂ := second
    cases c with
    | finished p =>
      refine h.along_refused suits first second silent (h.finished p) fun t head => ?_
      rw [← first] at head
      cases head
    | token t next =>
      cases value : taken t with
      | none =>
        rcases h.leaving t next value with stopped | refused
        · exact stopped.along_left
        · refine h.along_refused suits first second silent refused fun u head => ?_
          rw [← first] at head
          cases head
          exact value
      | some v =>
        rw [h.taking t next v value]
        cases entered : next.enter with
        | error e => exact Stopped.along_left trivial
        | ok rest =>
          have beyond : Beyond s₁ rest := by
            rw [Beyond, ← first, ← rest.length_tokens, Stream.stream_of_enter entered]
            exact Nat.lt_succ_self _
          exact Ahead.along beyond

variable {named : (n : ν) → List (Leaf κ) → τ n → Prop} {rules : Rules κ τ}

omit [DecidableEq κ] [TokenKind κ] in
theorem mismatches_ne_nil_of_refused {o : Outcome κ α} {w : Watched κ α} (h : Reports o w)
    (refused : w.verdict = .refused) : w.mismatches ≠ [] := by
  unfold Reports at h
  split at h
  · rw [h.1] at refused
    cases refused
  · obtain ⟨m, hm, -⟩ := h.2.place
    exact List.ne_nil_of_mem hm
  · rw [h] at refused
    cases refused
  · rw [h] at refused
    cases refused

/-- A run from beyond the stream would be refused beyond it. -/
theorem Follows.ahead {S : List (Leaf κ) → α → Prop} {o : Outcome κ α} {w : Watched κ α}
    {c : Cursor κ} (h : Follows S c w) (reports : Reports o w) (start : Beyond s₁ c)
    (silent : Silent known s₁ s₂ w.mismatches) : Ahead s₁ w := by
  unfold Ahead
  split
  · rename_i v rest accepted
    obtain ⟨ls, passes, -⟩ := h.accepted v rest accepted
    have := passes.remaining
    unfold Beyond at *
    omega
  · rename_i refused
    obtain ⟨m, hm⟩ := List.exists_mem_of_ne_nil _ (mismatches_ne_nil_of_refused reports refused)
    obtain ⟨ls, l, more, v, passes, -⟩ := h.mismatches m hm
    refine silent.beyond m hm ?_
    have := passes.remaining
    unfold Beyond at *
    omega
  · trivial

theorem ahead_watch (closed : ∀ n ls v, Means named (rules.body n) ls v → named n ls v)
    (plain : ∀ n, Plain named (rules.body n)) (depth : Nat) (g : Grammar κ τ α)
    (plain_g : Plain named g) (c : Cursor κ) (start : Beyond s₁ c)
    (silent : Silent known s₁ s₂ (watch (rules.watchCall depth) g c).mismatches) :
    Ahead s₁ (watch (rules.watchCall depth) g c) :=
  (follows_watch (follows_call closed plain depth) g plain_g c).ahead
    (reports_run rules depth g c) start silent

theorem along_watch (closed : ∀ n ls v, Means named (rules.body n) ls v → named n ls v)
    (plain : ∀ n, Plain named (rules.body n)) {depth depth' : Nat}
    (calls : ∀ n c c', Beside s₁ s₂ c c' → Silent known s₁ s₂ (rules.watchCall depth n c).mismatches →
      Along s₁ s₂ (rules.watchCall depth n c) (rules.watchCall depth' n c'))
    (g : Grammar κ τ α) (plain_g : Plain named g) (uses : Uses known g) {c c' : Cursor κ}
    (start : Beside s₁ s₂ c c')
    (silent : Silent known s₁ s₂ (watch (rules.watchCall depth) g c).mismatches) :
    Along s₁ s₂ (watch (rules.watchCall depth) g c) (watch (rules.watchCall depth') g c') := by
  have ahead {α : Type} (g : Grammar κ τ α) (plain_g : Plain named g) (c : Cursor κ)
      (start : Beyond s₁ c) (silent : Silent known s₁ s₂ (watch (rules.watchCall depth) g c).mismatches) :
      Ahead s₁ (watch (rules.watchCall depth) g c) :=
    ahead_watch closed plain depth g plain_g c start silent
  induction g generalizing c c' with
  | token k =>
    refine (oneToken_watchToken _ _).along (fun t v taken => ?_) start silent
    split at taken
    · rename_i fits
      exact ⟨.kind k, uses, rfl, fits⟩
    · cases taken
  | keyword k text =>
    refine (oneToken_watchToken _ _).along (fun t v taken => ?_) start silent
    split at taken
    · rename_i fits
      exact ⟨.word k text, uses, rfl, fits⟩
    · cases taken
  | finish => exact plain_g.elim
  | seq p q ihp ihq =>
    refine Along.next (ihp plain_g.1 uses.1 start) silent (fun a rest beyond silent => ?_)
      (fun a rest rest' beside silent => ?_) fun _ => trivial
    · exact Ahead.next (ahead q plain_g.2.1 rest beyond) silent fun b rest' beyond _ => beyond
    · exact Along.next (ihq plain_g.2.1 uses.2 beside) silent (fun b after beyond _ => beyond)
        (fun b after after' beside _ => .inr ⟨rfl, beside⟩) fun _ => trivial
  | either p q ihp ihq =>
    exact Along.next (ihp plain_g.1 uses.1 start) silent (fun a rest beyond _ => beyond)
      (fun a rest rest' beside _ => .inr ⟨rfl, beside⟩) (ihq plain_g.2 uses.2 start)
  | many p least most ih =>
    obtain ⟨plain_p, rfl⟩ := plain_g
    exact along_many (ahead p plain_p) (fun c c' => ih plain_p uses) most _ _ [] start
      (Nat.le_refl _) (Nat.le_refl _) silent
  | sepBy1 p s ihp ihs =>
    refine Along.next (ihp plain_g.1 uses.1 start) silent (fun a rest beyond silent => ?_)
      (fun a rest rest' beside silent => ?_) fun _ => trivial
    · exact ahead_separated (ahead p plain_g.1) (ahead s plain_g.2.1) _ _ beyond silent
    · exact along_separated (ahead p plain_g.1) (fun c c' => ihp plain_g.1 uses.1) (ahead s plain_g.2.1)
        (fun c c' => ihs plain_g.2.1 uses.2) _ _ _ beside silent
  | map f p ih =>
    exact Along.next (ih plain_g uses start) silent (fun a rest beyond _ => beyond)
      (fun a rest rest' beside _ => .inr ⟨rfl, beside⟩) fun _ => trivial
  | filterMap description f p ih =>
    cases p with
    | token k =>
      obtain ⟨rfl, -⟩ := plain_g
      have step := (oneToken_watchToken (·.kind = k) (TokenKind.describe k)).filterMap f
      refine step.along (fun t v taken => ?_) start silent
      obtain ⟨a, ha, -⟩ := Option.bind_eq_some_iff.1 taken
      split at ha
      · rename_i fits
        exact ⟨.kind k, uses, rfl, fits⟩
      · cases ha
    | _ => exact plain_g.elim
  | named n => exact calls n c c' start silent

theorem along_call (closed : ∀ n ls v, Means named (rules.body n) ls v → named n ls v)
    (plain : ∀ n, Plain named (rules.body n)) (uses : ∀ n, Uses known (rules.body n))
    (depth depth' : Nat) (n : ν) (c c' : Cursor κ)
    (start : Beside s₁ s₂ c c') (silent : Silent known s₁ s₂ (rules.watchCall depth n c).mismatches) :
    Along s₁ s₂ (rules.watchCall depth n c) (rules.watchCall depth' n c') := by
  induction depth generalizing depth' n c c' with
  | zero => exact Stopped.along_left trivial
  | succ depth ih =>
    cases depth' with
    | zero => exact Stopped.along_right trivial
    | succ depth' =>
      exact along_watch closed plain (fun n c c' => ih depth' n c c') (rules.body n) (plain n)
        (uses n) start silent

end Wordhoard.Grammar
