import Wordhoard.Proofs.Grammar.Mismatch

/-! What a grammar derives, without regard to the order of its alternatives and to the greed of its
repetitions. Main statement: a run takes tokens that the grammar derives with the value of the run,
and wherever it refuses a token there is a derivation that goes on as the refusal describes. -/
namespace Wordhoard

namespace Stream

variable {κ : Type}

def prepend (ts : List (Token κ)) (s : Stream κ) : Stream κ := { s with tokens := ts ++ s.tokens }

@[simp] theorem prepend_nil (s : Stream κ) : s.prepend [] = s := rfl

@[simp] theorem prepend_tokens (ts : List (Token κ)) (s : Stream κ) :
    (s.prepend ts).tokens = ts ++ s.tokens := rfl

@[simp] theorem prepend_ending (ts : List (Token κ)) (s : Stream κ) :
    (s.prepend ts).ending = s.ending := rfl

@[simp] theorem prepend_prepend (ts us : List (Token κ)) (s : Stream κ) :
    (s.prepend us).prepend ts = s.prepend (ts ++ us) := by
  simp only [prepend, List.append_assoc]

theorem prepend_cons_inj {t u : Token κ} {ts us : List (Token κ)} {s s' : Stream κ}
    (h : s.prepend (t :: ts) = s'.prepend (u :: us)) : t = u ∧ s.prepend ts = s'.prepend us := by
  obtain ⟨same, rest⟩ := List.cons.inj (congrArg Stream.tokens h)
  refine ⟨same, ?_⟩
  have ending := congrArg Stream.ending h
  rw [prepend_ending, prepend_ending] at ending
  simp only [prepend, ending]
  exact congrArg (Stream.mk · _) rest

end Stream

def Cursor.stream {κ : Type} : Cursor κ → Stream κ
  | token t s => s.prepend [t]
  | finished p => ⟨[], .finished p⟩

theorem Stream.stream_of_enter {κ : Type} {s : Stream κ} {c : Cursor κ} (h : s.enter = .ok c) :
    c.stream = s := by
  obtain ⟨tokens, ending⟩ := s
  cases tokens with
  | cons t ts => cases h; rfl
  | nil =>
    cases ending with
    | finished p => cases h; rfl
    | stuck e => cases h

@[simp] theorem Cursor.length_tokens {κ : Type} (c : Cursor κ) :
    c.stream.tokens.length = c.remaining := by
  cases c with
  | token t s => simp [stream, remaining, Nat.add_comm]
  | finished p => rfl

theorem Cursor.remaining_of_stream {κ : Type} {c : Cursor κ} {s : Stream κ} {ts : List (Token κ)}
    (h : c.stream = s.prepend ts) : c.remaining = ts.length + s.tokens.length := by
  rw [← c.length_tokens, h, Stream.prepend_tokens, List.length_append]

namespace Grammar

/-- What a grammar takes one token for. -/
inductive Terminal (κ : Type) where
  | kind (kind : κ)
  | word (kind : κ) (text : String)
  deriving DecidableEq

def Terminal.description {κ : Type} [TokenKind κ] : Terminal κ → String
  | kind k => TokenKind.describe k
  | word _ text => "'" ++ text ++ "'"

variable {κ ν : Type} {τ : ν → Type} {α β γ : Type} [DecidableEq κ]

def Terminal.fits : Terminal κ → Token κ → Bool
  | kind k, t => t.kind = k
  | word k text, t => t.kind = k && sameIgnoringCase t.text text

/-- A token in the place of a terminal that it fits. -/
structure Leaf (κ : Type) [DecidableEq κ] where
  terminal : Terminal κ
  token : Token κ
  fits : terminal.fits token = true

/-- The leaves are the tokens between two cursors of one stream. -/
def Passes (c : Cursor κ) (ls : List (Leaf κ)) (c' : Cursor κ) : Prop :=
  c.stream = c'.stream.prepend (ls.map Leaf.token)

theorem Passes.refl (c : Cursor κ) : Passes c [] c := rfl

theorem Passes.trans {a b c : Cursor κ} {ls ms : List (Leaf κ)} (h : Passes a ls b)
    (h' : Passes b ms c) : Passes a (ls ++ ms) c := by
  unfold Passes at *
  rw [h, h', Stream.prepend_prepend, List.map_append]

theorem Passes.remaining {c c' : Cursor κ} {ls : List (Leaf κ)} (h : Passes c ls c') :
    c.remaining = ls.length + c'.remaining := by
  rw [Cursor.remaining_of_stream h, List.length_map, Cursor.length_tokens]

inductive Row (S : List (Leaf κ) → α → Prop) : List (Leaf κ) → List α → Prop where
  | nil : Row S [] []
  | cons {ls ms : List (Leaf κ)} {v : α} {vs : List α} :
      S ls v → Row S ms vs → Row S (ls ++ ms) (v :: vs)

theorem Row.snoc {S : List (Leaf κ) → α → Prop} {ls ms : List (Leaf κ)} {v : α} {vs : List α}
    (h : Row S ls vs) (last : S ms v) : Row S (ls ++ ms) (vs ++ [v]) := by
  induction h with
  | nil => simpa using Row.cons last .nil
  | cons first _ ih => simpa [List.append_assoc] using Row.cons first ih

theorem Row.imp {ls : List (Leaf κ)} {S : List (Leaf κ) → α → Prop}
    {T : List (Leaf κ) → β → Prop} {f : β → α}
    {vs : List α} (h : Row S ls vs) (each : ∀ ms v, S ms v → ∃ w, v = f w ∧ T ms w) :
    ∃ ws, vs = ws.map f ∧ Row T ls ws := by
  induction h with
  | nil => exact ⟨[], rfl, .nil⟩
  | cons first others ih =>
    obtain ⟨w, rfl, this⟩ := each _ _ first
    obtain ⟨ws, rfl, rest⟩ := ih
    exact ⟨w :: ws, rfl, .cons this rest⟩

def Behind (S : List (Leaf κ) → α → Prop) (T : List (Leaf κ) → β → Prop) (ls : List (Leaf κ))
    (v : β) : Prop :=
  ∃ ms ns w, ls = ms ++ ns ∧ S ms w ∧ T ns v

/-- What a grammar derives; `named` says it of the named ones. -/
def Means (named : (n : ν) → List (Leaf κ) → τ n → Prop) :
    {α : Type} → Grammar κ τ α → List (Leaf κ) → α → Prop
  | _, token k, ls, v => ∃ l, ls = [l] ∧ l.terminal = .kind k ∧ l.token = v
  | _, keyword k text, ls, v => ∃ l, ls = [l] ∧ l.terminal = .word k text ∧ l.token = v
  | _, finish, ls, _ => ls = []
  | _, seq p q, ls, v => ∃ ms ns, ls = ms ++ ns ∧ Means named p ms v.1 ∧ Means named q ns v.2
  | _, either p q, ls, v => Means named p ls v ∨ Means named q ls v
  | _, many p least most, ls, vs =>
    Row (Means named p) ls vs ∧ least ≤ vs.length ∧ most.all (vs.length ≤ ·)
  | _, sepBy1 p s, ls, vs =>
    ∃ ms ns v ws, ls = ms ++ ns ∧ vs = v :: ws ∧ Means named p ms v ∧
      Row (Behind (Means named s) (Means named p)) ns ws
  | _, map f p, ls, v => ∃ a, Means named p ls a ∧ f a = v
  | _, filterMap _ f p, ls, v => ∃ a, Means named p ls a ∧ f a = some v
  | _, .named n, ls, v => named n ls v

def Productive (named : (n : ν) → List (Leaf κ) → τ n → Prop) (g : Grammar κ τ α) : Prop :=
  ∃ ls v, Means named g ls v

/-- Every derivation that was begun can be finished: what comes after a first part derives
something, no repetition has to reach a number, and only the texts of tokens are refused. -/
def Plain [TokenKind κ] (named : (n : ν) → List (Leaf κ) → τ n → Prop) :
    {α : Type} → Grammar κ τ α → Prop
  | _, token _ => True
  | _, keyword _ _ => True
  | _, finish => False
  | _, seq p q => Plain named p ∧ Plain named q ∧ Productive named q
  | _, either p q => Plain named p ∧ Plain named q
  | _, many p least _ => Plain named p ∧ least = 0
  | _, sepBy1 p s => Plain named p ∧ Plain named s ∧ Productive named p
  | _, map _ p => Plain named p
  | _, filterMap description f (.token k) =>
    description = TokenKind.describe k ∧ Productive named (.filterMap description f (.token k))
  | _, filterMap _ _ _ => False
  | _, .named _ => True

theorem exists_leaf (T : Terminal κ) : ∃ l : Leaf κ, l.terminal = T :=
  match T with
  | .kind k => ⟨⟨_, ⟨k, "", Text.Mark.start.position, true⟩, by simp [Terminal.fits]⟩, rfl⟩
  | .word k text =>
    ⟨⟨_, ⟨k, text, Text.Mark.start.position, true⟩, by simp [Terminal.fits, sameIgnoringCase]⟩, rfl⟩

section

variable {named : (n : ν) → List (Leaf κ) → τ n → Prop}

theorem productive_token (k : κ) : Productive named (.token k) :=
  let ⟨l, hl⟩ := exists_leaf (.kind k)
  ⟨[l], l.token, l, rfl, hl, rfl⟩

theorem productive_keyword (k : κ) (text : String) : Productive named (.keyword k text) :=
  let ⟨l, hl⟩ := exists_leaf (.word k text)
  ⟨[l], l.token, l, rfl, hl, rfl⟩

theorem Productive.seq {p : Grammar κ τ α} {q : Grammar κ τ β} (hp : Productive named p)
    (hq : Productive named q) : Productive named (.seq p q) := by
  obtain ⟨ls, v, first⟩ := hp
  obtain ⟨ms, w, second⟩ := hq
  exact ⟨ls ++ ms, (v, w), ls, ms, rfl, first, second⟩

theorem Productive.left {p q : Grammar κ τ α} (h : Productive named p) :
    Productive named (.either p q) := by
  obtain ⟨ls, v, derived⟩ := h
  exact ⟨ls, v, .inl derived⟩

theorem Productive.map {p : Grammar κ τ α} (h : Productive named p) (f : α → β) :
    Productive named (.map f p) := by
  obtain ⟨ls, v, derived⟩ := h
  exact ⟨ls, f v, v, derived, rfl⟩

theorem productive_many (p : Grammar κ τ α) (most : Option Nat) :
    Productive named (.many p 0 most) :=
  ⟨[], [], .nil, Nat.le_refl 0, by cases most <;> simp⟩

theorem productive_opt (p : Grammar κ τ α) : Productive named (.opt p) :=
  (productive_many p (some 1)).map List.head?

end

theorem means_opt {named : (n : ν) → List (Leaf κ) → τ n → Prop} {g : Grammar κ τ α}
    {ls : List (Leaf κ)} {v : Option α} (h : Means named (.opt g) ls v) :
    (ls = [] ∧ v = none) ∨ ∃ a, v = some a ∧ Means named g ls a := by
  obtain ⟨vs, ⟨row, -, room⟩, rfl⟩ := h
  cases row with
  | nil => exact .inl ⟨rfl, rfl⟩
  | cons first others =>
    cases others with
    | nil => exact .inr ⟨_, rfl, by simpa using first⟩
    | cons second others => simp at room

section

variable [TokenKind κ]

/-- Up to the mismatch a derivation can be followed, and there it goes on as described. -/
def Viable (S : List (Leaf κ) → α → Prop) (c : Cursor κ) (m : Mismatch κ) : Prop :=
  ∃ ls l more v, Passes c ls m.place ∧ l.terminal.description = m.description ∧
    S (ls ++ l :: more) v

/-- A watched run takes what can be derived, and its mismatches are viable. -/
structure Follows (S : List (Leaf κ) → α → Prop) (c : Cursor κ) (w : Watched κ α) : Prop where
  accepted : ∀ v rest, w.verdict = .accepted v rest → ∃ ls, Passes c ls rest ∧ S ls v
  mismatches : ∀ m ∈ w.mismatches, Viable S c m

theorem Viable.lift {S : List (Leaf κ) → α → Prop} {T : List (Leaf κ) → β → Prop}
    {c c' : Cursor κ} {m : Mismatch κ} {ls : List (Leaf κ)} (h : Viable S c' m)
    (passes : Passes c ls c')
    (put : ∀ ms v, S ms v → ∃ more w, T (ls ++ ms ++ more) w) : Viable T c m := by
  obtain ⟨ms, l, rest, v, inner, described, derived⟩ := h
  obtain ⟨more, w, whole⟩ := put _ _ derived
  exact ⟨ls ++ ms, l, rest ++ more, w, passes.trans inner, described, by
    simpa [List.append_assoc] using whole⟩

theorem Follows.accept {S : List (Leaf κ) → α → Prop} {c rest : Cursor κ} {ls : List (Leaf κ)}
    {v : α} (passes : Passes c ls rest) (derived : S ls v) :
    Follows S c (Watched.accept v rest) where
  accepted v' rest' h := by cases h; exact ⟨ls, passes, derived⟩
  mismatches m hm := by cases hm

theorem Follows.refuse {S : List (Leaf κ) → α → Prop} {c : Cursor κ} :
    Follows S c Watched.refuse where
  accepted v rest h := by cases h
  mismatches m hm := by cases hm

theorem Follows.stop {S : List (Leaf κ) → α → Prop} {c : Cursor κ} {w : Watched κ α}
    (stops : ∀ v rest, w.verdict ≠ .accepted v rest) (quiet : w.mismatches = []) :
    Follows S c w where
  accepted v rest h := absurd h (stops v rest)
  mismatches m hm := by rw [quiet] at hm; cases hm

theorem Follows.next {S : List (Leaf κ) → α → Prop} {T : List (Leaf κ) → β → Prop}
    {c c' : Cursor κ} {w : Watched κ α} {k : α → Cursor κ → Watched κ β} {r : Watched κ β}
    (h : Follows S c' w) (viable : ∀ m, Viable S c' m → Viable T c m)
    (accepted : ∀ ls v rest, Passes c' ls rest → S ls v → Follows T c (k v rest))
    (refused : Follows T c r) : Follows T c (w.next k r) := by
  have earlier : ∀ m ∈ w.mismatches, Viable T c m := fun m hm => viable m (h.mismatches m hm)
  have after : ∀ w' : Watched κ β, Follows T c w' → Follows T c (w'.after w.mismatches) :=
    fun w' h' => ⟨h'.accepted, fun m hm => (List.mem_append.1 hm).elim (earlier m)
      (h'.mismatches m)⟩
  cases verdict : w.verdict with
  | accepted v rest =>
    obtain ⟨ls, passes, derived⟩ := h.accepted v rest verdict
    simpa only [Watched.next, verdict] using after _ (accepted ls v rest passes derived)
  | refused => simpa only [Watched.next, verdict] using after _ refused
  | tokenize e =>
    simp only [Watched.next, verdict]
    exact ⟨fun _ _ h => (by cases h), earlier⟩
  | endless =>
    simp only [Watched.next, verdict]
    exact ⟨fun _ _ h => (by cases h), earlier⟩

theorem follows_token (T : Terminal κ) (c : Cursor κ) :
    Follows (fun ls v => ∃ l, ls = [l] ∧ l.terminal = T ∧ l.token = v) c
      (watchToken T.fits T.description c) := by
  obtain ⟨l, hl⟩ := exists_leaf T
  have refused : Follows (fun ls v => ∃ l, ls = [l] ∧ l.terminal = T ∧ l.token = v) c
      (Watched.mismatch c T.description) := by
    refine ⟨fun _ _ h => (nomatch h), fun m hm => ?_⟩
    rw [List.mem_singleton.1 hm]
    exact ⟨[], l, [], l.token, .refl c, by rw [hl], l, rfl, hl, rfl⟩
  cases c with
  | finished p => exact refused
  | token t next =>
    simp only [watchToken]
    split
    · rename_i fits
      cases entered : next.enter with
      | ok rest =>
        have passes : Passes (.token t next) [⟨T, t, fits⟩] rest := by
          rw [Passes, Stream.stream_of_enter entered]
          rfl
        exact .accept passes ⟨_, rfl, rfl, rfl⟩
      | error e => exact .stop (fun _ _ h => nomatch h) rfl
    · exact refused

theorem follows_seq {S : List (Leaf κ) → α → Prop} {T : List (Leaf κ) → β → Prop}
    {p : Cursor κ → Watched κ α} {q : Cursor κ → Watched κ β} (hp : ∀ c, Follows S c (p c))
    (hq : ∀ c, Follows T c (q c)) (productive : ∃ ls v, T ls v) (c : Cursor κ) :
    Follows (fun ls v => ∃ ms ns, ls = ms ++ ns ∧ S ms v.1 ∧ T ns v.2) c
      ((p c).next (fun a rest => (q rest).next (fun b => .accept (a, b)) .refuse) .refuse) := by
  obtain ⟨ns, b, last⟩ := productive
  refine (hp c).next (fun m hm => hm.lift (.refl c) fun ms v first =>
    ⟨ns, (v, b), ms, ns, rfl, first, last⟩) (fun ms a rest passes first => ?_) .refuse
  refine (hq rest).next (fun m hm => hm.lift passes fun ms' v second =>
    ⟨[], (a, v), ms, ms', by simp, first, second⟩) (fun ns b rest' passes' second => ?_) .refuse
  exact .accept (passes.trans passes') ⟨ms, ns, rfl, first, second⟩

theorem Viable.mono {S T : List (Leaf κ) → α → Prop} {c : Cursor κ} {m : Mismatch κ}
    (h : Viable S c m) (sub : ∀ ls v, S ls v → T ls v) : Viable T c m := by
  obtain ⟨ls, l, more, v, passes, described, derived⟩ := h
  exact ⟨ls, l, more, v, passes, described, sub _ _ derived⟩

theorem Follows.mono {S T : List (Leaf κ) → α → Prop} {c : Cursor κ} {w : Watched κ α}
    (h : Follows S c w) (sub : ∀ ls v, S ls v → T ls v) : Follows T c w where
  accepted v rest verdict := by
    obtain ⟨ls, passes, derived⟩ := h.accepted v rest verdict
    exact ⟨ls, passes, sub _ _ derived⟩
  mismatches m hm := (h.mismatches m hm).mono sub

theorem follows_either {S T : List (Leaf κ) → α → Prop} {w w' : Watched κ α} {c : Cursor κ}
    (h : Follows S c w) (h' : Follows T c w') :
    Follows (fun ls v => S ls v ∨ T ls v) c (w.next .accept w') :=
  h.next (fun _ hm => hm.mono fun _ _ => .inl) (fun _ _ _ passes derived => .accept passes (.inl derived))
    (h'.mono fun _ _ => .inr)

theorem follows_many {S : List (Leaf κ) → α → Prop} {item : Cursor κ → Watched κ α}
    (h : ∀ c, Follows S c (item c)) (most : Option Nat) (rounds : Nat) {c rest : Cursor κ}
    {ls : List (Leaf κ)} {values : List α} (passes : Passes c ls rest) (taken : Row S ls values)
    (bound : most.all (values.length ≤ ·)) :
    Follows (fun ls vs => Row S ls vs ∧ 0 ≤ vs.length ∧ most.all (vs.length ≤ ·)) c
      (watchMany item 0 most rounds values rest) := by
  have close : ∀ {ls values rest}, Passes c ls rest → Row S ls values →
      most.all (values.length ≤ ·) →
      Follows (fun ls vs => Row S ls vs ∧ 0 ≤ vs.length ∧ most.all (vs.length ≤ ·)) c
        (watchClose 0 values rest) :=
    fun passes taken bound => .accept passes ⟨taken, Nat.zero_le _, bound⟩
  unfold watchMany
  split
  · rename_i room
    have more : ∀ v : α, most.all ((values ++ [v]).length ≤ ·) := by
      intro v
      cases most with
      | none => rfl
      | some n =>
        simp only [Option.all_some, List.length_append, List.length_singleton,
          decide_eq_true_eq] at room ⊢
        omega
    refine (h rest).next (fun m hm => hm.lift passes fun ms v item =>
      ⟨[], values ++ [v], ?_⟩) (fun ms v rest' passes' item => ?_) ?_
    · exact ⟨by simpa using taken.snoc item, Nat.zero_le _, more v⟩
    · split
      · cases rounds with
        | zero => exact close (passes.trans passes') (taken.snoc item) (more v)
        | succ n =>
          exact follows_many h most n (passes.trans passes') (taken.snoc item) (more v)
      · exact close (passes.trans passes') (taken.snoc item) (more v)
    · exact close passes taken bound
  · exact close passes taken bound
termination_by rounds

theorem follows_separated {S : List (Leaf κ) → α → Prop} {T : List (Leaf κ) → β → Prop}
    {item : Cursor κ → Watched κ α} {separator : Cursor κ → Watched κ β}
    (h : ∀ c, Follows S c (item c)) (hs : ∀ c, Follows T c (separator c))
    (productive : ∃ ls v, S ls v) (rounds : Nat) {c rest : Cursor κ} {ls ms : List (Leaf κ)}
    {value : α} {values : List α} (passes : Passes c (ls ++ ms) rest) (first : S ls value)
    (taken : Row (Behind T S) ms values) :
    Follows (fun ls vs => ∃ ms ns v ws, ls = ms ++ ns ∧ vs = v :: ws ∧ S ms v ∧
        Row (Behind T S) ns ws) c
      (watchSeparated item separator rounds (value :: values) rest) := by
  have done : Follows (fun ls vs => ∃ ms ns v ws, ls = ms ++ ns ∧ vs = v :: ws ∧ S ms v ∧
      Row (Behind T S) ns ws) c (.accept (value :: values) rest) :=
    .accept passes ⟨ls, ms, value, values, rfl, rfl, first, taken⟩
  have snoc : ∀ {ns b os v}, T ns b → S os v →
      Row (Behind T S) (ms ++ (ns ++ os)) (values ++ [v]) :=
    fun between item => taken.snoc ⟨_, _, _, rfl, between, item⟩
  obtain ⟨os, v, last⟩ := productive
  unfold watchSeparated
  refine (hs rest).next (fun m hm => hm.lift passes fun ns b between =>
    ⟨os, value :: (values ++ [v]), ls, ms ++ (ns ++ os), value, _, by simp, rfl, first,
      snoc between last⟩) (fun ns b between passes' sep => ?_) done
  refine (h between).next (fun m hm => hm.lift (passes.trans passes') fun os v item =>
    ⟨[], value :: (values ++ [v]), ls, ms ++ (ns ++ os), value, _, by simp, rfl, first,
      snoc sep item⟩) (fun os v rest' passes'' item => ?_) done
  split
  · cases rounds with
    | zero => exact .stop (fun _ _ h => nomatch h) rfl
    | succ n =>
      have further : Passes c (ls ++ (ms ++ (ns ++ os))) rest' := by
        simpa [List.append_assoc] using (passes.trans passes').trans passes''
      exact follows_separated h hs ⟨os, v, item⟩ n further first (snoc sep item)
  · exact .stop (fun _ _ h => nomatch h) rfl
termination_by rounds

/-- Runs of plain grammars follow what the grammars derive. -/
theorem follows_watch {named : (n : ν) → List (Leaf κ) → τ n → Prop}
    {call : (n : ν) → Cursor κ → Watched κ (τ n)} (h : ∀ n c, Follows (named n) c (call n c))
    (g : Grammar κ τ α) (plain : Plain named g) (c : Cursor κ) :
    Follows (Means named g) c (watch call g c) := by
  induction g generalizing c with
  | token k => exact follows_token (.kind k) c
  | keyword k text => exact follows_token (.word k text) c
  | finish => exact plain.elim
  | seq p q ihp ihq => exact follows_seq (ihp plain.1) (ihq plain.2.1) plain.2.2 c
  | either p q ihp ihq => exact follows_either (ihp plain.1 c) (ihq plain.2 c)
  | many p least most ih =>
    obtain ⟨plain, rfl⟩ := plain
    exact follows_many (ih plain) most _ (.refl c) .nil (by cases most <;> simp)
  | sepBy1 p s ihp ihs =>
    refine (ihp plain.1 c).next (fun m hm => hm.lift (.refl c) fun ms v first => ?_)
      (fun ls v rest passes first => ?_) .refuse
    · exact ⟨[], [v], ms, [], v, [], by simp, rfl, first, .nil⟩
    · have passes : Passes c (ls ++ []) rest := by simpa using passes
      exact follows_separated (ihp plain.1) (ihs plain.2.1) plain.2.2 _ passes first .nil
  | map f p ih =>
    exact (ih plain c).next (fun m hm => hm.lift (.refl c) fun ms v first =>
      ⟨[], f v, v, by simpa using first, rfl⟩)
      (fun ls v rest passes first => .accept passes ⟨v, first, rfl⟩) .refuse
  | filterMap description f p ih =>
    cases p with
    | token k =>
      obtain ⟨described, ls, b, a, ⟨l, rfl, hl, rfl⟩, hb⟩ := plain
      have derived : Means named (.filterMap description f (.token k)) [l] b :=
        ⟨l.token, ⟨l, rfl, hl, rfl⟩, hb⟩
      have refused : Viable (Means named (.filterMap description f (.token k))) c
          ⟨c, description⟩ := ⟨[], l, [], b, .refl c, by rw [hl]; exact described.symm, derived⟩
      refine (ih trivial c).next (fun m hm => ?_)
        (fun ms a rest passes token => ?_) .refuse
      · obtain ⟨ls, l', more, v, passes, same, l'', eq, hl'', _⟩ := hm
        obtain ⟨rfl, rfl, rfl⟩ : ls = [] ∧ l' = l'' ∧ more = [] := by
          cases ls <;> simp_all
        exact ⟨[], l, [], b, passes, by rw [hl, ← hl'']; exact same, derived⟩
      · split
        · rename_i b' hb'
          exact .accept passes ⟨a, token, hb'⟩
        · exact ⟨fun _ _ h => (nomatch h), fun m hm => by
            rw [List.mem_singleton.1 hm]; exact refused⟩
    | _ => exact plain.elim
  | named n => exact h n c

theorem follows_call {named : (n : ν) → List (Leaf κ) → τ n → Prop} {rules : Rules κ τ}
    (closed : ∀ n ls v, Means named (rules.body n) ls v → named n ls v)
    (plain : ∀ n, Plain named (rules.body n)) (depth : Nat) (n : ν) (c : Cursor κ) :
    Follows (named n) c (rules.watchCall depth n c) := by
  induction depth generalizing n c with
  | zero => exact .stop (fun _ _ h => nomatch h) rfl
  | succ depth ih => exact (follows_watch ih (rules.body n) (plain n) c).mono (closed n)

end

end Grammar

end Wordhoard
