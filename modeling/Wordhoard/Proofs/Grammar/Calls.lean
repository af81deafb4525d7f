import Wordhoard.Proofs.Grammar.Summary
import Wordhoard.Proofs.Grammar.Language

/-! The calls of named grammars that a run makes, in the branches it gives up too. A run depends on
nothing but the calls it makes, it never ends if one of them does not, and the tokens before a call
are a part that the grammar derives. -/
namespace Wordhoard.Grammar

variable {κ ν : Type} {τ : ν → Type} {α β : Type}

inductive Rounds (R : Cursor κ → Cursor κ → Prop) : Nat → Cursor κ → Cursor κ → Prop where
  | none (c : Cursor κ) : Rounds R 0 c c
  | more {k : Nat} {a b c : Cursor κ} (first : R a b) (others : Rounds R k b c) :
      Rounds R (k + 1) a c

def Item (item : Cursor κ → Outcome κ α) (c d : Cursor κ) : Prop :=
  ∃ p, item c = .ok p ∧ p.rest = d ∧ d.remaining < c.remaining

def Turn (item : Cursor κ → Outcome κ α) (separator : Cursor κ → Outcome κ β) (c d : Cursor κ) :
    Prop :=
  ∃ s p, separator c = .ok s ∧ item s.rest = .ok p ∧ p.rest = d ∧ d.remaining < c.remaining

theorem runMany_congr {item item' : Cursor κ → Outcome κ α} (least : Nat) {most : Option Nat}
    (rounds : Nat) {values : List α} {rest : Cursor κ} (furthest : Option Expectation)
    (same : ∀ k d, Rounds (Item item) k rest d → most.all (values.length + k < ·) →
      item d = item' d) :
    runMany item least most rounds values rest furthest =
      runMany item' least most rounds values rest furthest := by
  unfold runMany
  split
  · rename_i room
    rw [← same 0 rest (.none rest) room]
    split
    · rename_i p eq
      dsimp only
      split
      · rename_i progress
        cases rounds with
        | zero => rfl
        | succ n =>
          apply runMany_congr
          intro k d further room'
          apply same (k + 1) d (.more ⟨p, eq, rfl, progress⟩ further)
          simpa [Nat.add_assoc, Nat.add_comm 1] using room'
      · rfl
    · rfl
    · rfl
  · rfl
termination_by rounds

theorem runSeparated_congr {item item' : Cursor κ → Outcome κ α}
    {separator separator' : Cursor κ → Outcome κ β} (rounds : Nat) (values : List α)
    {rest : Cursor κ} (furthest : Option Expectation)
    (between : ∀ k d, Rounds (Turn item separator) k rest d → separator d = separator' d)
    (same : ∀ k d s, Rounds (Turn item separator) k rest d → separator d = .ok s →
      item s.rest = item' s.rest) :
    runSeparated item separator rounds values rest furthest =
      runSeparated item' separator' rounds values rest furthest := by
  unfold runSeparated
  rw [← between 0 rest (.none rest)]
  split
  · rfl
  · rfl
  · rename_i s eq
    rw [← same 0 rest s (.none rest) eq]
    split
    · rfl
    · rfl
    · rename_i p eq'
      split
      · rename_i progress
        cases rounds with
        | zero => rfl
        | succ n =>
          have turn : Turn item separator rest p.rest := ⟨s, p, eq, eq', rfl, progress⟩
          apply runSeparated_congr
          · exact fun k d further => between (k + 1) d (.more turn further)
          · exact fun k d s further => same (k + 1) d s (.more turn further)
      · rfl
termination_by rounds

/-- What stops a run for good: anything but a mismatch. -/
def Fatal (f : Failure) : Prop := ∀ e, f ≠ .expected e

theorem fatal_tokenize (e : TokenizeError) : Fatal (.tokenize e) := nofun

theorem fatal_endless : Fatal .endless := nofun

theorem runMany_stopped {f : Failure} (fatal : Fatal f) {item : Cursor κ → Outcome κ α} (least : Nat)
    {most : Option Nat} {rounds k : Nat} {values : List α} {rest d : Cursor κ}
    (furthest : Option Expectation) (enough : rest.remaining ≤ rounds)
    (taken : Rounds (Item item) k rest d) (room : most.all (values.length + k < ·))
    (stuck : item d = .error f) :
    runMany item least most rounds values rest furthest = .error f := by
  induction taken generalizing rounds values furthest with
  | none c =>
    unfold runMany
    rw [if_pos (by simpa using room), stuck]
    cases f with
    | expected e => exact absurd rfl (fatal e)
    | _ => rfl
  | more first others ih =>
    obtain ⟨p, eq, rfl, progress⟩ := first
    have here : most.all (values.length < ·) := by
      cases most with
      | none => rfl
      | some m =>
        simp only [Option.all_some, decide_eq_true_eq] at room ⊢
        omega
    unfold runMany
    rw [if_pos here, eq]
    simp only [progress, if_true]
    cases rounds with
    | zero => omega
    | succ n =>
      apply ih _ (by omega) _ stuck
      simpa [Nat.add_assoc, Nat.add_comm 1] using room

theorem runSeparated_stopped {f : Failure} (fatal : Fatal f) {item : Cursor κ → Outcome κ α}
    {separator : Cursor κ → Outcome κ β} {rounds k : Nat} (values : List α) {rest d : Cursor κ}
    (furthest : Option Expectation) (enough : rest.remaining ≤ rounds)
    (taken : Rounds (Turn item separator) k rest d)
    (stuck : separator d = .error f ∨ ∃ s, separator d = .ok s ∧ item s.rest = .error f) :
    runSeparated item separator rounds values rest furthest = .error f := by
  induction taken generalizing rounds values furthest with
  | none c =>
    unfold runSeparated
    cases f with
    | expected e => exact absurd rfl (fatal e)
    | _ =>
      rcases stuck with stuck | ⟨s, eq, stuck⟩
      · rw [stuck]
      · simp only [eq, stuck]
  | more first others ih =>
    obtain ⟨s, p, eq, eq', rfl, progress⟩ := first
    unfold runSeparated
    simp only [eq, eq', progress, if_true]
    cases rounds with
    | zero => omega
    | succ n => exact ih _ _ (by omega) stuck

section

variable [DecidableEq κ] [TokenKind κ]

/-- The run of a grammar comes to one of its leaves, in a branch that it may give up again: to a
token that it asks for, at a cursor where `take` holds of it, or to a name, where `name` does. -/
def Visits (call : (n : ν) → Cursor κ → Outcome κ (τ n))
    (take : (Token κ → Bool) → Cursor κ → Prop) (name : ν → Cursor κ → Prop) :
    {α : Type} → Grammar κ τ α → Cursor κ → Prop
  | _, token kind, c => take (·.kind = kind) c
  | _, keyword kind text, c =>
    take (fun t => t.kind = kind && sameIgnoringCase t.text text) c
  | _, finish, _ => False
  | _, seq p q, c =>
    Visits call take name p c ∨ ∃ a, interpret call p c = .ok a ∧ Visits call take name q a.rest
  | _, either p q, c =>
    Visits call take name p c ∨
      ∃ e, interpret call p c = .error (.expected e) ∧ Visits call take name q c
  | _, many p _ most, c =>
    ∃ k b, Rounds (Item (interpret call p)) k c b ∧ most.all (k < ·) ∧ Visits call take name p b
  | _, sepBy1 p s, c =>
    Visits call take name p c ∨
      ∃ a k b, interpret call p c = .ok a ∧
        Rounds (Turn (interpret call p) (interpret call s)) k a.rest b ∧
        (Visits call take name s b ∨
          ∃ t, interpret call s b = .ok t ∧ Visits call take name p t.rest)
  | _, map _ p, c => Visits call take name p c
  | _, filterMap _ _ p, c => Visits call take name p c
  | _, .named n, c => name n c

/-- Nothing that a run does afterwards hides what stops it at one of its leaves. -/
theorem Visits.stopped {call : (n : ν) → Cursor κ → Outcome κ (τ n)}
    {take : (Token κ → Bool) → Cursor κ → Prop} {name : ν → Cursor κ → Prop} {g : Grammar κ τ α}
    {c : Cursor κ} {f : Failure} (h : Visits call take name g c) (fatal : Fatal f)
    (takes : ∀ fits c, take fits c → ∀ description, takeToken fits description c = .error f)
    (names : ∀ n c, name n c → call n c = .error f) : interpret call g c = .error f := by
  induction g generalizing c with
  | token kind => exact takes _ c h _
  | keyword kind text => exact takes _ c h _
  | finish => exact h.elim
  | seq p q ihp ihq =>
    rcases h with h | ⟨a, eq, h⟩
    · simp only [interpret, runSeq, ihp h]
    · simp only [interpret, runSeq, eq, ihq h]
      cases f with
      | expected e => exact absurd rfl (fatal e)
      | _ => rfl
  | either p q ihp ihq =>
    cases f with
    | expected e => exact absurd rfl (fatal e)
    | _ =>
      rcases h with h | ⟨e, eq, h⟩
      · simp only [interpret, runEither, ihp h]
      · simp only [interpret, runEither, eq, ihq h]
  | many p least most ih =>
    obtain ⟨k, b, taken, room, h⟩ := h
    exact runMany_stopped fatal least none (Nat.le_refl _) taken (by simpa using room) (ih h)
  | sepBy1 p s ihp ihs =>
    rcases h with h | ⟨a, k, b, eq, taken, h⟩
    · simp only [interpret, ihp h]
    · simp only [interpret, eq]
      apply runSeparated_stopped fatal _ _ (Nat.le_refl _) taken
      rcases h with h | ⟨t, separated, h⟩
      · exact .inl (ihs h)
      · exact .inr ⟨t, separated, ihp h⟩
  | map g p ih =>
    simp only [interpret, ih h]
    rfl
  | filterMap description g p ih => simp only [interpret, runFilterMap, ih h]
  | named n => exact names n c h

end

variable [DecidableEq κ] [TokenKind κ]

def Makes (call : (n : ν) → Cursor κ → Outcome κ (τ n)) (g : Grammar κ τ α) (c : Cursor κ) (n : ν)
    (d : Cursor κ) : Prop :=
  Visits call (fun _ _ => False) (fun m b => n = m ∧ d = b) g c

variable {call call' : (n : ν) → Cursor κ → Outcome κ (τ n)} {c d : Cursor κ} {n : ν}

/-- What a run does depends on nothing but the calls it makes. -/
theorem interpret_congr (g : Grammar κ τ α) (c : Cursor κ)
    (same : ∀ n d, Makes call g c n d → call n d = call' n d) :
    interpret call g c = interpret call' g c := by
  induction g generalizing c with
  | token kind => rfl
  | keyword kind text => rfl
  | finish => rfl
  | seq p q ihp ihq =>
    have first := ihp c fun n d made => same n d (.inl made)
    unfold interpret runSeq
    rw [← first]
    split
    · rfl
    · rename_i a eq
      rw [← ihq a.rest fun n d made => same n d (.inr ⟨a, eq, made⟩)]
  | either p q ihp ihq =>
    have first := ihp c fun n d made => same n d (.inl made)
    unfold interpret runEither
    rw [← first]
    split
    · rfl
    · rename_i e eq
      rw [← ihq c fun n d made => same n d (.inr ⟨e, eq, made⟩)]
    · rfl
  | many p least most ih =>
    apply runMany_congr
    intro k b taken room
    rw [List.length_nil, Nat.zero_add] at room
    exact ih b fun n d made => same n d ⟨k, b, taken, room, made⟩
  | sepBy1 p s ihp ihs =>
    have first := ihp c fun n d made => same n d (.inl made)
    unfold interpret
    rw [← first]
    split
    · rfl
    · rename_i a eq
      apply runSeparated_congr
      · exact fun k b taken => ihs b fun n d made =>
          same n d (.inr ⟨a, k, b, eq, taken, .inl made⟩)
      · exact fun k b t taken separated => ihp t.rest fun n d made =>
          same n d (.inr ⟨a, k, b, eq, taken, .inr ⟨t, separated, made⟩⟩)
  | map f p ih =>
    unfold interpret
    rw [ih c same]
  | filterMap description f p ih =>
    unfold interpret runFilterMap
    rw [ih c same]
  | named n => exact same n c ⟨rfl, rfl⟩

theorem interpret_endless {g : Grammar κ τ α} (made : Makes call g c n d)
    (stuck : call n d = .error .endless) : interpret call g c = .error .endless := by
  refine Visits.stopped made fatal_endless nofun ?_
  rintro m b ⟨rfl, rfl⟩
  exact stuck

omit [TokenKind κ] in
def Before (named : (n : ν) → List (Leaf κ) → τ n → Prop) :
    {α : Type} → Grammar κ τ α → ν → List (Leaf κ) → Prop
  | _, token _, _, _ => False
  | _, keyword _ _, _, _ => False
  | _, finish, _, _ => False
  | _, seq p q, n, ls =>
    Before named p n ls ∨ ∃ ms ns v, ls = ms ++ ns ∧ Means named p ms v ∧ Before named q n ns
  | _, either p q, n, ls => Before named p n ls ∨ Before named q n ls
  | _, many p _ _, n, ls =>
    ∃ ms ns vs, ls = ms ++ ns ∧ Row (Means named p) ms vs ∧ Before named p n ns
  | _, sepBy1 p s, n, ls =>
    Before named p n ls ∨
      ∃ ms ns os v vs, ls = ms ++ ns ++ os ∧ Means named p ms v ∧
        Row (Behind (Means named s) (Means named p)) ns vs ∧
        (Before named s n os ∨
          ∃ ks ks' w, os = ks ++ ks' ∧ Means named s ks w ∧ Before named p n ks')
  | _, map _ p, n, ls => Before named p n ls
  | _, filterMap _ _ p, n, ls => Before named p n ls
  | _, .named m, n, ls => n = m ∧ ls = []

/-- A run takes tokens that can be derived with its value. -/
def Sound (S : List (Leaf κ) → α → Prop) (run : Cursor κ → Outcome κ α) : Prop :=
  ∀ c p, run c = .ok p → ∃ ls, Passes c ls p.rest ∧ S ls p.value

omit [TokenKind κ] in
theorem row_of_rounds {S : List (Leaf κ) → α → Prop} {item : Cursor κ → Outcome κ α}
    (sound : Sound S item) {k : Nat} (taken : Rounds (Item item) k c d) :
    ∃ ls vs, Passes c ls d ∧ Row S ls vs := by
  induction taken with
  | none c => exact ⟨[], [], .refl c, .nil⟩
  | more first others ih =>
    obtain ⟨p, eq, rfl, -⟩ := first
    obtain ⟨ls, passes, derived⟩ := sound _ p eq
    obtain ⟨ms, vs, passes', row⟩ := ih
    exact ⟨ls ++ ms, p.value :: vs, passes.trans passes', .cons derived row⟩

omit [TokenKind κ] in
theorem row_of_turns {S : List (Leaf κ) → α → Prop} {T : List (Leaf κ) → β → Prop}
    {item : Cursor κ → Outcome κ α} {separator : Cursor κ → Outcome κ β} (sound : Sound S item)
    (sound' : Sound T separator) {k : Nat} (taken : Rounds (Turn item separator) k c d) :
    ∃ ls vs, Passes c ls d ∧ Row (Behind T S) ls vs := by
  induction taken with
  | none c => exact ⟨[], [], .refl c, .nil⟩
  | more first others ih =>
    obtain ⟨s, p, eq, eq', rfl, -⟩ := first
    obtain ⟨ls, passes, between⟩ := sound' _ s eq
    obtain ⟨ms, passes', derived⟩ := sound _ p eq'
    obtain ⟨ns, vs, passes'', row⟩ := ih
    exact ⟨ls ++ ms ++ ns, p.value :: vs, (passes.trans passes').trans passes'',
      .cons ⟨ls, ms, s.value, rfl, between, derived⟩ row⟩

section

variable {named : (n : ν) → List (Leaf κ) → τ n → Prop} {rules : Rules κ τ}

theorem sound_interpret (closed : ∀ n ls v, Means named (rules.body n) ls v → named n ls v)
    (plain : ∀ n, Plain named (rules.body n)) (depth : Nat) {g : Grammar κ τ α}
    (plain' : Plain named g) : Sound (Means named g) (interpret (rules.call depth) g) := by
  intro c p eq
  have reports := reports_run rules depth g c
  rw [eq] at reports
  exact (follows_watch (follows_call closed plain depth) g plain' c).accepted _ _ reports.1

theorem before_of_makes (closed : ∀ n ls v, Means named (rules.body n) ls v → named n ls v)
    (plain : ∀ n, Plain named (rules.body n)) {depth : Nat} {g : Grammar κ τ α}
    (plain' : Plain named g) (made : Makes (rules.call depth) g c n d) :
    ∃ ls, Passes c ls d ∧ Before named g n ls := by
  induction g generalizing c with
  | token kind => exact made.elim
  | keyword kind text => exact made.elim
  | finish => exact made.elim
  | seq p q ihp ihq =>
    rcases made with made | ⟨a, eq, made⟩
    · obtain ⟨ls, passes, before⟩ := ihp plain'.1 made
      exact ⟨ls, passes, .inl before⟩
    · obtain ⟨ms, passes, first⟩ := sound_interpret closed plain depth plain'.1 c a eq
      obtain ⟨ns, passes', before⟩ := ihq plain'.2.1 made
      exact ⟨ms ++ ns, passes.trans passes', .inr ⟨ms, ns, a.value, rfl, first, before⟩⟩
  | either p q ihp ihq =>
    rcases made with made | ⟨e, -, made⟩
    · obtain ⟨ls, passes, before⟩ := ihp plain'.1 made
      exact ⟨ls, passes, .inl before⟩
    · obtain ⟨ls, passes, before⟩ := ihq plain'.2 made
      exact ⟨ls, passes, .inr before⟩
  | many p least most ih =>
    obtain ⟨k, b, taken, -, made⟩ := made
    obtain ⟨ms, vs, passes, row⟩ :=
      row_of_rounds (sound_interpret closed plain depth plain'.1) taken
    obtain ⟨ns, passes', before⟩ := ih plain'.1 made
    exact ⟨ms ++ ns, passes.trans passes', ms, ns, vs, rfl, row, before⟩
  | sepBy1 p s ihp ihs =>
    have item := sound_interpret closed plain depth plain'.1
    have separator := sound_interpret closed plain depth plain'.2.1
    rcases made with made | ⟨a, k, b, eq, taken, made⟩
    · obtain ⟨ls, passes, before⟩ := ihp plain'.1 made
      exact ⟨ls, passes, .inl before⟩
    · obtain ⟨ms, passes, first⟩ := item c a eq
      obtain ⟨ns, vs, passes', row⟩ := row_of_turns item separator taken
      have here := passes.trans passes'
      rcases made with made | ⟨t, eq', made⟩
      · obtain ⟨os, passes'', before⟩ := ihs plain'.2.1 made
        exact ⟨ms ++ ns ++ os, here.trans passes'', .inr
          ⟨ms, ns, os, a.value, vs, rfl, first, row, .inl before⟩⟩
      · obtain ⟨ks, between, derived⟩ := separator b t eq'
        obtain ⟨ks', passes'', before⟩ := ihp plain'.1 made
        exact ⟨ms ++ ns ++ (ks ++ ks'), here.trans (between.trans passes''), .inr
          ⟨ms, ns, ks ++ ks', a.value, vs, rfl, first, row,
            .inr ⟨ks, ks', t.value, rfl, derived, before⟩⟩⟩
  | map f p ih => exact ih plain' made
  | filterMap description f p ih =>
    cases p with
    | token k => exact made.elim
    | _ => exact plain'.elim
  | named m =>
    obtain ⟨rfl, rfl⟩ := made
    exact ⟨[], .refl d, rfl, rfl⟩

end

end Wordhoard.Grammar
