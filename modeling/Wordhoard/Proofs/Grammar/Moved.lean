import Mathlib.Data.List.Forall2
import Mathlib.Data.Option.Basic
import Wordhoard.Proofs.Token.Order

/-! Runs of a grammar on streams with the same tokens at other places. A run asks of two places only
which one comes first. Where the places keep their order, both runs take the same turns, and what
they are refused is the same at the place that corresponds. -/
namespace Wordhoard

variable {κ ν : Type} {τ : ν → Type} {α β : Type}

def KeepsOrder (P : Text.Position → Text.Position → Prop) : Prop :=
  ∀ p p' q q', P p p' → P q q' → (p.index < q.index ↔ p'.index < q'.index)

variable {P : Text.Position → Text.Position → Prop}

structure Token.Moved (P : Text.Position → Text.Position → Prop) (t t' : Token κ) : Prop where
  kind : t.kind = t'.kind
  text : t.text = t'.text
  place : P t.position t'.position

structure Stream.Moved (P : Text.Position → Text.Position → Prop) (s s' : Stream κ) : Prop where
  tokens : List.Forall₂ (Token.Moved P) s.tokens s'.tokens
  finished : ∃ p p', s.ending = .finished p ∧ s'.ending = .finished p' ∧ P p p'

inductive Cursor.Moved (P : Text.Position → Text.Position → Prop) : Cursor κ → Cursor κ → Prop where
  | token {t t' : Token κ} {s s' : Stream κ} (head : t.Moved P t') (rest : s.Moved P s') :
      Moved P (.token t s) (.token t' s')
  | finished {p p' : Text.Position} (place : P p p') : Moved P (.finished p) (.finished p')

structure Expectation.Moved (P : Text.Position → Text.Position → Prop) (e e' : Expectation) :
    Prop where
  place : P e.position e'.position
  found : e.found = e'.found
  expected : e.expected = e'.expected

theorem Stream.Moved.enter {s s' : Stream κ} (h : s.Moved P s') :
    ∃ c c', s.enter = .ok c ∧ s'.enter = .ok c' ∧ c.Moved P c' := by
  obtain ⟨tokens, p, p', ends, ends', place⟩ := h
  obtain ⟨ts, ending⟩ := s
  obtain ⟨ts', ending'⟩ := s'
  cases ends
  cases ends'
  cases tokens with
  | nil => exact ⟨_, _, rfl, rfl, .finished place⟩
  | cons head others => exact ⟨_, _, rfl, rfl, .token head ⟨others, p, p', rfl, rfl, place⟩⟩

theorem Cursor.Moved.place {c c' : Cursor κ} (h : c.Moved P c') : P c.position c'.position := by
  cases h with
  | token head rest => exact head.place
  | finished place => exact place

theorem Cursor.Moved.found {c c' : Cursor κ} (h : c.Moved P c') : c.found = c'.found := by
  cases h with
  | token head rest => exact congrArg some head.text
  | finished place => rfl

theorem Cursor.Moved.remaining {c c' : Cursor κ} (h : c.Moved P c') :
    c.remaining = c'.remaining := by
  cases h with
  | token head rest => exact congrArg (· + 1) rest.tokens.length_eq
  | finished place => rfl

namespace Stream

def places (s : Stream κ) : List Text.Position :=
  s.tokens.map (·.position) ++ [s.ending.position]

/-- The places of the same token, counted from the first, or of both ends. -/
def SamePlace (s s' : Stream κ) (p p' : Text.Position) : Prop :=
  ∃ k : Nat, s.places[k]? = some p ∧ s'.places[k]? = some p'

theorem indices_eq_map (s : Stream κ) : s.indices = s.places.map (·.index) := by
  simp [indices, places]

theorem Ordered.index_lt_iff {s : Stream κ} (h : s.Ordered) {i j : Nat} {p q : Text.Position}
    (hp : s.places[i]? = some p) (hq : s.places[j]? = some q) : p.index < q.index ↔ i < j := by
  rw [Ordered, indices_eq_map, List.pairwise_map] at h
  have increasing {i j : Nat} {p q : Text.Position} (hp : s.places[i]? = some p)
      (hq : s.places[j]? = some q) (less : i < j) : p.index < q.index := by
    obtain ⟨hi, rfl⟩ := List.getElem?_eq_some_iff.1 hp
    obtain ⟨hj, rfl⟩ := List.getElem?_eq_some_iff.1 hq
    exact List.pairwise_iff_getElem.1 h i j hi hj less
  constructor
  · intro less
    rcases Nat.lt_trichotomy i j with before | rfl | behind
    · exact before
    · rw [hp] at hq
      cases hq
      exact absurd less (Nat.lt_irrefl _)
    · exact absurd less (Nat.lt_asymm (increasing hq hp behind))
  · exact increasing hp hq

theorem keepsOrder_samePlace {s s' : Stream κ} (h : s.Ordered) (h' : s'.Ordered) :
    KeepsOrder (SamePlace s s') := by
  rintro p p' q q' ⟨i, hp, hp'⟩ ⟨j, hq, hq'⟩
  rw [h.index_lt_iff hp hq, h'.index_lt_iff hp' hq']

theorem places_token (s : Stream κ) {i : Nat} (hi : i < s.tokens.length) :
    s.places[i]? = some s.tokens[i].position := by
  have inside : i < (s.tokens.map (·.position)).length := by rwa [List.length_map]
  rw [places, List.getElem?_append_left inside, List.getElem?_eq_getElem inside, List.getElem_map]

theorem places_end (s : Stream κ) : s.places[s.tokens.length]? = some s.ending.position := by
  simp [places]

/-- Finished streams with the same kinds and texts have the same tokens at their places. -/
theorem moved_of_same {s s' : Stream κ} {p p' : Text.Position} (finished : s.ending = .finished p)
    (finished' : s'.ending = .finished p')
    (same : s'.tokens.map (fun t => (t.kind, t.text)) = s.tokens.map fun t => (t.kind, t.text)) :
    s.Moved (SamePlace s s') s' := by
  have length : s.tokens.length = s'.tokens.length := by
    simpa using (congrArg List.length same).symm
  refine ⟨List.forall₂_iff_get.2 ⟨length, fun i hi hi' => ?_⟩, p, p', finished, finished', ?_⟩
  · have here : (s'.tokens[i].kind, s'.tokens[i].text) = (s.tokens[i].kind, s.tokens[i].text) := by
      simpa [hi, hi'] using congrArg (·[i]?) same
    obtain ⟨kind, text⟩ := Prod.mk.inj here
    exact ⟨kind.symm, text.symm, i, s.places_token hi, s'.places_token hi'⟩
  · have ends := s.places_end
    have ends' := s'.places_end
    rw [finished] at ends
    rw [finished', ← length] at ends'
    exact ⟨s.tokens.length, ends, ends'⟩

end Stream

namespace Expectation

theorem Moved.here {c c' : Cursor κ} (h : c.Moved P c') (description : String) :
    (Expectation.here c description).Moved P (.here c' description) where
  place := h.place
  found := h.found
  expected := rfl

theorem Moved.merge (order : KeepsOrder P) {a a' b b' : Expectation} (ha : a.Moved P a')
    (hb : b.Moved P b') : (a.merge b).Moved P (a'.merge b') := by
  have forth := order _ _ _ _ ha.place hb.place
  have back := order _ _ _ _ hb.place ha.place
  unfold Expectation.merge
  simp only [forth, back]
  split
  · exact hb
  · split
    · exact ha
    · refine ⟨ha.place, ha.found, ?_⟩
      rw [ha.expected, hb.expected]

theorem Moved.mergeWith (order : KeepsOrder P) {a a' : Expectation} {b b' : Option Expectation}
    (ha : a.Moved P a') (hb : Option.Rel (Moved P) b b') :
    (a.mergeWith b).Moved P (a'.mergeWith b') := by
  cases hb with
  | none => exact ha
  | some hb => exact ha.merge order hb

theorem moved_later (order : KeepsOrder P) {a a' b b' : Option Expectation}
    (ha : Option.Rel (Moved P) a a') (hb : Option.Rel (Moved P) b b') :
    Option.Rel (Moved P) (later a b) (later a' b') := by
  cases ha with
  | none => exact hb
  | some ha => exact .some (ha.mergeWith order hb)

end Expectation

namespace Grammar

open Expectation (later moved_later)

inductive Ends (P : Text.Position → Text.Position → Prop) (R : α → α → Prop) :
    Outcome κ α → Outcome κ α → Prop where
  | accepted {v v' : α} {rest rest' : Cursor κ} {furthest furthest' : Option Expectation}
      (value : R v v') (moved : rest.Moved P rest')
      (refused : Option.Rel (Expectation.Moved P) furthest furthest') :
      Ends P R (.ok ⟨v, rest, furthest⟩) (.ok ⟨v', rest', furthest'⟩)
  | refused {e e' : Expectation} (moved : e.Moved P e') :
      Ends P R (.error (.expected e)) (.error (.expected e'))
  | endless : Ends P R (.error .endless) (.error .endless)

variable {R : α → α → Prop} {S : β → β → Prop}

theorem ends_takeToken {fits : Token κ → Bool} (same : ∀ t t', Token.Moved P t t' → fits t = fits t')
    (description : String) {c c' : Cursor κ} (start : c.Moved P c') :
    Ends P (Token.Moved P) (takeToken fits description c) (takeToken fits description c') := by
  cases start with
  | finished place => exact .refused (.here (.finished place) description)
  | token head rest =>
    obtain ⟨d, d', entered, entered', moved⟩ := rest.enter
    unfold takeToken
    simp only [same _ _ head, entered, entered']
    split
    · exact .accepted head moved .none
    · exact .refused (.here (.token head rest) description)

theorem ends_takeFinish {c c' : Cursor κ} (start : c.Moved P c') :
    Ends P Eq (takeFinish c) (takeFinish c') := by
  cases start with
  | finished place => exact .accepted rfl (.finished place) .none
  | token head rest => exact .refused (.here (.token head rest) _)

theorem ends_seq (order : KeepsOrder P) {p : Cursor κ → Outcome κ α} {q : Cursor κ → Outcome κ β}
    (hp : ∀ {c c'}, c.Moved P c' → Ends P R (p c) (p c'))
    (hq : ∀ {c c'}, c.Moved P c' → Ends P S (q c) (q c')) {c c' : Cursor κ}
    (start : c.Moved P c') :
    Ends P (fun a b => R a.1 b.1 ∧ S a.2 b.2) (runSeq p q c) (runSeq p q c') := by
  have first := hp start
  unfold runSeq
  generalize p c = o, p c' = o' at first
  cases first with
  | refused moved => exact .refused moved
  | endless => exact .endless
  | @accepted a a' between between' _ _ value moved before =>
    have second := hq moved
    dsimp only
    generalize q between = u, q between' = u' at second
    cases second with
    | refused moved => exact .refused (moved.mergeWith order before)
    | endless => exact .endless
    | accepted value' moved' behind =>
      exact .accepted ⟨value, value'⟩ moved' (moved_later order before behind)

theorem ends_either (order : KeepsOrder P) {p q : Cursor κ → Outcome κ α}
    (hp : ∀ {c c'}, c.Moved P c' → Ends P R (p c) (p c'))
    (hq : ∀ {c c'}, c.Moved P c' → Ends P R (q c) (q c')) {c c' : Cursor κ}
    (start : c.Moved P c') : Ends P R (runEither p q c) (runEither p q c') := by
  have first := hp start
  unfold runEither
  generalize p c = o, p c' = o' at first
  cases first with
  | accepted value moved before => exact .accepted value moved before
  | endless => exact .endless
  | refused before =>
    have second := hq start
    dsimp only
    generalize q c = u, q c' = u' at second
    cases second with
    | accepted value moved behind => exact .accepted value moved (moved_later order (.some before) behind)
    | refused behind => exact .refused (before.merge order behind)
    | endless => exact .endless

theorem ends_closeMany (order : KeepsOrder P) (least : Nat) {values values' : List α}
    (taken : List.Forall₂ R values values') {rest rest' : Cursor κ} (moved : rest.Moved P rest')
    {furthest furthest' : Option Expectation}
    (before : Option.Rel (Expectation.Moved P) furthest furthest') :
    Ends P (List.Forall₂ R) (closeMany least values rest furthest)
      (closeMany least values' rest' furthest') := by
  unfold closeMany
  rw [taken.length_eq]
  split
  · exact .refused ((Expectation.Moved.here moved _).mergeWith order before)
  · exact .accepted taken moved before

theorem ends_many (order : KeepsOrder P) {item : Cursor κ → Outcome κ α}
    (h : ∀ {c c'}, c.Moved P c' → Ends P R (item c) (item c')) (least : Nat) (most : Option Nat)
    (rounds : Nat) {values values' : List α} (taken : List.Forall₂ R values values')
    {rest rest' : Cursor κ} (start : rest.Moved P rest') {furthest furthest' : Option Expectation}
    (before : Option.Rel (Expectation.Moved P) furthest furthest') :
    Ends P (List.Forall₂ R) (runMany item least most rounds values rest furthest)
      (runMany item least most rounds values' rest' furthest') := by
  have one := h start
  have length := taken.length_eq
  have remaining := start.remaining
  unfold runMany
  rw [length]
  split
  · generalize item rest = o, item rest' = o' at one
    cases one with
    | endless => exact .endless
    | refused moved =>
      dsimp only
      split
      · exact .refused (moved.mergeWith order before)
      · exact .accepted taken start (moved_later order before (.some moved))
    | accepted value moved refused =>
      have further := List.rel_append taken (.cons value .nil)
      have sum := moved_later order before refused
      dsimp only
      rw [moved.remaining, remaining]
      split
      · cases rounds with
        | zero => exact ends_closeMany order least further moved sum
        | succ n => exact ends_many order h least most n further moved sum
      · exact ends_closeMany order least further moved sum
  · exact ends_closeMany order least taken start before
termination_by rounds

theorem ends_separated (order : KeepsOrder P) {item : Cursor κ → Outcome κ α}
    {separator : Cursor κ → Outcome κ β}
    (h : ∀ {c c'}, c.Moved P c' → Ends P R (item c) (item c'))
    (hs : ∀ {c c'}, c.Moved P c' → Ends P S (separator c) (separator c')) (rounds : Nat)
    {values values' : List α} (taken : List.Forall₂ R values values') {rest rest' : Cursor κ}
    (start : rest.Moved P rest') {furthest furthest' : Option Expectation}
    (before : Option.Rel (Expectation.Moved P) furthest furthest') :
    Ends P (List.Forall₂ R) (runSeparated item separator rounds values rest furthest)
      (runSeparated item separator rounds values' rest' furthest') := by
  have first := hs start
  unfold runSeparated
  generalize separator rest = o, separator rest' = o' at first
  cases first with
  | endless => exact .endless
  | refused moved => exact .accepted taken start (moved_later order before (.some moved))
  | @accepted _ _ between between' _ _ _ moved refused =>
    have second := h moved
    have sum := moved_later order before refused
    dsimp only
    generalize item between = u, item between' = u' at second
    cases second with
    | endless => exact .endless
    | refused moved => exact .accepted taken start (moved_later order sum (.some moved))
    | accepted value moved' refused' =>
      dsimp only
      rw [moved'.remaining, start.remaining]
      split
      · cases rounds with
        | zero => exact .endless
        | succ n =>
          exact ends_separated order h hs n (List.rel_append taken (.cons value .nil)) moved'
            (moved_later order sum refused')
      · exact .endless
termination_by rounds

theorem ends_map {f : α → β} (related : ∀ a b, R a b → S (f a) (f b)) {o o' : Outcome κ α}
    (h : Ends P R o o') :
    Ends P S (o.map fun a => ⟨f a.value, a.rest, a.furthest⟩)
      (o'.map fun a => ⟨f a.value, a.rest, a.furthest⟩) := by
  cases h with
  | accepted value moved refused => exact .accepted (related _ _ value) moved refused
  | refused moved => exact .refused moved
  | endless => exact .endless

theorem ends_filterMap (order : KeepsOrder P) (description : String) {f : α → Option β}
    (related : ∀ a b, R a b → Option.Rel S (f a) (f b)) {p : Cursor κ → Outcome κ α}
    (hp : ∀ {c c'}, c.Moved P c' → Ends P R (p c) (p c')) {c c' : Cursor κ}
    (start : c.Moved P c') :
    Ends P S (runFilterMap description f p c) (runFilterMap description f p c') := by
  have first := hp start
  unfold runFilterMap
  generalize p c = o, p c' = o' at first
  cases first with
  | refused moved => exact .refused moved
  | endless => exact .endless
  | @accepted a a' _ _ _ _ value moved refused =>
    have found := related a a' value
    dsimp only
    generalize f a = b, f a' = b' at found
    cases found with
    | some value => exact .accepted value moved refused
    | none => exact .refused ((Expectation.Moved.here start _).mergeWith order refused)

/-- The functions of the grammar take related values to related values, from the tokens on. -/
inductive Respects (T : Token κ → Token κ → Prop) (N : (n : ν) → τ n → τ n → Prop) :
    {α : Type} → (α → α → Prop) → Grammar κ τ α → Prop where
  | token (kind : κ) : Respects T N T (.token kind)
  | keyword (kind : κ) (text : String) : Respects T N T (.keyword kind text)
  | finish : Respects T N Eq .finish
  | seq {α β : Type} {R : α → α → Prop} {S : β → β → Prop} {p : Grammar κ τ α} {q : Grammar κ τ β}
      (first : Respects T N R p) (second : Respects T N S q) :
      Respects T N (fun a b => R a.1 b.1 ∧ S a.2 b.2) (.seq p q)
  | either {α : Type} {R : α → α → Prop} {p q : Grammar κ τ α} (first : Respects T N R p)
      (second : Respects T N R q) : Respects T N R (.either p q)
  | many {α : Type} {R : α → α → Prop} {p : Grammar κ τ α} (item : Respects T N R p) (least : Nat)
      (most : Option Nat) : Respects T N (List.Forall₂ R) (.many p least most)
  | sepBy1 {α β : Type} {R : α → α → Prop} {S : β → β → Prop} {p : Grammar κ τ α}
      {s : Grammar κ τ β} (item : Respects T N R p) (separator : Respects T N S s) :
      Respects T N (List.Forall₂ R) (.sepBy1 p s)
  | map {α β : Type} {R : α → α → Prop} {S : β → β → Prop} {p : Grammar κ τ α} {f : α → β}
      (inner : Respects T N R p) (related : ∀ a b, R a b → S (f a) (f b)) :
      Respects T N S (.map f p)
  | filterMap {α β : Type} {R : α → α → Prop} {S : β → β → Prop} {p : Grammar κ τ α}
      {f : α → Option β} (description : String) (inner : Respects T N R p)
      (related : ∀ a b, R a b → Option.Rel S (f a) (f b)) :
      Respects T N S (.filterMap description f p)
  | named (n : ν) : Respects T N (N n) (.named n)

variable [DecidableEq κ] [TokenKind κ] {N : (n : ν) → τ n → τ n → Prop}

theorem ends_interpret (order : KeepsOrder P) {call : (n : ν) → Cursor κ → Outcome κ (τ n)}
    (calls : ∀ n {c c'}, c.Moved P c' → Ends P (N n) (call n c) (call n c')) {g : Grammar κ τ α}
    (h : Respects (Token.Moved P) N R g) {c c' : Cursor κ} (start : c.Moved P c') :
    Ends P R (interpret call g c) (interpret call g c') := by
  induction h generalizing c c' with
  | token kind =>
    exact ends_takeToken (fun t t' moved => by rw [moved.kind]) _ start
  | keyword kind text =>
    exact ends_takeToken (fun t t' moved => by rw [moved.kind, moved.text]) _ start
  | finish => exact ends_takeFinish start
  | seq first second ihp ihq => exact ends_seq order ihp ihq start
  | either first second ihp ihq => exact ends_either order ihp ihq start
  | many item least most ih =>
    -- as many tokens are left to both, so both have as many rounds
    unfold interpret
    rw [start.remaining]
    exact ends_many order ih least most _ .nil start .none
  | sepBy1 item separator ih ihs =>
    have first := ih start
    unfold interpret
    generalize interpret call _ c = o, interpret call _ c' = o' at first
    cases first with
    | refused moved => exact .refused moved
    | endless => exact .endless
    | accepted value moved refused =>
      dsimp only
      rw [moved.remaining]
      exact ends_separated order ih ihs _ (.cons value .nil) moved refused
  | map inner related ih => exact ends_map related (ih start)
  | filterMap description inner related ih => exact ends_filterMap order description related ih start
  | named n => exact calls n start

theorem ends_call (order : KeepsOrder P) {rules : Rules κ τ}
    (bodies : ∀ n, Respects (Token.Moved P) N (N n) (rules.body n)) (depth : Nat) (n : ν)
    {c c' : Cursor κ} (start : c.Moved P c') :
    Ends P (N n) (rules.call depth n c) (rules.call depth n c') := by
  induction depth generalizing n c c' with
  | zero => exact .endless
  | succ depth ih => exact ends_interpret order ih (bodies n) start

inductive EndsAll (P : Text.Position → Text.Position → Prop) (R : α → α → Prop) :
    Except Failure α → Except Failure α → Prop where
  | accepted {v v' : α} (value : R v v') : EndsAll P R (.ok v) (.ok v')
  | refused {e e' : Expectation} (moved : e.Moved P e') :
      EndsAll P R (.error (.expected e)) (.error (.expected e'))
  | endless : EndsAll P R (.error .endless) (.error .endless)

omit [DecidableEq κ] [TokenKind κ] in
theorem endsAll_requireEnd (order : KeepsOrder P) {o o' : Outcome κ α} (h : Ends P R o o') :
    EndsAll P R (requireEnd o) (requireEnd o') := by
  cases h with
  | refused moved => exact .refused moved
  | endless => exact .endless
  | accepted value moved refused =>
    cases moved with
    | finished place => exact .accepted value
    | token head rest =>
      exact .refused ((Expectation.Moved.here (.token head rest) _).mergeWith order refused)

theorem endsAll_parseAll (order : KeepsOrder P) {rules : Rules κ τ}
    (bodies : ∀ n, Respects (Token.Moved P) N (N n) (rules.body n)) {g : Grammar κ τ α}
    (h : Respects (Token.Moved P) N R g) {c c' : Cursor κ} (start : c.Moved P c') :
    EndsAll P R (parseAll rules g c) (parseAll rules g c') := by
  have depth : rules.depth c = rules.depth c' := by
    rw [Rules.depth, Rules.depth, start.remaining]
  have calls (n : ν) {d d' : Cursor κ} (moved : d.Moved P d') :=
    ends_call order bodies (rules.depth c') n moved
  unfold parseAll run
  rw [depth]
  exact endsAll_requireEnd order (ends_interpret order calls h start)

end Grammar

end Wordhoard
