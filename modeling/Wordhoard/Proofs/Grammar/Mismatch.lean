import Wordhoard.Grammar.Basic

/-! What a run of a grammar refuses on its way, in the branches it gives up too. A watched run takes
the same turns as a run, but it keeps every mismatch and merges none. Main statement: the refusal
that a run reports sums up the mismatches furthest into the text. -/
namespace Wordhoard.Grammar

open Expectation (later)

variable {κ ν : Type} {τ : ν → Type} {α β γ : Type}

/-- A place where something was refused, and the description of what would have been taken. -/
structure Mismatch (κ : Type) where
  place : Cursor κ
  description : String

inductive Verdict (κ α : Type) where
  | accepted (value : α) (rest : Cursor κ)
  | refused
  | tokenize (error : TokenizeError)
  | endless

/-- The end of a run, and its mismatches in the order in which they happened. -/
structure Watched (κ α : Type) where
  verdict : Verdict κ α
  mismatches : List (Mismatch κ)

namespace Watched

def accept (value : α) (rest : Cursor κ) : Watched κ α := ⟨.accepted value rest, []⟩

def refuse : Watched κ α := ⟨.refused, []⟩

def mismatch (place : Cursor κ) (description : String) : Watched κ α :=
  ⟨.refused, [⟨place, description⟩]⟩

def after (earlier : List (Mismatch κ)) (w : Watched κ α) : Watched κ α :=
  { w with mismatches := earlier ++ w.mismatches }

def next (w : Watched κ α) (accepted : α → Cursor κ → Watched κ β) (refused : Watched κ β) :
    Watched κ β :=
  match w.verdict with
  | .accepted value rest => (accepted value rest).after w.mismatches
  | .refused => refused.after w.mismatches
  | .tokenize e => ⟨.tokenize e, w.mismatches⟩
  | .endless => ⟨.endless, w.mismatches⟩

@[simp] theorem after_verdict (earlier : List (Mismatch κ)) (w : Watched κ α) :
    (w.after earlier).verdict = w.verdict := rfl

theorem next_accepted {w : Watched κ α} {value : α} {rest : Cursor κ}
    (h : w.verdict = .accepted value rest) (f : α → Cursor κ → Watched κ β) (r : Watched κ β) :
    w.next f r = (f value rest).after w.mismatches := by
  simp only [next, h]

theorem next_refused {w : Watched κ α} (h : w.verdict = .refused)
    (f : α → Cursor κ → Watched κ β) (r : Watched κ β) : w.next f r = r.after w.mismatches := by
  simp only [next, h]

theorem verdict_next_accepted {w : Watched κ α} {value : α} {rest : Cursor κ}
    (h : w.verdict = .accepted value rest) (f : α → Cursor κ → Watched κ β) (r : Watched κ β) :
    (w.next f r).verdict = (f value rest).verdict := by
  rw [next_accepted h, after_verdict]

theorem verdict_next_refused {w : Watched κ α} (h : w.verdict = .refused)
    (f : α → Cursor κ → Watched κ β) (r : Watched κ β) : (w.next f r).verdict = r.verdict := by
  rw [next_refused h, after_verdict]

theorem next_tokenize {w : Watched κ α} {e : TokenizeError} (h : w.verdict = .tokenize e)
    (f : α → Cursor κ → Watched κ β) (r : Watched κ β) :
    (w.next f r).verdict = .tokenize e := by
  simp only [next, h]

theorem next_endless {w : Watched κ α} (h : w.verdict = .endless)
    (f : α → Cursor κ → Watched κ β) (r : Watched κ β) : (w.next f r).verdict = .endless := by
  simp only [next, h]

theorem mem_next {w : Watched κ α} {m : Mismatch κ} (hm : m ∈ w.mismatches)
    {f : α → Cursor κ → Watched κ β} {r : Watched κ β} : m ∈ (w.next f r).mismatches := by
  cases verdict : w.verdict with
  | accepted v rest =>
    rw [next_accepted verdict]
    exact List.mem_append_left _ hm
  | refused =>
    rw [next_refused verdict]
    exact List.mem_append_left _ hm
  | tokenize e => simpa only [next, verdict] using hm
  | endless => simpa only [next, verdict] using hm

end Watched

open Watched (accept refuse mismatch)

def watchToken (fits : Token κ → Bool) (description : String) (c : Cursor κ) :
    Watched κ (Token κ) :=
  match c with
  | .token t next =>
    if fits t then
      match next.enter with
      | .ok rest => accept t rest
      | .error e => ⟨.tokenize e, []⟩
    else mismatch c description
  | .finished _ => mismatch c description

def watchFinish (c : Cursor κ) : Watched κ Unit :=
  match c with
  | .finished _ => accept () c
  | .token _ _ => mismatch c "end of input"

/-- A repetition that ends by itself with too few items is a mismatch. -/
def watchClose (least : Nat) (values : List α) (rest : Cursor κ) : Watched κ (List α) :=
  if values.length < least then mismatch rest s!"at least {least} repetitions"
  else accept values rest

def watchMany (item : Cursor κ → Watched κ α) (least : Nat) (most : Option Nat) (rounds : Nat)
    (values : List α) (rest : Cursor κ) : Watched κ (List α) :=
  if most.all (values.length < ·) then
    (item rest).next
      (fun value rest' =>
        if rest'.remaining < rest.remaining then
          match rounds with
          | n + 1 => watchMany item least most n (values ++ [value]) rest'
          | 0 => watchClose least (values ++ [value]) rest'
        else watchClose least (values ++ [value]) rest')
      (if values.length < least then refuse else accept values rest)
  else watchClose least values rest

def watchSeparated (item : Cursor κ → Watched κ α) (separator : Cursor κ → Watched κ β)
    (rounds : Nat) (values : List α) (rest : Cursor κ) : Watched κ (List α) :=
  (separator rest).next
    (fun _ between =>
      (item between).next
        (fun value rest' =>
          if rest'.remaining < rest.remaining then
            match rounds with
            | n + 1 => watchSeparated item separator n (values ++ [value]) rest'
            | 0 => ⟨.endless, []⟩
          else ⟨.endless, []⟩)
        (accept values rest))
    (accept values rest)

section

variable [DecidableEq κ] [TokenKind κ]

/-- Watches a grammar run at a cursor; `call` watches the named ones. -/
def watch (call : (n : ν) → Cursor κ → Watched κ (τ n)) :
    {α : Type} → Grammar κ τ α → Cursor κ → Watched κ α
  | _, token kind, c => watchToken (·.kind = kind) (TokenKind.describe kind) c
  | _, keyword kind text, c =>
    watchToken (fun t => t.kind = kind && sameIgnoringCase t.text text) ("'" ++ text ++ "'") c
  | _, finish, c => watchFinish c
  | _, seq p q, c =>
    (watch call p c).next (fun a rest => (watch call q rest).next (fun b => accept (a, b)) refuse)
      refuse
  | _, either p q, c => (watch call p c).next accept (watch call q c)
  | _, many p least most, c => watchMany (watch call p) least most c.remaining [] c
  | _, sepBy1 p s, c =>
    (watch call p c).next
      (fun a rest => watchSeparated (watch call p) (watch call s) rest.remaining [a] rest) refuse
  | _, map f p, c => (watch call p c).next (fun a => accept (f a)) refuse
  | _, filterMap description f p, c =>
    (watch call p c).next
      (fun a rest =>
        match f a with
        | some b => accept b rest
        | none => mismatch c description) refuse
  | _, named n, c => call n c

def Rules.watchCall (rules : Rules κ τ) : Nat → (n : ν) → Cursor κ → Watched κ (τ n)
  | 0, _, _ => ⟨.endless, []⟩
  | depth + 1, n, c => watch (rules.watchCall depth) (rules.body n) c

end

/-- Asks of a watched run that it took the whole text; tokens left over are a mismatch. -/
def watchEnd (w : Watched κ α) : Watched κ α :=
  w.next
    (fun value rest =>
      match rest with
      | .finished _ => accept value rest
      | .token _ _ => mismatch rest "end of input") refuse

def LeftOver (w : Watched κ α) (rest : Cursor κ) : Prop :=
  ∃ v t next, w.verdict = .accepted v rest ∧ rest = .token t next

theorem mem_watchEnd {w : Watched κ α} {m : Mismatch κ} :
    m ∈ (watchEnd w).mismatches ↔
      m ∈ w.mismatches ∨ LeftOver w m.place ∧ m.description = "end of input" := by
  constructor
  · intro hm
    unfold watchEnd at hm
    cases verdict : w.verdict with
    | refused =>
      rw [Watched.next_refused verdict] at hm
      exact .inl (by simpa [refuse, Watched.after] using hm)
    | tokenize e => exact .inl (by simpa [Watched.next, verdict] using hm)
    | endless => exact .inl (by simpa [Watched.next, verdict] using hm)
    | accepted v rest =>
      rw [Watched.next_accepted verdict] at hm
      rcases List.mem_append.1 hm with earlier | last
      · exact .inl earlier
      · cases rest with
        | finished p => cases last
        | token t next =>
          rw [List.mem_singleton.1 last]
          exact .inr ⟨⟨v, t, next, verdict, rfl⟩, rfl⟩
  · rintro (earlier | ⟨⟨v, t, next, accepted, place⟩, described⟩)
    · exact Watched.mem_next earlier
    · obtain ⟨_, _⟩ := m
      subst place described
      rw [watchEnd, Watched.next_accepted accepted]
      exact List.mem_append_right _ (List.mem_singleton.2 rfl)

theorem refused_watchEnd {w : Watched κ α} (h : (watchEnd w).verdict = .refused) :
    w.verdict = .refused ∨ ∃ rest, LeftOver w rest := by
  unfold watchEnd at h
  cases verdict : w.verdict with
  | refused => exact .inl rfl
  | tokenize e => rw [Watched.next_tokenize verdict] at h; cases h
  | endless => rw [Watched.next_endless verdict] at h; cases h
  | accepted v rest =>
    rw [Watched.verdict_next_accepted verdict] at h
    cases rest with
    | finished p => cases h
    | token t next => exact .inr ⟨_, v, t, next, verdict, rfl⟩

end Wordhoard.Grammar
