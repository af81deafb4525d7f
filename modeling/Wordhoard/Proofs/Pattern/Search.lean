import Wordhoard.Pattern.Basic

/-! Matches in a text. The leftmost place counts, and there the match that the pattern prefers.
Main statement: a cut is a match that begins at the start of the text. -/
namespace Wordhoard.Pattern

structure Found where
  before : List Char
  matched : List Char
  after : List Char

def searchFrom (p : Pattern) (passed : List Char) (before : Option Char) (s : List Char) :
    Option Found :=
  match p.run ⟨before, s⟩ some with
  | some e => some ⟨passed, s.take (s.length - e.after.length), e.after⟩
  | none =>
    match s with
    | [] => none
    | c :: rest => searchFrom p (passed ++ [c]) (some c) rest

def search? (p : Pattern) (s : List Char) : Option Found := p.searchFrom [] none s

variable {p : Pattern} {m : Matcher} {s piece rest : List Char}

/-- What a matcher ends in, its continuation gave it at a spot further on. -/
def Forward (m : Matcher) : Prop :=
  ∀ s k e, m s k = some e → ∃ s', s'.after <:+ s.after ∧ k s' = some e

theorem forward_here {k : Spot → Option Spot} {s e : Spot} (h : k s = some e) :
    ∃ s', s'.after <:+ s.after ∧ k s' = some e :=
  ⟨s, List.suffix_rfl, h⟩

theorem forward_guarded {holds : Bool} {k : Spot → Option Spot} {s e : Spot}
    (h : guarded holds s k = some e) : ∃ s', s'.after <:+ s.after ∧ k s' = some e := by
  unfold guarded at h
  split at h
  · exact forward_here h
  · cases h

theorem Forward.next {m m' : Matcher} (h : Forward m) (h' : Forward m') {s e : Spot}
    {k : Spot → Option Spot} (found : m s (fun s' => m' s' k) = some e) :
    ∃ s', s'.after <:+ s.after ∧ k s' = some e := by
  obtain ⟨between, moved, more⟩ := h _ _ _ found
  obtain ⟨s', moved', last⟩ := h' _ _ _ more
  exact ⟨s', moved'.trans moved, last⟩

theorem forward_times (h : Forward m) (n : Nat) : Forward (times m n) := by
  induction n with
  | zero => exact fun s k e found => forward_here found
  | succ n ih => exact fun s k e found => h.next ih found

theorem round_or_rest (round : Option Spot) {greedy : Bool} {k : Spot → Option Spot} {s e : Spot}
    (h : (if greedy then (match round with | some e => some e | none => k s)
      else (match k s with | some e => some e | none => round)) = some e) :
    round = some e ∨ k s = some e := by
  cases greedy
  · cases here : k s with
    | some e' => exact .inr (by simpa [here] using h)
    | none => exact .inl (by simpa [here] using h)
  · cases again : round with
    | some e' => exact .inl (by simpa [again] using h)
    | none => exact .inr (by simpa [again] using h)

theorem forward_upTo (h : Forward m) (greedy : Bool) (n : Nat) : Forward (upTo m greedy n) := by
  induction n with
  | zero => exact fun s k e found => forward_here found
  | succ n ih =>
    intro s k e found
    rcases round_or_rest (m s fun s' => upTo m greedy n s' k) found with again | done
    · exact h.next ih again
    · exact forward_here done

theorem forward_star (h : Forward m) (greedy : Bool) (n : Nat) : Forward (star m greedy n) := by
  induction n with
  | zero => exact fun s k e found => forward_here found
  | succ n ih =>
    intro s k e found
    rcases round_or_rest (m s fun s' =>
        if s'.after.length < s.after.length then star m greedy n s' k else k s') found with
      again | done
    · obtain ⟨between, moved, more⟩ := h _ _ _ again
      split at more
      · obtain ⟨s', moved', last⟩ := ih _ _ _ more
        exact ⟨s', moved'.trans moved, last⟩
      · exact ⟨between, moved, more⟩
    · exact forward_here done

theorem forward_run (p : Pattern) : Forward p.run := by
  induction p with
  | empty => exact fun s k e found => forward_here found
  | one set =>
    intro s k e found
    obtain ⟨before, after⟩ := s
    cases after with
    | nil => cases found
    | cons c rest =>
      simp only [run] at found
      split at found
      · exact ⟨_, List.suffix_cons c rest, found⟩
      · cases found
  | textStart => exact fun s k e found => forward_guarded found
  | textEnd => exact fun s k e found => forward_guarded found
  | lineStart crlf => exact fun s k e found => forward_guarded found
  | lineEnd crlf => exact fun s k e found => forward_guarded found
  | boundary kind word => exact fun s k e found => forward_guarded found
  | seq p q ihp ihq => exact fun s k e found => ihp.next ihq found
  | either p q ihp ihq =>
    intro s k e found
    simp only [run] at found
    cases left : p.run s k with
    | some e' =>
      rw [left] at found
      exact ihp _ _ _ (left.trans found)
    | none =>
      rw [left] at found
      exact ihq _ _ _ found
  | loop p greedy least most ih =>
    intro s k e found
    obtain ⟨between, moved, more⟩ := forward_times ih least _ _ _ found
    cases most with
    | none =>
      obtain ⟨s', moved', last⟩ := forward_star ih greedy _ _ _ _ more
      exact ⟨s', moved'.trans moved, last⟩
    | some n =>
      obtain ⟨s', moved', last⟩ := forward_upTo ih greedy _ _ _ _ more
      exact ⟨s', moved'.trans moved, last⟩

theorem append_of_cut? (h : p.cut? s = some (piece, rest)) : s = piece ++ rest := by
  obtain ⟨e, found, same⟩ := Option.map_eq_some_iff.1 h
  obtain ⟨s', suffix, last⟩ := forward_run p _ _ _ found
  cases last
  cases same
  exact (List.suffix_iff_eq_append.1 suffix).symm

theorem passed_of_searchFrom {passed : List Char} {before : Option Char} {f : Found}
    (h : p.searchFrom passed before s = some f) : passed <+: f.before := by
  induction s generalizing passed before with
  | nil =>
    unfold searchFrom at h
    split at h
    · cases h; exact List.prefix_rfl
    · cases h
  | cons c others ih =>
    unfold searchFrom at h
    split at h
    · cases h; exact List.prefix_rfl
    · exact (List.prefix_append _ _).trans (ih h)

theorem search?_eq_start_iff :
    p.search? s = some ⟨[], piece, rest⟩ ↔ p.cut? s = some (piece, rest) := by
  unfold search? searchFrom cut? matchStart
  cases p.run ⟨none, s⟩ some with
  | some e => simp
  | none =>
    cases s with
    | nil => simp
    | cons c others =>
      simp only [List.nil_append, Option.map_none, reduceCtorEq, iff_false]
      intro later
      exact List.cons_ne_nil _ _ (List.prefix_nil.1 (passed_of_searchFrom later))

end Wordhoard.Pattern
