import Wordhoard.Proofs.Pattern.Search
import Wordhoard.Proofs.Pattern.Takes

/-! The texts that a pattern stands for, whatever stands around them. Main statement: whatever is cut into
tokens, the text of each token is one that its rule stands for. -/
namespace Wordhoard

namespace Pattern

def Rounds (L : List Char → Prop) (least : Nat) (xs : List Char) : Prop :=
  ∃ pieces, xs = List.flatten pieces ∧ least ≤ pieces.length ∧ ∀ ys ∈ pieces, L ys

/-- What a pattern matches, if the anchors and boundaries in it agree. -/
def Spans : Pattern → List Char → Prop
  | one set, xs => ∃ c, xs = [c] ∧ set.contains c = true
  | seq p q, xs => ∃ ys zs, xs = ys ++ zs ∧ p.Spans ys ∧ q.Spans zs
  | either p q, xs => p.Spans xs ∨ q.Spans xs
  | loop p _ least _, xs => Rounds p.Spans least xs
  | empty, xs => xs = []
  | textStart, xs => xs = []
  | textEnd, xs => xs = []
  | lineStart _, xs => xs = []
  | lineEnd _, xs => xs = []
  | boundary _ _, xs => xs = []

def Consumes (m : Matcher) (L : List Char → Prop) : Prop :=
  ∀ s k e, m s k = some e → ∃ xs s', s.after = xs ++ s'.after ∧ L xs ∧ k s' = some e

variable {m : Matcher} {L : List Char → Prop} {n least : Nat} {xs ys : List Char} {s e : Spot}
  {k : Spot → Option Spot}

theorem rounds_none : Rounds L 0 [] := ⟨[], rfl, Nat.le_refl 0, List.forall_mem_nil _⟩

theorem Rounds.cons (h : L xs) (others : Rounds L least ys) : Rounds L (least + 1) (xs ++ ys) := by
  obtain ⟨pieces, rfl, enough, each⟩ := others
  refine ⟨xs :: pieces, rfl, ?_, List.forall_mem_cons.2 ⟨h, each⟩⟩
  exact Nat.succ_le_succ enough

theorem Rounds.mono (h : Rounds L n xs) (le : least ≤ n) : Rounds L least xs := by
  obtain ⟨pieces, same, enough, each⟩ := h
  exact ⟨pieces, same, Nat.le_trans le enough, each⟩

theorem Rounds.append (h : Rounds L n xs) (h' : Rounds L least ys) :
    Rounds L (n + least) (xs ++ ys) := by
  obtain ⟨pieces, rfl, enough, each⟩ := h
  obtain ⟨pieces', rfl, enough', each'⟩ := h'
  refine ⟨pieces ++ pieces', List.flatten_append.symm, ?_, List.forall_mem_append.2 ⟨each, each'⟩⟩
  rw [List.length_append]
  exact Nat.add_le_add enough enough'

theorem consumes_here (h : k s = some e) (none : L []) :
    ∃ xs s', s.after = xs ++ s'.after ∧ L xs ∧ k s' = some e :=
  ⟨[], s, rfl, none, h⟩

theorem consumes_guarded {holds : Bool} (h : guarded holds s k = some e) :
    ∃ xs s', s.after = xs ++ s'.after ∧ xs = [] ∧ k s' = some e := by
  unfold guarded at h
  split at h
  · exact consumes_here h rfl
  · cases h

theorem Consumes.round {m' : Matcher} (h : Consumes m L) (h' : Consumes m' (Rounds L least))
    (found : m s (fun s' => m' s' k) = some e) :
    ∃ xs s', s.after = xs ++ s'.after ∧ Rounds L (least + 1) xs ∧ k s' = some e := by
  obtain ⟨xs, between, split, here, more⟩ := h _ _ _ found
  obtain ⟨ys, s', split', others, last⟩ := h' _ _ _ more
  exact ⟨xs ++ ys, s', by rw [split, split', List.append_assoc], .cons here others, last⟩

theorem consumes_times (h : Consumes m L) (n : Nat) : Consumes (times m n) (Rounds L n) := by
  induction n with
  | zero => exact fun s k e found => consumes_here found rounds_none
  | succ n ih => exact fun s k e found => h.round ih found

theorem consumes_upTo (h : Consumes m L) (greedy : Bool) (n : Nat) :
    Consumes (upTo m greedy n) (Rounds L 0) := by
  induction n with
  | zero => exact fun s k e found => consumes_here found rounds_none
  | succ n ih =>
    intro s k e found
    rcases round_or_rest (m s fun s' => upTo m greedy n s' k) found with again | done
    · obtain ⟨xs, s', split, rounds, last⟩ := h.round ih again
      exact ⟨xs, s', split, rounds.mono (Nat.zero_le _), last⟩
    · exact consumes_here done rounds_none

theorem consumes_star (h : Consumes m L) (greedy : Bool) (n : Nat) :
    Consumes (star m greedy n) (Rounds L 0) := by
  induction n with
  | zero => exact fun s k e found => consumes_here found rounds_none
  | succ n ih =>
    intro s k e found
    rcases round_or_rest (m s fun s' =>
        if s'.after.length < s.after.length then star m greedy n s' k else k s') found with
      again | done
    · obtain ⟨xs, between, split, here, more⟩ := h _ _ _ again
      split at more
      · obtain ⟨ys, s', split', others, last⟩ := ih _ _ _ more
        refine ⟨xs ++ ys, s', by rw [split, split', List.append_assoc], ?_, last⟩
        exact (Rounds.cons here others).mono (Nat.zero_le _)
      · refine ⟨xs, between, split, ?_, more⟩
        have one := Rounds.cons here rounds_none
        rw [List.append_nil] at one
        exact one.mono (Nat.zero_le _)
    · exact consumes_here done rounds_none

theorem consumes_run (p : Pattern) : Consumes p.run p.Spans := by
  induction p with
  | empty => exact fun s k e found => consumes_here found rfl
  | one set =>
    intro s k e found
    obtain ⟨before, after⟩ := s
    cases after with
    | nil => cases found
    | cons c rest =>
      simp only [run] at found
      split at found
      · rename_i member
        exact ⟨[c], _, rfl, ⟨c, rfl, member⟩, found⟩
      · cases found
  | textStart => exact fun s k e found => consumes_guarded found
  | textEnd => exact fun s k e found => consumes_guarded found
  | lineStart crlf => exact fun s k e found => consumes_guarded found
  | lineEnd crlf => exact fun s k e found => consumes_guarded found
  | boundary kind word => exact fun s k e found => consumes_guarded found
  | seq p q ihp ihq =>
    intro s k e found
    obtain ⟨xs, between, split, first, more⟩ := ihp _ _ _ found
    obtain ⟨ys, s', split', second, last⟩ := ihq _ _ _ more
    exact ⟨xs ++ ys, s', by rw [split, split', List.append_assoc], ⟨xs, ys, rfl, first, second⟩, last⟩
  | either p q ihp ihq =>
    intro s k e found
    simp only [run] at found
    cases left : p.run s k with
    | some e' =>
      rw [left] at found
      obtain ⟨xs, s', split, spans, last⟩ := ihp _ _ _ (left.trans found)
      exact ⟨xs, s', split, .inl spans, last⟩
    | none =>
      rw [left] at found
      obtain ⟨xs, s', split, spans, last⟩ := ihq _ _ _ found
      exact ⟨xs, s', split, .inr spans, last⟩
  | loop p greedy least most ih =>
    intro s k e found
    obtain ⟨xs, between, split, rounds, more⟩ := consumes_times ih least _ _ _ found
    have rest : ∃ ys s', between.after = ys ++ s'.after ∧ Rounds p.Spans 0 ys ∧ k s' = some e := by
      cases most with
      | none => exact consumes_star ih greedy _ _ _ _ more
      | some n => exact consumes_upTo ih greedy _ _ _ _ more
    obtain ⟨ys, s', split', others, last⟩ := rest
    exact ⟨xs ++ ys, s', by rw [split, split', List.append_assoc], rounds.append others, last⟩

theorem spans_of_cut? {p : Pattern} {s piece rest : List Char} (h : p.cut? s = some (piece, rest)) :
    p.Spans piece := by
  obtain ⟨e, found, same⟩ := Option.map_eq_some_iff.1 h
  obtain ⟨xs, s', split, spans, last⟩ := consumes_run p _ _ _ found
  cases last
  cases same
  dsimp only at split ⊢
  rw [split]
  simpa using spans

theorem spans_literal {cs : List Char} (h : (literal cs).Spans xs) : xs = cs := by
  induction cs generalizing xs with
  | nil => exact h
  | cons c others ih =>
    obtain ⟨ys, zs, rfl, ⟨d, rfl, single⟩, rest⟩ := h
    rw [CharSet.contains_single.1 single, ih rest]
    rfl

theorem spans_literals (others : List String) {last : List Char}
    (h : (others.foldr (fun s p => either (literal s.toList) p) (literal last)).Spans xs) :
    (∃ s ∈ others, xs = s.toList) ∨ xs = last := by
  induction others with
  | nil => exact .inr (spans_literal h)
  | cons s others ih =>
    rcases h with first | further
    · exact .inl ⟨s, List.mem_cons_self, spans_literal first⟩
    · rcases ih further with ⟨t, listed, same⟩ | same
      · exact .inl ⟨t, List.mem_cons_of_mem _ listed, same⟩
      · exact .inr same

theorem spans_one_flatten {set : CharSet} {pieces : List (List Char)}
    (h : ∀ ys ∈ pieces, (one set).Spans ys) : ∀ c ∈ pieces.flatten, set.contains c = true := by
  intro c mem
  obtain ⟨ys, here, inside⟩ := List.mem_flatten.1 mem
  obtain ⟨d, rfl, member⟩ := h ys here
  rwa [List.mem_singleton.1 inside]

theorem spans_many1 {set : CharSet} (h : (many1 set).Spans xs) :
    xs ≠ [] ∧ ∀ c ∈ xs, set.contains c = true := by
  obtain ⟨pieces, rfl, enough, each⟩ := h
  refine ⟨?_, spans_one_flatten each⟩
  cases pieces with
  | nil => cases enough
  | cons ys others =>
    obtain ⟨⟨c, rfl, -⟩, -⟩ := List.forall_mem_cons.1 each
    exact List.cons_ne_nil _ _

def lacks (qs : List (Nat × Nat)) : Pattern → Bool
  | one set => set.misses qs
  | seq p q => p.lacks qs && q.lacks qs
  | either p q => p.lacks qs && q.lacks qs
  | loop p _ _ _ => p.lacks qs
  | _ => true

theorem not_inRanges_of_spans {p : Pattern} {qs : List (Nat × Nat)} (lacks : p.lacks qs)
    (h : p.Spans xs) : ∀ c ∈ xs, Text.inRanges qs c = false := by
  induction p generalizing xs with
  | one set =>
    obtain ⟨c, rfl, member⟩ := h
    intro d mem
    cases List.mem_singleton.1 mem
    refine Bool.eq_false_iff.2 fun inside => ?_
    rw [CharSet.not_contains_of_misses lacks inside] at member
    cases member
  | seq p q ihp ihq =>
    obtain ⟨ys, zs, rfl, first, second⟩ := h
    rw [Pattern.lacks, Bool.and_eq_true] at lacks
    exact List.forall_mem_append.2 ⟨ihp lacks.1 first, ihq lacks.2 second⟩
  | either p q ihp ihq =>
    rw [Pattern.lacks, Bool.and_eq_true] at lacks
    exact h.elim (ihp lacks.1) (ihq lacks.2)
  | loop p greedy least most ih =>
    obtain ⟨pieces, rfl, -, each⟩ := h
    intro c mem
    obtain ⟨ys, piece, inside⟩ := List.mem_flatten.1 mem
    exact ih lacks (each ys piece) c inside
  | _ =>
    cases h
    exact List.forall_mem_nil _

end Pattern

namespace Rule

variable {κ : Type} {rules : List (Rule κ)}

theorem spans_of_first? {s piece rest : List Char} {r : Rule κ}
    (h : first? rules s = some (r, piece, rest)) : r ∈ rules ∧ r.pattern.Spans piece := by
  obtain ⟨r', mem, cut⟩ := List.exists_of_findSome?_eq_some h
  obtain ⟨⟨piece', rest'⟩, found, same⟩ := Option.map_eq_some_iff.1 cut
  cases same
  have off : r.pattern.cut? s = some (piece, rest) := by
    unfold cut? at found
    split at found
    · cases found
    · exact found
  exact ⟨mem, Pattern.spans_of_cut? off⟩

/-- The rules stand for the texts of their tokens. -/
theorem spans_of_mem_scan {t : Token κ} (n : Nat) (m : Text.Mark) (s : List Char)
    (mem : t ∈ (scan rules n m s).tokens) :
    ∃ r ∈ rules, t.kind = r.kind ∧ r.pattern.Spans t.text.toList := by
  induction n generalizing m s with
  | zero => cases s <;> cases mem
  | succ n ih =>
    cases s with
    | nil => cases mem
    | cons c others =>
      unfold scan at mem
      split at mem
      · cases mem
      · rename_i r piece rest found
        obtain ⟨listed, spans⟩ := spans_of_first? found
        dsimp only at mem
        split at mem
        · rcases List.mem_cons.1 mem with rfl | later
          · refine ⟨r, listed, rfl, ?_⟩
            rw [token, String.toList_ofList]
            exact spans
          · exact ih _ _ later
        · exact ih _ _ mem

end Rule

end Wordhoard
