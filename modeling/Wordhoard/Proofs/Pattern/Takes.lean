import Wordhoard.Token.Rule

/-! How a matcher goes through a text that it prefers: it takes one part before a rest, or refuses
the rest at once. Main statement: a rule cuts off what its pattern takes. -/
namespace Wordhoard

namespace Pattern

/-- Before the rest the matcher prefers to take these characters, provided that it may go on
there. -/
def Takes (m : Matcher) (xs rest : List Char) : Prop :=
  ∀ b k, (∀ b', (k ⟨b', rest⟩).isSome) → ∃ b', m ⟨b, xs ++ rest⟩ k = k ⟨b', rest⟩

def Refuses (m : Matcher) (rest : List Char) : Prop := ∀ b k, m ⟨b, rest⟩ k = none

variable {p q : Pattern} {m : Matcher} {xs ys rest : List Char} {set : CharSet} {c : Char}

theorem CharSet.contains_single {d : Char} : (CharSet.single c).contains d ↔ d = c := by
  have same : d = c ↔ c.toNat = d.toNat := by
    rw [eq_comm, Char.toNat_inj]
  simp [CharSet.single, CharSet.contains, Text.inRanges, same]
  omega

theorem CharSet.contains_ofList {cs : List Char} : (CharSet.ofList cs).contains c ↔ c ∈ cs := by
  induction cs with
  | nil => simp [CharSet.ofList, CharSet.contains, Text.inRanges]
  | cons d others ih =>
    have head : (CharSet.single d).contains c ↔ c = d := CharSet.contains_single
    simp only [CharSet.ofList, CharSet.single, CharSet.contains, Text.inRanges, List.map_cons,
      List.any_cons, List.any_nil, Bool.or_false, Bool.or_eq_true, List.mem_cons] at *
    rw [head, ih]

theorem takes_one (h : set.contains c) : Takes (run (.one set)) [c] rest := by
  intro b k _
  refine ⟨some c, ?_⟩
  simp only [run, List.cons_append, List.nil_append, h, if_true]

theorem Takes.seq (hp : Takes p.run xs (ys ++ rest)) (hq : Takes q.run ys rest) :
    Takes (run (.seq p q)) (xs ++ ys) rest := by
  intro b k hk
  obtain ⟨b', first⟩ := hp b (fun s => q.run s k) fun b' => by
    obtain ⟨b'', second⟩ := hq b' k hk
    rw [second]
    exact hk b''
  obtain ⟨b'', second⟩ := hq b' k hk
  refine ⟨b'', ?_⟩
  rw [List.append_assoc]
  exact first.trans second

theorem Takes.left (hp : Takes p.run xs rest) : Takes (run (.either p q)) xs rest := by
  intro b k hk
  obtain ⟨b', first⟩ := hp b k hk
  obtain ⟨e, he⟩ := Option.isSome_iff_exists.1 (hk b')
  refine ⟨b', ?_⟩
  rw [run, first, he]

theorem Takes.right (hp : Refuses p.run (xs ++ rest)) (hq : Takes q.run xs rest) :
    Takes (run (.either p q)) xs rest := by
  intro b k hk
  obtain ⟨b', second⟩ := hq b k hk
  exact ⟨b', by rw [run, hp, second]⟩

theorem takes_star (ends : Refuses m rest) (n : Nat) (pieces : List (List Char))
    (takes : ∀ xs ∈ pieces, xs ≠ [] ∧ ∀ rest, Takes m xs rest)
    (enough : (pieces.flatten ++ rest).length ≤ n) :
    Takes (star m true n) pieces.flatten rest := by
  induction pieces generalizing n with
  | nil =>
    intro b k _
    refine ⟨b, ?_⟩
    cases n with
    | zero => rfl
    | succ n => simp only [star, List.flatten_nil, List.nil_append, ends b, if_true]
  | cons xs others ih =>
    intro b k hk
    obtain ⟨⟨nonempty, first⟩, takes⟩ := List.forall_mem_cons.1 takes
    have length := List.length_pos_iff.2 nonempty
    simp only [List.flatten_cons, List.append_assoc, List.length_append] at enough ⊢
    cases n with
    | zero => omega
    | succ n =>
      have further := ih n takes (by rw [List.length_append]; omega)
      have again (b' : Option Char) : ∃ b'', (if (others.flatten ++ rest).length <
          (xs ++ (others.flatten ++ rest)).length then
          star m true n ⟨b', others.flatten ++ rest⟩ k else k ⟨b', others.flatten ++ rest⟩) =
          k ⟨b'', rest⟩ := by
        rw [if_pos (by simp only [List.length_append]; omega)]
        exact further b' k hk
      obtain ⟨b', turn⟩ := first _ b (fun s' => if s'.after.length <
          (xs ++ (others.flatten ++ rest)).length then star m true n s' k else k s') fun b' => by
        obtain ⟨b'', more⟩ := again b'
        rw [more]
        exact hk b''
      obtain ⟨b'', more⟩ := again b'
      obtain ⟨e, he⟩ := Option.isSome_iff_exists.1 (hk b'')
      refine ⟨b'', ?_⟩
      rw [star, if_pos rfl, turn, more, he]

theorem takes_loop (ends : Refuses p.run rest) (pieces : List (List Char))
    (takes : ∀ xs ∈ pieces, xs ≠ [] ∧ ∀ rest, Takes p.run xs rest) :
    Takes (run (.loop p true 0 none)) pieces.flatten rest := fun b k hk =>
  takes_star ends _ pieces takes (Nat.le_refl _) b k hk

theorem refuses_one (h : ∀ c ∈ rest.head?, set.contains c = false) : Refuses (run (.one set)) rest := by
  intro b k
  cases rest with
  | nil => rfl
  | cons c others => simp only [run, h c rfl, Bool.false_eq_true, if_false]

theorem takes_many (members : ∀ c ∈ xs, set.contains c)
    (ends : ∀ c ∈ rest.head?, set.contains c = false) : Takes (run (.many set)) xs rest := by
  have pieces : ∀ ys ∈ xs.map fun c => [c], ys ≠ [] ∧ ∀ rest, Takes (run (.one set)) ys rest := by
    rintro ys hys
    obtain ⟨c, hc, rfl⟩ := List.mem_map.1 hys
    exact ⟨List.cons_ne_nil _ _, fun rest => takes_one (members c hc)⟩
  have flat : (xs.map fun c => [c]).flatten = xs := by
    rw [← List.flatMap_def, List.flatMap_singleton']
  have taken := takes_loop (refuses_one ends) _ pieces
  rwa [flat] at taken

theorem takes_many1 (members : ∀ c ∈ xs, set.contains c) (nonempty : xs ≠ [])
    (ends : ∀ c ∈ rest.head?, set.contains c = false) : Takes (run (.many1 set)) xs rest := by
  cases xs with
  | nil => exact absurd rfl nonempty
  | cons c others =>
    obtain ⟨first, members⟩ := List.forall_mem_cons.1 members
    exact (takes_one first).seq (takes_many members ends)

theorem takes_literal (cs : List Char) : Takes (run (.literal cs)) cs rest := by
  induction cs with
  | nil => exact fun b k _ => ⟨b, rfl⟩
  | cons c others ih => exact (takes_one (CharSet.contains_single.2 rfl)).seq ih

theorem refuses_literal {cs text : List Char} (h : ¬ cs <+: text) :
    Refuses (run (.literal cs)) text := by
  induction cs generalizing text with
  | nil => exact absurd (List.nil_prefix) h
  | cons c others ih =>
    intro b k
    cases text with
    | nil => rfl
    | cons d text =>
      rw [literal, run, run]
      dsimp only
      split
      · rename_i same
        rw [CharSet.contains_single.1 same, List.cons_prefix_cons] at h
        exact ih (fun more => h ⟨rfl, more⟩) _ _
      · rfl

theorem takes_literals {last : Pattern} {taken : String} (before : List String)
    {after : List String} (none : ∀ s ∈ before, ¬ s.toList <+: taken.toList ++ rest) :
    Takes (run ((before ++ taken :: after).foldr (fun s p => .either (.literal s.toList) p) last))
      taken.toList rest := by
  induction before with
  | nil => exact (takes_literal _).left
  | cons s others ih =>
    obtain ⟨first, none⟩ := List.forall_mem_cons.1 none
    exact (ih none).right (refuses_literal first)

theorem takes_last_literal {xs : List Char} {others : List String}
    (none : ∀ s ∈ others, ¬ s.toList <+: xs ++ rest) :
    Takes (run (others.foldr (fun s p => .either (.literal s.toList) p) (.literal xs))) xs rest := by
  induction others with
  | nil => exact takes_literal xs
  | cons s others ih =>
    obtain ⟨first, none⟩ := List.forall_mem_cons.1 none
    exact (ih none).right (refuses_literal first)

theorem refuses_literals (others : List String) {text : List Char}
    (last : ¬ xs <+: text) (none : ∀ s ∈ others, ¬ s.toList <+: text) :
    Refuses (run (others.foldr (fun s p => .either (.literal s.toList) p) (.literal xs))) text := by
  induction others with
  | nil => exact refuses_literal last
  | cons s others ih =>
    obtain ⟨first, none⟩ := List.forall_mem_cons.1 none
    intro b k
    rw [List.foldr_cons, run, refuses_literal first b k]
    exact ih none b k

def idle : Pattern → Bool
  | textStart | textEnd | lineStart _ | lineEnd _ | boundary _ _ => true
  | _ => false

def shuns : Pattern → Char → Bool
  | one set, c => !set.contains c
  | seq p q, c => p.shuns c || p.idle && q.shuns c
  | either p q, c => p.shuns c && q.shuns c
  | loop p _ least _, c => 0 < least && p.shuns c
  | _, _ => false

theorem run_idle (h : p.idle) (s : Spot) (k : Spot → Option Spot) :
    p.run s k = none ∨ p.run s k = k s := by
  have guard (holds : Bool) : guarded holds s k = none ∨ guarded holds s k = k s := by
    cases holds
    · exact .inl rfl
    · exact .inr rfl
  cases p with
  | textStart => exact guard _
  | textEnd => exact guard _
  | lineStart crlf => exact guard _
  | lineEnd crlf => exact guard _
  | boundary kind word => exact guard _
  | _ => cases h

theorem refuses_of_shuns (h : p.shuns c) : Refuses p.run (c :: rest) := by
  induction p with
  | one set => exact refuses_one fun c' hc' => by cases hc'; simpa [shuns] using h
  | seq p q ihp ihq =>
    intro b k
    rw [shuns, Bool.or_eq_true, Bool.and_eq_true] at h
    rcases h with first | ⟨idle, second⟩
    · exact ihp first b _
    · rcases run_idle idle ⟨b, c :: rest⟩ fun s => q.run s k with refused | on
      · exact refused
      · exact on.trans (ihq second b k)
  | either p q ihp ihq =>
    intro b k
    rw [shuns, Bool.and_eq_true] at h
    rw [run, ihp h.1 b k, ihq h.2 b k]
  | loop p greedy least most ih =>
    intro b k
    rw [shuns, Bool.and_eq_true, decide_eq_true_eq] at h
    obtain ⟨n, rfl⟩ := Nat.exists_eq_add_one.2 h.1
    exact ih h.2 b _
  | _ => cases h

def CharSet.misses : CharSet → List (Nat × Nat) → Bool
  | ranges rs, qs => rs.all fun r => qs.all fun q => r.2.blt q.1 || q.2.blt r.1
  | union a b, qs => a.misses qs && b.misses qs
  | _, _ => false

theorem CharSet.not_contains_of_misses {qs : List (Nat × Nat)} (h : set.misses qs)
    (inside : Text.inRanges qs c) : set.contains c = false := by
  induction set with
  | ranges rs =>
    obtain ⟨q, hq, within⟩ := List.any_eq_true.1 inside
    refine List.any_eq_false.2 fun r hr => ?_
    have apart := List.all_eq_true.1 (List.all_eq_true.1 h r hr) q hq
    simp only [Bool.or_eq_true, Bool.and_eq_true, decide_eq_true_eq, Nat.blt_eq] at apart within ⊢
    omega
  | union a b iha ihb =>
    rw [misses, Bool.and_eq_true] at h
    rw [contains, iha h.1, ihb h.2]
    rfl
  | _ => cases h

def shunsAll : Pattern → List (Nat × Nat) → Bool
  | one set, qs => set.misses qs
  | seq p q, qs => p.shunsAll qs || p.idle && q.shunsAll qs
  | either p q, qs => p.shunsAll qs && q.shunsAll qs
  | loop p _ least _, qs => 0 < least && p.shunsAll qs
  | _, _ => false

theorem shuns_of_shunsAll {qs : List (Nat × Nat)} (h : p.shunsAll qs)
    (inside : Text.inRanges qs c) : p.shuns c := by
  induction p with
  | one set =>
    rw [shuns, CharSet.not_contains_of_misses h inside]
    rfl
  | seq p q ihp ihq =>
    rw [shunsAll, Bool.or_eq_true, Bool.and_eq_true] at h
    rw [shuns, Bool.or_eq_true, Bool.and_eq_true]
    exact h.imp ihp (And.imp_right ihq)
  | either p q ihp ihq =>
    rw [shunsAll, Bool.and_eq_true] at h
    rw [shuns, Bool.and_eq_true]
    exact ⟨ihp h.1, ihq h.2⟩
  | loop p greedy least most ih =>
    rw [shunsAll, Bool.and_eq_true] at h
    rw [shuns, Bool.and_eq_true]
    exact ⟨h.1, ih h.2⟩
  | _ => cases h

end Pattern

namespace Rule

variable {κ : Type} {r : Rule κ} {p : Pattern} {piece rest : List Char} {c : Char}

theorem cut?_of_takes (pattern : r.pattern = .seq .textStart p) (h : Pattern.Takes p.run piece rest)
    (nonempty : piece ≠ []) : r.cut? (piece ++ rest) = some (piece, rest) := by
  obtain ⟨b, found⟩ := h none some fun _ => rfl
  have cut : r.pattern.cut? (piece ++ rest) = some (piece, rest) := by
    have run : (Pattern.seq .textStart p).run ⟨none, piece ++ rest⟩ some = some ⟨b, rest⟩ := found
    rw [Pattern.cut?, Pattern.matchStart, pattern, run]
    simp
  rw [cut?, cut]
  cases piece with
  | nil => exact absurd rfl nonempty
  | cons c others => rfl

theorem first?_append {before rules : List (Rule κ)} {s : List Char}
    (refused : ∀ r ∈ before, r.cut? s = none) : first? (before ++ rules) s = first? rules s := by
  induction before with
  | nil => rfl
  | cons r others ih =>
    obtain ⟨first, refused⟩ := List.forall_mem_cons.1 refused
    rw [List.cons_append, first?, List.findSome?_cons, first]
    exact ih refused

theorem first?_cons_of_cut? {rules : List (Rule κ)} {s : List Char}
    (h : r.cut? s = some (piece, rest)) : first? (r :: rules) s = some (r, piece, rest) := by
  rw [first?, List.findSome?_cons, h]
  rfl

theorem cut?_of_refuses {s : List Char} (h : Pattern.Refuses r.pattern.run s) : r.cut? s = none := by
  rw [cut?, Pattern.cut?, Pattern.matchStart, h none some]
  rfl

theorem cut?_of_shuns (h : r.pattern.shuns c) : r.cut? (c :: rest) = none :=
  cut?_of_refuses (Pattern.refuses_of_shuns h)

/-- The first rule whose pattern does not shun the first character cuts off what it takes. -/
theorem first?_of_takes (before after : List (Rule κ)) (pattern : r.pattern = .seq .textStart p)
    (h : Pattern.Takes p.run (c :: piece) rest) (shuns : ∀ r' ∈ before, r'.pattern.shuns c) :
    first? (before ++ r :: after) (c :: piece ++ rest) = some (r, c :: piece, rest) := by
  have refused : ∀ r' ∈ before, r'.cut? (c :: piece ++ rest) = none := fun r' hr' =>
    cut?_of_shuns (shuns r' hr')
  rw [first?_append refused]
  exact first?_cons_of_cut? (cut?_of_takes pattern h (List.cons_ne_nil _ _))

theorem scan_of_first? {rules : List (Rule κ)} {n : Nat} {m : Text.Mark} {s : List Char}
    (found : first? rules s = some (r, piece, rest)) (nonempty : s ≠ []) :
    scan rules (n + 1) m s =
      let stream := scan rules n (m.advance piece) rest
      if r.keep then { stream with tokens := r.token m piece :: stream.tokens } else stream := by
  cases s with
  | nil => exact absurd rfl nonempty
  | cons c others => simp only [scan, found]

end Rule

end Wordhoard
