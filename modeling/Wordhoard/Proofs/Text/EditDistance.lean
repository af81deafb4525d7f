import Mathlib.Order.Bounds.Basic
import Wordhoard.Proofs.Text.Edits
import Wordhoard.Text.EditDistance

/-! The table of distances. Main statement: its first entry is the least number of edits that turn one
text into the other. -/
namespace Wordhoard.Text.EditDistance

def Least (d : Nat) (a b : List Char) : Prop := ∀ n, Aligned n a b ↔ d ≤ n

def Swapped (n : Nat) (x y : Char) (a b : List Char) : Prop :=
  ∃ m u v a' b', a = u ++ y :: a' ∧ b = v ++ x :: b' ∧ Aligned m a' b' ∧
    m + u.length + 1 + v.length = n

/-- A row holds the least costs of a text and all suffixes of another one, longest first. -/
inductive RowOf (a : List Char) : List Char → List Nat → Prop where
  | nil {d : Nat} : Least d a [] → RowOf a [] [d]
  | cons {d : Nat} {y : Char} {b : List Char} {row : List Nat} :
    Least d a (y :: b) → RowOf a b row → RowOf a (y :: b) (d :: row)

inductive RowsOf (b : List Char) : List Char → Rows → Prop where
  | nil : RowsOf b [] []
  | cons {x : Char} {a : List Char} {row : List Nat} {rows : Rows} :
    RowOf a b row → RowsOf b a rows → RowsOf b (x :: a) ((x, row) :: rows)

variable {x y c : Char} {a b : List Char} {d n : Nat} {row : List Nat} {rows : Rows}

theorem aligned_nil_left : Aligned n [] b ↔ b.length ≤ n := by
  constructor
  · intro h
    obtain ⟨m, less, edits⟩ := aligned_iff.1 h
    have := edits.length_le.2
    simp only [List.length_nil] at this
    omega
  · intro le
    have inserted := (Aligned.nil 0).inserts b
    rw [List.append_nil] at inserted
    exact inserted.mono (by omega)

theorem aligned_cons_nil : Aligned n (x :: a) [] ↔ ∃ m, m + 1 = n ∧ Aligned m a [] := by
  constructor
  · intro h
    cases h with
    | delete _ h => exact ⟨_, rfl, h⟩
  · rintro ⟨m, rfl, h⟩
    exact .delete x h

theorem aligned_cons_cons : Aligned n (x :: a) (y :: b) ↔
    x = y ∧ Aligned n a b ∨ (∃ m, m + 1 = n ∧ Aligned m a b) ∨
      (∃ m, m + 1 = n ∧ Aligned m a (y :: b)) ∨ (∃ m, m + 1 = n ∧ Aligned m (x :: a) b) ∨
      Swapped n x y a b := by
  constructor
  · intro h
    cases h with
    | keep _ h => exact .inl ⟨rfl, h⟩
    | replace _ _ h => exact .inr (.inl ⟨_, rfl, h⟩)
    | delete _ h => exact .inr (.inr (.inl ⟨_, rfl, h⟩))
    | insert _ h => exact .inr (.inr (.inr (.inl ⟨_, rfl, h⟩)))
    | swap _ _ u v h =>
      exact .inr (.inr (.inr (.inr ⟨_, u, v, _, _, rfl, rfl, h, rfl⟩)))
  · rintro (⟨rfl, h⟩ | ⟨m, rfl, h⟩ | ⟨m, rfl, h⟩ | ⟨m, rfl, h⟩ | ⟨m, u, v, a', b', rfl, rfl, h, rfl⟩)
    · exact .keep x h
    · exact .replace x y h
    · exact .delete x h
    · exact .insert y h
    · exact .swap x y u v h

theorem Least.succ (h : Least d a b) : (∃ m, m + 1 = n ∧ Aligned m a b) ↔ d + 1 ≤ n := by
  constructor
  · rintro ⟨m, rfl, aligned⟩
    exact Nat.succ_le_succ ((h m).1 aligned)
  · intro le
    exact ⟨n - 1, by omega, (h (n - 1)).2 (by omega)⟩

theorem Least.cons {s i : Nat} {cost : Option Nat} (kept : Least s a b)
    (deleted : Least d a (y :: b)) (inserted : Least i (x :: a) b)
    (swapped : ∀ n, (∃ c, cost = some c ∧ c ≤ n) ↔ Swapped n x y a b) :
    let best := min (s + if x = y then 0 else 1) (min (d + 1) (i + 1))
    Least (cost.elim best (min best)) (x :: a) (y :: b) := by
  intro best n
  rw [aligned_cons_cons, kept n, kept.succ, deleted.succ, inserted.succ, ← swapped n]
  have without : best ≤ n ↔ x = y ∧ s ≤ n ∨ s + 1 ≤ n ∨ d + 1 ≤ n ∨ i + 1 ≤ n := by
    by_cases same : x = y
    · simp only [best, same, if_true, true_and]
      omega
    · simp only [best, same, if_false, false_and, false_or]
      omega
  cases cost with
  | none => simp [without]
  | some c => simp [without, or_assoc]

theorem RowOf.length (h : RowOf a b row) : row.length = b.length + 1 := by
  induction h with
  | nil => rfl
  | cons _ _ ih => rw [List.length_cons, ih, List.length_cons]

theorem RowOf.head (h : RowOf a b row) : Least (row.headD 0) a b := by
  cases h with
  | nil least => exact least
  | cons least _ => exact least

theorem RowOf.entry {after : List Char} (h : RowOf a b row) (suffix : after <:+ b) :
    Least (entry row after.length) a after := by
  induction h with
  | nil least =>
    cases List.suffix_nil.1 suffix
    exact least
  | @cons d y b row least below ih =>
    rcases List.suffix_cons_iff.1 suffix with rfl | suffix
    · have first : (d :: row).length - 1 - (y :: b).length = 0 := by
        simp [below.length]
      rw [EditDistance.entry, first]
      exact least
    · have shorter := suffix.length_le
      have further : (d :: row).length - 1 - after.length = row.length - 1 - after.length + 1 := by
        simp only [List.length_cons, below.length]
        omega
      rw [EditDistance.entry, further]
      exact ih suffix

theorem rowOf_range (b : List Char) : RowOf [] b (List.range (b.length + 1)).reverse := by
  induction b with
  | nil => exact .nil fun n => aligned_nil_left
  | cons y b ih =>
    rw [List.length_cons, List.range_succ, List.reverse_append]
    exact .cons (fun n => aligned_nil_left) ih

theorem nearest {u u' rest rest' : List Char} (first : c ∉ u)
    (same : u ++ c :: rest = u' ++ c :: rest') :
    ∃ w, rest = w ++ rest' ∧ u.length + w.length = u'.length := by
  rcases List.append_eq_append_iff.1 same with ⟨w, rfl, behind⟩ | ⟨w, rfl, behind⟩
  · cases w with
    | nil =>
      cases behind
      exact ⟨[], rfl, by simp⟩
    | cons _ w =>
      cases behind
      exact ⟨w ++ [c], by simp, by simp⟩
  · cases w with
    | nil =>
      cases behind
      exact ⟨[], rfl, by simp⟩
    | cons _ w =>
      cases behind
      simp at first

theorem splitAt?_eq_some {k : Nat} {after : List Char} (h : splitAt? c b = some (k, after)) :
    ∃ v, b = v ++ c :: after ∧ v.length = k ∧ c ∉ v := by
  induction b generalizing k with
  | nil => cases h
  | cons d b ih =>
    rw [splitAt?] at h
    split at h
    · rename_i same
      cases h
      exact ⟨[], by rw [same, List.nil_append], rfl, List.not_mem_nil⟩
    · rename_i other
      obtain ⟨⟨k', after'⟩, found, same⟩ := Option.map_eq_some_iff.1 h
      cases same
      obtain ⟨v, rfl, length, first⟩ := ih found
      exact ⟨d :: v, rfl, congrArg (· + 1) length, by simp [Ne.symm other, first]⟩

theorem splitAt?_eq_none (h : splitAt? c b = none) : c ∉ b := by
  induction b with
  | nil => exact List.not_mem_nil
  | cons d b ih =>
    rw [splitAt?] at h
    split at h
    · cases h
    · rename_i other
      simp [Ne.symm other, ih (Option.map_eq_none_iff.1 h)]

theorem rel_rowAt? (rs : RowsOf b a rows) (c : Char) :
    Option.Rel (fun split found => split.1 = found.1 ∧ RowOf split.2 b found.2)
      (splitAt? c a) (rowAt? c rows) := by
  induction rs with
  | nil => exact .none
  | @cons d a _ rows below _ ih =>
    rw [splitAt?, rowAt?]
    split
    · exact .some ⟨rfl, below⟩
    · generalize splitAt? c a = split, rowAt? c rows = found at ih
      cases ih with
      | none => exact .none
      | some h => exact .some ⟨congrArg (· + 1) h.1, h.2⟩

section

variable {whole : List Char} {k k' : Nat} {a' b' : List Char}

theorem swapCost?_of_splits (rs : RowsOf whole a rows) (suffix : b <:+ whole)
    (first : splitAt? y a = some (k, a')) (second : splitAt? x b = some (k', b')) :
    ∃ d, Least d a' b' ∧ swapCost? x y rows b = some (d + k + 1 + k') := by
  have rel := rel_rowAt? rs y
  rw [first] at rel
  generalize found : rowAt? y rows = row at rel
  cases rel with
  | @some _ above h =>
    obtain ⟨k, row⟩ := above
    obtain ⟨rfl, below⟩ := h
    obtain ⟨v, rfl, -⟩ := splitAt?_eq_some second
    have behind : b' <:+ whole :=
      (List.suffix_cons x b').trans ((List.suffix_append v _).trans suffix)
    exact ⟨_, below.entry behind, by rw [swapCost?, found, second]⟩

theorem splits_of_swapCost? (rs : RowsOf whole a rows) (h : swapCost? x y rows b = some d) :
    (∃ s, splitAt? y a = some s) ∧ ∃ s, splitAt? x b = some s := by
  have rel := rel_rowAt? rs y
  rw [swapCost?] at h
  split at h
  · rename_i first second
    rw [first] at rel
    generalize splitAt? y a = split at rel
    cases rel with
    | @some s => exact ⟨⟨s, rfl⟩, _, second⟩
  · cases h

/-- The nearest places of the two characters are best: from farther ones the characters between cost
the same, taken out or put in. -/
theorem swapCost?_le_iff (rs : RowsOf whole a rows) (suffix : b <:+ whole) (n : Nat) :
    (∃ c, swapCost? x y rows b = some c ∧ c ≤ n) ↔ Swapped n x y a b := by
  constructor
  · rintro ⟨c, found, le⟩
    obtain ⟨⟨⟨k, a'⟩, first⟩, ⟨k', b'⟩, second⟩ := splits_of_swapCost? rs found
    obtain ⟨d, least, cost⟩ := swapCost?_of_splits rs suffix first second
    cases found.symm.trans cost
    obtain ⟨u, rfl, rfl, -⟩ := splitAt?_eq_some first
    obtain ⟨v, rfl, rfl, -⟩ := splitAt?_eq_some second
    refine ⟨n - (u.length + 1 + v.length), u, v, a', b', rfl, rfl, (least _).2 ?_, ?_⟩ <;> omega
  · rintro ⟨m, u', v', a', b', rfl, rfl, aligned, rfl⟩
    obtain ⟨⟨k, rest⟩, first⟩ : ∃ s, splitAt? y (u' ++ y :: a') = some s :=
      Option.ne_none_iff_exists'.1 fun none => splitAt?_eq_none none (by simp)
    obtain ⟨⟨k', after⟩, second⟩ : ∃ s, splitAt? x (v' ++ x :: b') = some s :=
      Option.ne_none_iff_exists'.1 fun none => splitAt?_eq_none none (by simp)
    obtain ⟨d, least, cost⟩ := swapCost?_of_splits rs suffix first second
    obtain ⟨u, same, rfl, nearestFirst⟩ := splitAt?_eq_some first
    obtain ⟨v, same', rfl, nearestSecond⟩ := splitAt?_eq_some second
    obtain ⟨w, rfl, length⟩ := nearest nearestFirst same.symm
    obtain ⟨w', rfl, length'⟩ := nearest nearestSecond same'.symm
    have nearer := (least _).1 ((aligned.deletes w).inserts w')
    exact ⟨_, cost, by omega⟩

end

theorem rowOf_nextRow {whole : List Char} (rs : RowsOf whole a rows) (suffix : b <:+ whole)
    (h : RowOf a b row) :
    RowOf (x :: a) b (nextRow x rows b row) := by
  induction h with
  | @nil d least =>
    refine .nil fun n => ?_
    rw [aligned_cons_nil, least.succ]
  | @cons d y b row deleted below ih =>
    have above := ih ((List.suffix_cons y b).trans suffix)
    refine .cons ?_ above
    exact below.head.cons deleted above.head
      (swapCost?_le_iff rs ((List.suffix_cons y b).trans suffix))

theorem rowsOf_table (b a : List Char) : RowOf a b (table b a).1 ∧ RowsOf b a (table b a).2 := by
  induction a with
  | nil => exact ⟨rowOf_range b, .nil⟩
  | cons x a ih =>
    obtain ⟨below, rows⟩ := ih
    exact ⟨rowOf_nextRow rows (List.suffix_refl b) below, .cons below rows⟩

theorem least_distance (a b : List Char) : Least (distance a b) a b := (rowsOf_table b a).1.head

/-- The distance is the least number of edits. -/
theorem isLeast_distance (a b : List Char) : IsLeast {n | Edits n a b} (distance a b) := by
  have least := least_distance a b
  have below : distance a b ∈ lowerBounds {n | Edits n a b} := fun n edits =>
    (least n).1 edits.aligned
  obtain ⟨m, le, edits⟩ := aligned_iff.1 ((least _).2 (Nat.le_refl _))
  refine ⟨?_, below⟩
  rwa [Nat.le_antisymm le (below edits)] at edits

/-- Neighbours that were swapped may be edited further. -/
example : distance ['c', 'a'] ['a', 'b', 'c'] = 2 := by decide

/-- The lengths are compared first, and refuse nothing that the distance would not refuse. -/
theorem within?_eq (limit : Nat) (a b : List Char) :
    within? limit a b = if distance a b ≤ limit then some (distance a b) else none := by
  obtain ⟨edits, -⟩ := isLeast_distance a b
  have lengths := edits.length_le
  rw [within?]
  split
  · rename_i apart
    rw [if_neg]
    simp only [gt_iff_lt, Bool.or_eq_true, decide_eq_true_eq] at apart
    omega
  · rfl

end Wordhoard.Text.EditDistance
