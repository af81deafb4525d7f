import Mathlib.Data.List.Induction
import Mathlib.Data.String.Basic
import Wordhoard.Query.Evaluate

/-! Listings that are sorted several times. Main statement: a row of sorts leaves the one order by
the key of the last sort, in which the sort before it decides between equals, and so on, and at the
very end the old position. -/
namespace Wordhoard.Query

def codePoints (text : String) : List Int := text.toList.map fun c => (c.toNat : Int)

/-- What a sort compares, number by number. A word without a review has no numbers, so it is below
every time. -/
def SortKey.value (w : Word) : SortKey → List Int
  | reviews => [w.reviewCount.toNat]
  | lastReviewed => w.lastReviewed.elim [] fun t => [t.day, t.second, t.nano]
  | word => codePoints (Text.lowercase w.contentText)
  | description => codePoints (Text.lowercase w.description)

theorem strictMono_codePoints : StrictMono codePoints := by
  intro a b h
  exact List.map_lt (fun _ _ less => Int.ofNat_lt.2 less) (String.lt_iff_toList_lt.1 h)

theorem before_iff (s t : Time.Instant) :
    s.before t = true ↔ [s.day, (s.second : Int), (s.nano : Int)] < [t.day, t.second, t.nano] := by
  simp only [Time.Instant.before, List.cons_lt_cons_iff, List.lt_irrefl, and_false, or_false,
    Int.ofNat_lt, Int.ofNat_inj, Bool.or_eq_true, Bool.and_eq_true, beq_iff_eq, decide_eq_true_eq]

theorem atMost_iff (key : SortKey) (a b : Word) :
    key.atMost a b = true ↔ ¬ key.value b < key.value a := by
  cases key with
  | reviews => simp [SortKey.atMost, SortKey.value, List.cons_lt_cons_iff, UInt32.le_iff_toNat_le]
  | lastReviewed =>
    simp only [SortKey.atMost, SortKey.value]
    cases a.lastReviewed with
    | none => simp [reviewedAtMost]
    | some s =>
      cases b.lastReviewed with
      | none => simp [reviewedAtMost]
      | some t => simp [reviewedAtMost, Time.Instant.atMost, ← before_iff]
  | word =>
    simp only [SortKey.value, strictMono_codePoints.lt_iff_lt]
    simp [SortKey.atMost]
  | description =>
    simp only [SortKey.value, strictMono_codePoints.lt_iff_lt]
    simp [SortKey.atMost]

def Precedes (sort : SortKey × Direction) (a b : Word) : Prop :=
  match sort.2 with
  | .ascending => sort.1.value a < sort.1.value b
  | .descending => sort.1.value b < sort.1.value a

variable {sort : SortKey × Direction} {a b c : Word}

theorem inOrder_iff : sort.1.inOrder sort.2 a b = true ↔ ¬ Precedes sort b a := by
  obtain ⟨key, direction⟩ := sort
  cases direction with
  | ascending => exact atMost_iff key a b
  | descending => exact atMost_iff key b a

theorem Precedes.asymm (h : Precedes sort a b) : ¬ Precedes sort b a := by
  obtain ⟨key, direction⟩ := sort
  cases direction with
  | ascending => exact lt_asymm (a := key.value a) h
  | descending => exact lt_asymm (a := key.value b) h

theorem Precedes.ne (h : Precedes sort a b) : sort.1.value a ≠ sort.1.value b := by
  obtain ⟨key, direction⟩ := sort
  cases direction with
  | ascending => exact ne_of_lt h
  | descending => exact ne_of_gt h

theorem not_precedes_trans (h : ¬ Precedes sort b a) (h' : ¬ Precedes sort c b) :
    ¬ Precedes sort c a := by
  obtain ⟨key, direction⟩ := sort
  cases direction with
  | ascending => exact not_lt.2 (le_trans (not_lt.1 h) (not_lt.1 h'))
  | descending => exact not_lt.2 (le_trans (not_lt.1 h') (not_lt.1 h))

theorem value_eq_of_tie (h : ¬ Precedes sort a b) (h' : ¬ Precedes sort b a) :
    sort.1.value a = sort.1.value b := by
  obtain ⟨key, direction⟩ := sort
  cases direction with
  | ascending => exact le_antisymm (not_lt.1 h') (not_lt.1 h)
  | descending => exact le_antisymm (not_lt.1 h) (not_lt.1 h')

/-- Between items that the order leaves equal, a sort keeps what held of them before. -/
theorem pairwise_mergeSort_ties {β : Type} (le : β → β → Bool) {R : β → β → Prop}
    (trans : ∀ x y z, le x y = true → le y z = true → le x z = true)
    (total : ∀ x y, (le x y || le y x) = true) {l : List β} (held : l.Pairwise R) :
    (l.mergeSort le).Pairwise fun x y => le x y = true ∧ (le y x = true → R x y) := by
  induction l with
  | nil => simp
  | cons x l ih =>
    obtain ⟨before, held⟩ := List.pairwise_cons.1 held
    obtain ⟨less, others, whole, part, above⟩ := List.mergeSort_cons trans total x l
    have sorted := List.pairwise_mergeSort trans total (x :: l)
    have rest := ih held
    rw [part] at rest
    rw [whole] at sorted ⊢
    have behind : ∀ y ∈ others, y ∈ l := by
      intro y hy
      have mem : y ∈ l.mergeSort le := by simp [part, hy]
      exact List.mem_mergeSort.1 mem
    simp only [List.pairwise_append, List.pairwise_cons, List.forall_mem_cons] at rest sorted ⊢
    refine ⟨rest.1, ⟨fun y hy => ⟨sorted.2.1.1 y hy, fun _ => before y (behind y hy)⟩, rest.2.1⟩,
      fun y hy => ⟨⟨(sorted.2.2 y hy).1, fun back => ?_⟩, rest.2.2 y hy⟩⟩
    have := above y hy
    simp [back] at this

/-- The first of the sorts decides, between equals the next one, and at the end the position. -/
def Outranks : List (SortKey × Direction) → Word × Nat → Word × Nat → Prop
  | [], x, y => x.2 < y.2
  | sort :: others, x, y =>
    Precedes sort x.1 y.1 ∨ sort.1.value x.1 = sort.1.value y.1 ∧ Outranks others x y

theorem Outranks.asymm {sorts : List (SortKey × Direction)} {x y : Word × Nat}
    (h : Outranks sorts x y) : ¬ Outranks sorts y x := by
  induction sorts with
  | nil => exact Nat.lt_asymm h
  | cons sort others ih =>
    rcases h with first | ⟨tie, later⟩
    · rintro (back | ⟨tie, -⟩)
      · exact first.asymm back
      · exact first.ne tie.symm
    · rintro (back | ⟨-, back⟩)
      · exact back.ne tie.symm
      · exact ih later back

variable {α ρ : Type} [RandomSource ρ] (view : α → Word)

/-- All items with their positions, ordered by the sorts. -/
structure Placed (sorts : List (SortKey × Direction)) (items : List α) (placed : List (α × Nat)) :
    Prop where
  perm : placed.Perm items.zipIdx
  ordered : placed.Pairwise fun x y => Outranks sorts (view x.1, x.2) (view y.1, y.2)

variable {view} {sorts : List (SortKey × Direction)} {items : List α} {placed : List (α × Nat)}

theorem placed_zipIdx (items : List α) : Placed view [] items items.zipIdx where
  perm := .refl _
  ordered := by
    rw [List.pairwise_iff_getElem]
    intro i j _ _ less
    simpa [Outranks] using less

theorem Placed.unique {other : List (α × Nat)} (h : Placed view sorts items placed)
    (h' : Placed view sorts items other) : other = placed :=
  List.Perm.eq_of_pairwise (fun _ _ _ _ less back => absurd back less.asymm) h'.ordered h.ordered
    (h'.perm.trans h.perm.symm)

/-- A further sort decides first. -/
theorem Placed.further (h : Placed view sorts items placed) (sort : SortKey × Direction) :
    Placed view (sort :: sorts) items
      (placed.mergeSort fun x y => sort.1.inOrder sort.2 (view x.1) (view y.1)) where
  perm := (List.mergeSort_perm _ _).trans h.perm
  ordered := by
    have ties := pairwise_mergeSort_ties
      (fun x y : α × Nat => sort.1.inOrder sort.2 (view x.1) (view y.1)) ?_ ?_ h.ordered
    · refine ties.imp fun {x y} ⟨order, tied⟩ => ?_
      by_cases first : Precedes sort (view x.1) (view y.1)
      · exact .inl first
      · exact .inr ⟨value_eq_of_tie first (inOrder_iff.1 order), tied (inOrder_iff.2 first)⟩
    · intro x y z order order'
      exact inOrder_iff.2 (not_precedes_trans (inOrder_iff.1 order) (inOrder_iff.1 order'))
    · intro x y
      by_cases back : Precedes sort (view y.1) (view x.1)
      · simp [inOrder_iff.2 back.asymm]
      · simp [inOrder_iff.2 back]

theorem exists_placed (view : α → Word) (sorts : List (SortKey × Direction)) (items : List α)
    (r : ρ) :
    ∃ placed, Placed view sorts.reverse items placed ∧
      runSteps view (sorts.map fun sort => .sort sort.1 sort.2) items r =
        (placed.map Prod.fst, r) := by
  induction sorts using List.reverseRecOn with
  | nil => exact ⟨_, placed_zipIdx items, by simp [runSteps]⟩
  | append_singleton sorts sort ih =>
    obtain ⟨placed, ordered, listed⟩ := ih
    refine ⟨_, by simpa using ordered.further sort, ?_⟩
    have moved : (placed.mergeSort fun x y => sort.1.inOrder sort.2 (view x.1) (view y.1)).map
        Prod.fst =
          (placed.map Prod.fst).mergeSort fun a b => sort.1.inOrder sort.2 (view a) (view b) :=
      List.map_mergeSort fun _ _ _ _ => rfl
    rw [moved]
    simp only [runSteps, List.map_append, List.foldl_append] at listed ⊢
    rw [listed]
    rfl

/-- A row of sorts gives the one order of the items in which the last sort decides, between equals the
sort before it, and so on to the first, and at the end the old position; in both directions. -/
theorem sorted_by_last_then_before (view : α → Word) (sorts : List (SortKey × Direction))
    (items : List α) (r : ρ) :
    ∃ placed, Placed view sorts.reverse items placed ∧
      (∀ other, Placed view sorts.reverse items other → other = placed) ∧
      runSteps view (sorts.map fun sort => .sort sort.1 sort.2) items r =
        (placed.map Prod.fst, r) := by
  obtain ⟨placed, ordered, listed⟩ := exists_placed view sorts items r
  exact ⟨placed, ordered, fun _ => ordered.unique, listed⟩

end Wordhoard.Query
