import Mathlib.Data.List.Infix
import Wordhoard.Proofs.Query.Sorting
import Wordhoard.Proofs.Time.Age
import Wordhoard.Proofs.Word.Json
import Wordhoard.Query.Parser

/-! Ages along a listing by the last review. Main statement: the words that come first are at least as
old as those behind them, words without a review before all others, so a bound on the age cuts the
listing in two; unless a review in a leap second that ends a day overtakes one right behind it. -/
namespace Wordhoard.Query

variable {α : Type} {now : Time.Instant} {a b : Word} {x y : Option Int} {bound : Int}

theorem filter_isPrefix {p : α → Bool} {l : List α} (h : l.Pairwise fun x y => p y → p x) :
    l.filter p <+: l := by
  induction l with
  | nil => exact List.prefix_refl _
  | cons x others ih =>
    obtain ⟨first, others⟩ := List.pairwise_cons.1 h
    by_cases kept : p x
    · rw [List.filter_cons_of_pos kept]
      exact List.cons_prefix_cons.2 ⟨rfl, ih others⟩
    · have none : (x :: _).filter p = [] := List.filter_eq_nil_iff.2
        (List.forall_mem_cons.2 ⟨kept, fun y hy later => kept (first y hy later)⟩)
      rw [none]
      exact List.nil_prefix

theorem filter_isSuffix {p : α → Bool} {l : List α} (h : l.Pairwise fun x y => p x → p y) :
    l.filter p <:+ l := by
  rw [← List.reverse_prefix, ← List.filter_reverse]
  exact filter_isPrefix (List.pairwise_reverse.2 h)

/-- What has no age is infinitely old. -/
def AgeAtLeast : Option Int → Option Int → Prop
  | none, _ => True
  | some _, none => False
  | some m, some n => n ≤ m

theorem AgeAtLeast.older {op : Comparison} (h : AgeAtLeast x y) (listed : op ∈ [.gt, .ge])
    (holds : op.holds y bound) : op.holds x bound := by
  simp only [List.mem_cons, List.not_mem_nil, or_false] at listed
  cases x with
  | none => rcases listed with rfl | rfl <;> rfl
  | some m =>
    cases y with
    | none => cases h
    | some n =>
      have less : n ≤ m := h
      rcases listed with rfl | rfl <;> simp only [Comparison.holds, decide_eq_true_eq] at * <;> omega

theorem exists_opposite {op : Comparison} (listed : op ∈ [.lt, .le]) :
    ∃ op' ∈ [Comparison.gt, .ge], ∀ x bound, op.holds x bound = !op'.holds x bound := by
  simp only [List.mem_cons, List.not_mem_nil, or_false] at listed
  rcases listed with rfl | rfl
  · refine ⟨.ge, by decide, fun x bound => ?_⟩
    cases x <;> simp [Comparison.holds, ← decide_not]
  · refine ⟨.gt, by decide, fun x bound => ?_⟩
    cases x <;> simp [Comparison.holds, ← decide_not]

theorem AgeAtLeast.younger {op : Comparison} (h : AgeAtLeast x y) (listed : op ∈ [.lt, .le])
    (holds : op.holds x bound) : op.holds y bound := by
  obtain ⟨op', older, opposite⟩ := exists_opposite listed
  rw [opposite, Bool.not_eq_true'] at holds ⊢
  exact eq_false_of_ne_true fun reached => ne_true_of_eq_false holds (h.older older reached)

def Overtakes (a b : Word) : Prop :=
  ∃ s ∈ a.lastReviewed, ∃ t ∈ b.lastReviewed, s.Overtakes t

instance : Decidable (Overtakes a b) :=
  inferInstanceAs (Decidable (∃ s ∈ a.lastReviewed, ∃ t ∈ b.lastReviewed, s.Overtakes t))

theorem ageAtLeast_iff (older : a.Readable) (newer : b.Readable)
    (order : SortKey.lastReviewed.atMost a b) :
    (∀ now : Time.Instant, now.isValid →
      AgeAtLeast (a.daysSinceReview now) (b.daysSinceReview now)) ↔ ¬ Overtakes a b := by
  unfold Overtakes
  simp only [Word.daysSinceReview, Word.Readable, SortKey.atMost, Option.mem_def] at *
  cases last : a.lastReviewed with
  | none => simp [AgeAtLeast]
  | some s =>
    cases last' : b.lastReviewed with
    | none => simp [last, last', reviewedAtMost] at order
    | some t =>
      rw [last, last'] at order
      have valid := Time.Instant.exists_read?_iff.1 (older s last)
      have valid' := Time.Instant.exists_read?_iff.1 (newer t last')
      simpa [AgeAtLeast] using Time.Instant.daysSince_le_iff valid valid' order

/-- The bound cuts the listing into the older words and the younger ones behind them. -/
structure CutByAge (now : Time.Instant) (view : α → Word) (listing : List α) (bound : Int) :
    Prop where
  older : ∀ op ∈ [Comparison.gt, .ge],
    listing.filter (fun x => (Condition.compare .days op bound).holds now (view x)) <+: listing
  younger : ∀ op ∈ [Comparison.lt, .le],
    listing.filter (fun x => (Condition.compare .days op bound).holds now (view x)) <:+ listing

theorem cutByAge_of_pairwise {view : α → Word} {listing : List α}
    (h : listing.Pairwise fun x y =>
      AgeAtLeast ((view x).daysSinceReview now) ((view y).daysSinceReview now)) (bound : Int) :
    CutByAge now view listing bound where
  older _ listed := filter_isPrefix (h.imp fun age => age.older listed)
  younger _ listed := filter_isSuffix (h.imp fun age => age.younger listed)

theorem pairwise_mergeSort_inOrder (view : α → Word) (sort : SortKey × Direction) (items : List α) :
    (items.mergeSort fun x y => sort.1.inOrder sort.2 (view x) (view y)).Pairwise fun x y =>
      sort.1.inOrder sort.2 (view x) (view y) := by
  refine List.pairwise_mergeSort ?_ ?_ items
  · intro x y z order order'
    exact inOrder_iff.2 (not_precedes_trans (inOrder_iff.1 order) (inOrder_iff.1 order'))
  · intro x y
    by_cases back : Precedes sort (view y) (view x)
    · simp [inOrder_iff.2 back.asymm]
    · simp [inOrder_iff.2 back]

variable {ρ : Type} [RandomSource ρ]

/-- The query `| sort(last)` lists the items of a collection like this. -/
structure ListedByLastReview (now : Time.Instant) (view : α → Word) (items listing : List α)
    (r : ρ) : Prop where
  evaluated : ∃ q, parse "| sort(last)" = .ok q ∧
    evaluate now view q items r = .ok (.listed listing, r)
  perm : listing.Perm items
  ordered : listing.Pairwise fun x y => SortKey.lastReviewed.atMost (view x) (view y)

theorem exists_listed_by_last_review (now : Time.Instant) (view : α → Word) (items : List α)
    (r : ρ) : ∃ listing, ListedByLastReview now view items listing r := by
  have parsed : parse "| sort(last)" = .ok (.filter .all [.sort .lastReviewed .ascending]) := by
    decide +kernel
  refine ⟨_, ⟨⟨_, parsed, ?_⟩, List.mergeSort_perm items _,
    pairwise_mergeSort_inOrder view (.lastReviewed, .ascending) items⟩⟩
  simp only [evaluate, Condition.holds, List.filter_true, runSteps, Step.run, List.foldl]

/-- A word that is not behind another one in the order of reviews is at least as old at every time,
unless its review overtakes that one's; never reviewed words come first, and have no age. Where no review
overtakes another, every bound on the age cuts the listing in two. -/
theorem older_first (view : α → Word) :
    (∀ a b : Word, a.Readable → b.Readable → SortKey.lastReviewed.atMost a b →
      ((∀ now : Time.Instant, now.isValid →
        AgeAtLeast (a.daysSinceReview now) (b.daysSinceReview now)) ↔ ¬ Overtakes a b)) ∧
    (∀ a b : Word, a.lastReviewed = none → SortKey.lastReviewed.atMost a b ∧
      (SortKey.lastReviewed.atMost b a ↔ b.lastReviewed = none) ∧
      ∀ now, a.daysSinceReview now = none) ∧
    ∀ (now : Time.Instant) (items : List α) {ρ : Type} [RandomSource ρ] (r : ρ), now.isValid →
      (∀ x ∈ items, (view x).Readable) →
      (∀ x ∈ items, ∀ y ∈ items, ¬ Overtakes (view x) (view y)) →
      ∃ listing, ListedByLastReview now view items listing r ∧
        ∀ bound, CutByAge now view listing bound := by
  refine ⟨fun a b older newer order => ageAtLeast_iff older newer order, ?_, ?_⟩
  · intro a b never
    simp only [SortKey.atMost, Word.daysSinceReview, never]
    cases b.lastReviewed <;> simp [reviewedAtMost]
  · intro now items ρ _ r valid readable fair
    obtain ⟨listing, listed⟩ := exists_listed_by_last_review now view items r
    refine ⟨listing, listed, cutByAge_of_pairwise ?_⟩
    refine listed.ordered.imp_of_mem fun {x y} here there order => ?_
    have here := listed.perm.mem_iff.1 here
    have there := listed.perm.mem_iff.1 there
    exact (ageAtLeast_iff (readable x here) (readable y there) order).2 (fair x here y there) now valid

def reviewedAt (t : Time.Instant) : Word := { content := [.plain "tide"], lastReviewed := some t }

theorem readable_reviewedAt {t : Time.Instant} (valid : t.isValid) : (reviewedAt t).Readable := by
  intro s last
  cases last
  exact Time.Instant.exists_read?_iff.2 valid

/-- A review in a leap second, and one further into the second after it. -/
theorem older_first_of_duskAndDawn :
    let dusk := reviewedAt ⟨17166, 86399, 1200000000⟩
    let dawn := reviewedAt ⟨17167, 0, 500000000⟩
    let words := [dawn, dusk, { content := [.plain "foam"] }]
    let now : Time.Instant := ⟨17168, 0, 300000000⟩
    (now.isValid ∧ (∀ w ∈ words, w.Readable) ∧ ∀ v ∈ words, ∀ w ∈ words, ¬ Overtakes v w) ∧
      (dusk.daysSinceReview now = some 1 ∧ dawn.daysSinceReview now = some 0) ∧
      ∃ listing, ListedByLastReview now id words listing (⟨7⟩ : Random) ∧
        ∀ bound, CutByAge now id listing bound := by
  intro dusk dawn words now
  have readable : ∀ w ∈ words, w.Readable := by
    simp only [words, List.forall_mem_cons, List.not_mem_nil, false_implies, implies_true, and_true]
    refine ⟨readable_reviewedAt (by decide), readable_reviewedAt (by decide), ?_⟩
    rintro s ⟨⟩
  have fair : ∀ v ∈ words, ∀ w ∈ words, ¬ Overtakes v w := by decide
  exact ⟨⟨by decide, readable, fair⟩, by decide,
    (older_first id).2.2 now words (⟨7⟩ : Random) (by decide) readable fair⟩

/-- The review in the leap second is the earlier one, and yet the younger. -/
theorem younger_first_of_duskAndDawn :
    let dusk := reviewedAt ⟨17166, 86399, 1900000000⟩
    let dawn := reviewedAt ⟨17167, 0, 0⟩
    let now : Time.Instant := ⟨17168, 0, 0⟩
    (now.isValid ∧ dusk.Readable ∧ dawn.Readable ∧ SortKey.lastReviewed.atMost dusk dawn) ∧
      ¬ AgeAtLeast (dusk.daysSinceReview now) (dawn.daysSinceReview now) ∧
      ∃ listing, ListedByLastReview now id [dusk, dawn] listing (⟨7⟩ : Random) ∧
        ¬ CutByAge now id listing 1 := by
  intro dusk dawn now
  obtain ⟨listing, listed⟩ := exists_listed_by_last_review now id [dusk, dawn] (⟨7⟩ : Random)
  have ages : dusk.daysSinceReview now = some 0 ∧ dawn.daysSinceReview now = some 1 := by decide
  have apart : ∀ v ∈ [dusk, dawn], ∀ w ∈ [dusk, dawn], SortKey.lastReviewed.atMost v w →
      SortKey.lastReviewed.atMost w v → v = w := by decide
  have order : listing = [dusk, dawn] :=
    listed.perm.eq_of_pairwise (fun v w here there => apart v (listed.perm.mem_iff.1 here) w there)
      listed.ordered (by decide)
  refine ⟨⟨by decide, readable_reviewedAt (by decide), readable_reviewedAt (by decide), by decide⟩,
    ?_, listing, listed, ?_⟩
  · rw [ages.1, ages.2]
    simp [AgeAtLeast]
  · intro cut
    have first := cut.older .ge (by decide)
    rw [order] at first
    exact absurd first (by decide)

end Wordhoard.Query
