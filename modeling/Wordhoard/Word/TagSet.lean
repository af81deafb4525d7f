/-! Finite sets of texts, held in ascending order without repeats, so that equal sets are equal. -/
namespace Wordhoard

def insertOrdered (t : String) : List String → List String
  | [] => [t]
  | u :: rest =>
    if t < u then t :: u :: rest
    else if u < t then u :: insertOrdered t rest
    else u :: rest

theorem mem_insertOrdered {t x : String} {l : List String} :
    x ∈ insertOrdered t l ↔ x = t ∨ x ∈ l := by
  induction l with
  | nil => simp [insertOrdered]
  | cons u rest ih =>
    unfold insertOrdered
    split
    · simp
    · split
      · simp only [List.mem_cons, ih]
        constructor
        · rintro (h | h | h) <;> simp [h]
        · rintro (h | h | h) <;> simp [h]
      · rename_i h₁ h₂
        have same : t = u := String.le_antisymm (String.not_lt.1 h₂) (String.not_lt.1 h₁)
        simp [same]

theorem insertOrdered_of_greatest {t : String} {l : List String} (h : ∀ u ∈ l, u < t) :
    insertOrdered t l = l ++ [t] := by
  induction l with
  | nil => rfl
  | cons u rest ih =>
    obtain ⟨less, others⟩ := List.forall_mem_cons.1 h
    rw [insertOrdered, if_neg (String.lt_asymm less), if_pos less, ih others, List.cons_append]

theorem pairwise_insertOrdered {t : String} {l : List String} (h : l.Pairwise (· < ·)) :
    (insertOrdered t l).Pairwise (· < ·) := by
  induction l with
  | nil => simp [insertOrdered]
  | cons u rest ih =>
    obtain ⟨first, others⟩ := List.pairwise_cons.1 h
    unfold insertOrdered
    split
    · rename_i less
      refine List.pairwise_cons.2 ⟨fun x hx => ?_, h⟩
      rcases List.mem_cons.1 hx with same | later
      · exact same ▸ less
      · exact String.lt_trans less (first x later)
    · split
      · rename_i more
        refine List.pairwise_cons.2 ⟨fun x hx => ?_, ih others⟩
        rcases mem_insertOrdered.1 hx with same | later
        · exact same ▸ more
        · exact first x later
      · exact h

theorem pairwise_no_texts : ([] : List String).Pairwise (· < ·) := .nil

structure TagSet where
  toList : List String := []
  ascending : toList.Pairwise (· < ·) := by exact pairwise_no_texts

namespace TagSet

instance : DecidableEq TagSet := fun a b =>
  decidable_of_iff (a.toList = b.toList)
    ⟨fun h => by cases a; cases b; cases h; rfl, fun h => h ▸ rfl⟩

def empty : TagSet := {}

def contains (s : TagSet) (t : String) : Bool := s.toList.contains t

def insert (s : TagSet) (t : String) : TagSet :=
  ⟨insertOrdered t s.toList, pairwise_insertOrdered s.ascending⟩

def erase (s : TagSet) (t : String) : TagSet :=
  ⟨s.toList.filter (· ≠ t), s.ascending.filter _⟩

def ofList (tags : List String) : TagSet := tags.foldl insert empty

theorem toList_foldl_insert {tags : List String} {s : TagSet}
    (h : (s.toList ++ tags).Pairwise (· < ·)) :
    (tags.foldl insert s).toList = s.toList ++ tags := by
  induction tags generalizing s with
  | nil => rw [List.foldl_nil, List.append_nil]
  | cons t others ih =>
    have last : (s.insert t).toList = s.toList ++ [t] :=
      insertOrdered_of_greatest fun u hu =>
        (List.pairwise_append.1 h).2.2 u hu t List.mem_cons_self
    have later := ih (s := s.insert t)
    rw [last, List.append_assoc] at later
    exact later h

theorem ofList_toList (s : TagSet) : ofList s.toList = s := by
  have same : (ofList s.toList).toList = s.toList :=
    toList_foldl_insert (s := empty) s.ascending
  cases h : ofList s.toList
  rw [h] at same
  cases s
  cases same
  rfl

end TagSet

end Wordhoard
