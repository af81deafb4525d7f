import Wordhoard.Collection.KeyMap

/-! What the operations on ascending maps do to their pairs. Main statements: a new greatest key comes
last, and the value of a present key changes in its place. -/
namespace Wordhoard

universe u

variable {α : Type u} {k : String} {v : α} {l : List (String × α)}

theorem putOrdered_of_greatest (h : ∀ x ∈ l.map Prod.fst, x < k) :
    putOrdered k v l = l ++ [(k, v)] := by
  induction l with
  | nil => rfl
  | cons p rest ih =>
    obtain ⟨less, others⟩ := List.forall_mem_cons.1 h
    rw [putOrdered, if_neg (String.lt_asymm less), if_pos less, ih others, List.cons_append]

def withValue (k : String) (v : α) (l : List (String × α)) : List (String × α) :=
  l.map fun p => if p.1 = k then (k, v) else p

theorem withValue_of_not_mem (h : k ∉ l.map Prod.fst) : withValue k v l = l := by
  induction l with
  | nil => rfl
  | cons p rest ih =>
    simp only [List.map_cons, List.mem_cons, not_or] at h
    have further : withValue k v rest = rest := ih h.2
    rw [withValue, List.map_cons, if_neg (Ne.symm h.1)]
    exact congrArg _ further

theorem putOrdered_of_mem (ascending : (l.map Prod.fst).Pairwise (· < ·))
    (h : k ∈ l.map Prod.fst) : putOrdered k v l = withValue k v l := by
  induction l with
  | nil => cases h
  | cons p rest ih =>
    obtain ⟨x, w⟩ := p
    obtain ⟨first, others⟩ := List.pairwise_cons.1 ascending
    by_cases same : x = k
    · subst same
      have further : withValue x v rest = rest :=
        withValue_of_not_mem fun mem => String.lt_irrefl x (first x mem)
      rw [putOrdered, if_neg (String.lt_irrefl x), if_neg (String.lt_irrefl x), withValue,
        List.map_cons, if_pos rfl]
      exact congrArg _ further.symm
    · have later : k ∈ rest.map Prod.fst := by
        rcases List.mem_cons.1 h with here | later
        · exact absurd here.symm same
        · exact later
      have less := first k later
      rw [putOrdered, if_neg (String.lt_asymm less), if_pos less, ih others later, withValue,
        withValue, List.map_cons, if_neg same]

theorem mem_of_mem_putOrdered {p : String × α} (h : p ∈ putOrdered k v l) : p = (k, v) ∨ p ∈ l := by
  induction l with
  | nil => exact .inl (List.mem_singleton.1 h)
  | cons q rest ih =>
    obtain ⟨x, w⟩ := q
    unfold putOrdered at h
    split at h
    · exact List.mem_cons.1 h
    split at h
    · rcases List.mem_cons.1 h with here | later
      · exact .inr (List.mem_cons.2 (.inl here))
      · exact (ih later).imp_right fun mem => List.mem_cons.2 (.inr mem)
    · exact (List.mem_cons.1 h).imp_right fun mem => List.mem_cons.2 (.inr mem)

theorem lookup_eq_some_iff (ascending : (l.map Prod.fst).Pairwise (· < ·)) :
    l.lookup k = some v ↔ (k, v) ∈ l := by
  induction l with
  | nil => simp
  | cons p rest ih =>
    obtain ⟨x, w⟩ := p
    obtain ⟨first, others⟩ := List.pairwise_cons.1 ascending
    by_cases same : k = x
    · subst same
      have absent : (k, v) ∉ rest := fun mem =>
        String.lt_irrefl k (first k (List.mem_map_of_mem mem))
      simp [absent, eq_comm]
    · have different : (k == x) = false := by simpa using same
      rw [List.lookup_cons, different, List.mem_cons, ih others]
      simp [same]

namespace KeyMap

variable {m : KeyMap α}

theorem toList_insert_of_greatest (h : ∀ x ∈ m.keys, x < k) :
    (m.insert k v).toList = m.toList ++ [(k, v)] :=
  putOrdered_of_greatest h

theorem toList_insert_of_mem (h : k ∈ m.keys) :
    (m.insert k v).toList = withValue k v m.toList :=
  putOrdered_of_mem m.ascending h

theorem get?_eq_some_iff : m.get? k = some v ↔ (k, v) ∈ m.toList :=
  lookup_eq_some_iff m.ascending

theorem toList_foldl_insert {pairs : List (String × α)}
    (h : ((m.toList ++ pairs).map Prod.fst).Pairwise (· < ·)) :
    (pairs.foldl (fun m p => m.insert p.1 p.2) m).toList = m.toList ++ pairs := by
  induction pairs generalizing m with
  | nil => rw [List.foldl_nil, List.append_nil]
  | cons p others ih =>
    have last : (m.insert p.1 p.2).toList = m.toList ++ [p] := by
      refine toList_insert_of_greatest fun x mem => ?_
      rw [List.map_append, List.pairwise_append] at h
      exact h.2.2 x mem p.1 List.mem_cons_self
    rw [List.foldl_cons, ih (by rwa [last, List.append_assoc]), last, List.append_assoc]
    rfl

theorem ofList_toList (m : KeyMap α) : ofList m.toList = m :=
  ext (toList_foldl_insert m.ascending)

theorem mem_of_mem_foldl_insert {pairs : List (String × α)} {p : String × α}
    (h : p ∈ (pairs.foldl (fun m p => m.insert p.1 p.2) m).toList) : p ∈ pairs ∨ p ∈ m.toList := by
  induction pairs generalizing m with
  | nil => exact .inr h
  | cons q others ih =>
    rcases ih h with later | earlier
    · exact .inl (List.mem_cons_of_mem _ later)
    · rcases mem_of_mem_putOrdered earlier with rfl | mem
      · exact .inl List.mem_cons_self
      · exact .inr mem

theorem mem_of_mem_ofList {pairs : List (String × α)} {p : String × α}
    (h : p ∈ (ofList pairs).toList) : p ∈ pairs :=
  (mem_of_mem_foldl_insert h).resolve_right List.not_mem_nil

end KeyMap

end Wordhoard
