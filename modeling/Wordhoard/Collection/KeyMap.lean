/-! Finite maps from texts, held in ascending order of their keys, so that equal maps are equal. -/
namespace Wordhoard

universe u

variable {α : Type u}

def putOrdered (k : String) (v : α) : List (String × α) → List (String × α)
  | [] => [(k, v)]
  | (l, w) :: rest =>
    if k < l then (k, v) :: (l, w) :: rest
    else if l < k then (l, w) :: putOrdered k v rest
    else (k, v) :: rest

theorem mem_keys_putOrdered {k x : String} {v : α} {l : List (String × α)} :
    x ∈ (putOrdered k v l).map Prod.fst ↔ x = k ∨ x ∈ l.map Prod.fst := by
  induction l with
  | nil => simp [putOrdered]
  | cons p rest ih =>
    obtain ⟨l, w⟩ := p
    unfold putOrdered
    split
    · simp
    · split
      · simp only [List.map_cons, List.mem_cons, ih]
        constructor
        · rintro (h | h | h) <;> simp [h]
        · rintro (h | h | h) <;> simp [h]
      · rename_i h₁ h₂
        have same : k = l := String.le_antisymm (String.not_lt.1 h₂) (String.not_lt.1 h₁)
        simp [same]

theorem pairwise_putOrdered {k : String} {v : α} {l : List (String × α)}
    (h : (l.map Prod.fst).Pairwise (· < ·)) :
    ((putOrdered k v l).map Prod.fst).Pairwise (· < ·) := by
  induction l with
  | nil => simp [putOrdered]
  | cons p rest ih =>
    obtain ⟨l, w⟩ := p
    obtain ⟨first, others⟩ := List.pairwise_cons.1 h
    unfold putOrdered
    split
    · rename_i less
      refine List.pairwise_cons.2 ⟨fun x hx => ?_, h⟩
      rcases List.mem_cons.1 hx with same | later
      · exact same ▸ less
      · exact String.lt_trans less (first x later)
    · split
      · rename_i more
        refine List.pairwise_cons.2 ⟨fun x hx => ?_, ih others⟩
        rcases mem_keys_putOrdered.1 hx with same | later
        · exact same ▸ more
        · exact first x later
      · rename_i h₁ h₂
        have same : k = l := String.le_antisymm (String.not_lt.1 h₂) (String.not_lt.1 h₁)
        exact same ▸ h

theorem pairwise_no_keys : (([] : List (String × α)).map Prod.fst).Pairwise (· < ·) := .nil

structure KeyMap (α : Type u) where
  toList : List (String × α) := []
  ascending : (toList.map Prod.fst).Pairwise (· < ·) := by exact pairwise_no_keys

namespace KeyMap

theorem ext {a b : KeyMap α} (h : a.toList = b.toList) : a = b := by
  cases a; cases b; cases h; rfl

instance [DecidableEq α] : DecidableEq (KeyMap α) := fun a b =>
  decidable_of_iff (a.toList = b.toList) ⟨ext, fun h => h ▸ rfl⟩

def empty : KeyMap α := {}

def size (m : KeyMap α) : Nat := m.toList.length

def keys (m : KeyMap α) : List String := m.toList.map Prod.fst

def get? (m : KeyMap α) (k : String) : Option α := m.toList.lookup k

def insert (m : KeyMap α) (k : String) (v : α) : KeyMap α :=
  ⟨putOrdered k v m.toList, pairwise_putOrdered m.ascending⟩

def erase (m : KeyMap α) (k : String) : KeyMap α :=
  ⟨m.toList.filter (·.1 ≠ k), m.ascending.sublist ((List.filter_sublist).map _)⟩

def mapValues {β : Type u} (f : α → β) (m : KeyMap α) : KeyMap β :=
  ⟨m.toList.map fun p => (p.1, f p.2), by
    simpa only [List.map_map, Function.comp_def] using m.ascending⟩

/-- Later pairs replace earlier ones of the same key. -/
def ofList (pairs : List (String × α)) : KeyMap α :=
  pairs.foldl (fun m p => m.insert p.1 p.2) empty

end KeyMap

end Wordhoard
