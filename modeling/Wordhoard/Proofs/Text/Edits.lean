/-! Edits of a text, and two texts laid side by side. Main statement: the cheapest way to lay them
side by side costs just as much as the fewest edits that turn one into the other. -/
namespace Wordhoard.Text

/-- One edit: a character put in, taken out or exchanged for another one, or two neighbours swapped. -/
inductive Edit : List Char → List Char → Prop where
  | insert (c : Char) (a : List Char) : Edit a (c :: a)
  | delete (c : Char) (a : List Char) : Edit (c :: a) a
  | replace (c d : Char) (a : List Char) : Edit (c :: a) (d :: a)
  | swap (c d : Char) (a : List Char) : Edit (c :: d :: a) (d :: c :: a)
  | behind (c : Char) {a b : List Char} : Edit a b → Edit (c :: a) (c :: b)

inductive Edits : Nat → List Char → List Char → Prop where
  | none (a : List Char) : Edits 0 a a
  | more {n : Nat} {a b c : List Char} : Edits n a b → Edit b c → Edits (n + 1) a c

/-- The texts can be laid side by side at no more than this cost. Two characters that change places
cost one, and one more for each character between them that is in one of the texts only. -/
inductive Aligned : Nat → List Char → List Char → Prop where
  | nil (n : Nat) : Aligned n [] []
  | keep {n : Nat} {a b : List Char} (x : Char) : Aligned n a b → Aligned n (x :: a) (x :: b)
  | replace {n : Nat} {a b : List Char} (x y : Char) :
    Aligned n a b → Aligned (n + 1) (x :: a) (y :: b)
  | delete {n : Nat} {a b : List Char} (x : Char) : Aligned n a b → Aligned (n + 1) (x :: a) b
  | insert {n : Nat} {a b : List Char} (y : Char) : Aligned n a b → Aligned (n + 1) a (y :: b)
  | swap {n : Nat} {a b : List Char} (x y : Char) (u v : List Char) : Aligned n a b →
    Aligned (n + u.length + 1 + v.length) (x :: (u ++ y :: a)) (y :: (v ++ x :: b))

variable {m n : Nat} {a b c : List Char}

theorem Edits.trans (first : Edits m a b) (second : Edits n b c) : Edits (m + n) a c := by
  induction second with
  | none => exact first
  | more _ edit ih => exact .more (ih first) edit

theorem Edits.behind (x : Char) (h : Edits n a b) : Edits n (x :: a) (x :: b) := by
  induction h with
  | none => exact .none _
  | more _ edit ih => exact .more ih (.behind x edit)

theorem Edits.prepend (u : List Char) (h : Edits n a b) : Edits n (u ++ a) (u ++ b) := by
  induction u with
  | nil => exact h
  | cons x u ih => exact ih.behind x

theorem Edits.deletes (u a : List Char) : Edits u.length (u ++ a) a := by
  induction u with
  | nil => exact .none a
  | cons x u ih => exact .more (ih.behind x) (.delete x a)

theorem Edits.inserts (v a : List Char) : Edits v.length a (v ++ a) := by
  induction v with
  | nil => exact .none a
  | cons y v ih => exact .more ih (.insert y (v ++ a))

theorem Edits.swap (x y : Char) (u v a : List Char) :
    Edits (u.length + 1 + v.length) (x :: (u ++ y :: a)) (y :: (v ++ x :: a)) :=
  have apart : Edits u.length (x :: (u ++ y :: a)) (x :: y :: a) := (deletes u (y :: a)).behind x
  have swapped : Edits (u.length + 1) (x :: (u ++ y :: a)) (y :: x :: a) := .more apart (.swap x y a)
  swapped.trans ((inserts v (x :: a)).behind y)

theorem Edit.length_le (h : Edit a b) : a.length ≤ b.length + 1 ∧ b.length ≤ a.length + 1 := by
  induction h with
  | behind x _ ih => simpa only [List.length_cons, Nat.add_le_add_iff_right] using ih
  | _ => simp only [List.length_cons]; omega

theorem Edits.length_le (h : Edits n a b) : a.length ≤ b.length + n ∧ b.length ≤ a.length + n := by
  induction h with
  | none => exact ⟨Nat.le_refl _, Nat.le_refl _⟩
  | more _ edit ih =>
    have one := edit.length_le
    omega

theorem Aligned.edits (h : Aligned n a b) : ∃ m ≤ n, Edits m a b := by
  induction h with
  | nil n => exact ⟨0, Nat.zero_le n, .none []⟩
  | keep x _ ih =>
    obtain ⟨m, less, edits⟩ := ih
    exact ⟨m, less, edits.behind x⟩
  | replace x y _ ih =>
    obtain ⟨m, less, edits⟩ := ih
    exact ⟨m + 1, Nat.succ_le_succ less, .more (edits.behind x) (.replace x y _)⟩
  | delete x _ ih =>
    obtain ⟨m, less, edits⟩ := ih
    exact ⟨m + 1, Nat.succ_le_succ less, .more (edits.behind x) (.delete x _)⟩
  | insert y _ ih =>
    obtain ⟨m, less, edits⟩ := ih
    exact ⟨m + 1, Nat.succ_le_succ less, .more edits (.insert y _)⟩
  | @swap n a b x y u v _ ih =>
    obtain ⟨m, less, edits⟩ := ih
    have behind : Edits m (x :: (u ++ y :: a)) (x :: (u ++ y :: b)) :=
      ((edits.behind y).prepend u).behind x
    exact ⟨m + (u.length + 1 + v.length), by omega, behind.trans (.swap x y u v b)⟩

namespace Aligned

theorem mono (h : Aligned n a b) (le : n ≤ m) : Aligned m a b := by
  induction h generalizing m with
  | nil => exact .nil m
  | keep x _ ih => exact .keep x (ih le)
  | replace x y _ ih =>
    obtain ⟨k, rfl⟩ : ∃ k, m = k + 1 := Nat.exists_eq_add_of_le' (by omega)
    exact .replace x y (ih (by omega))
  | delete x _ ih =>
    obtain ⟨k, rfl⟩ : ∃ k, m = k + 1 := Nat.exists_eq_add_of_le' (by omega)
    exact .delete x (ih (by omega))
  | insert y _ ih =>
    obtain ⟨k, rfl⟩ : ∃ k, m = k + 1 := Nat.exists_eq_add_of_le' (by omega)
    exact .insert y (ih (by omega))
  | swap x y u v _ ih =>
    obtain ⟨k, rfl⟩ : ∃ k, m = k + u.length + 1 + v.length :=
      ⟨m - (u.length + 1 + v.length), by omega⟩
    exact .swap x y u v (ih (by omega))

theorem refl (n : Nat) (a : List Char) : Aligned n a a := by
  induction a with
  | nil => exact .nil n
  | cons x a ih => exact .keep x ih

theorem deletes (u : List Char) (h : Aligned n a b) : Aligned (n + u.length) (u ++ a) b := by
  induction u with
  | nil => exact h
  | cons x u ih => exact .delete x ih

theorem inserts (v : List Char) (h : Aligned n a b) : Aligned (n + v.length) a (v ++ b) := by
  induction v with
  | nil => exact h
  | cons y v ih => exact .insert y ih

/-- A character of the second text goes in front of the one before it, which is kept. -/
theorem keep_past {d : Char} (h : Aligned n a (d :: b)) (x : Char) (w : List Char) :
    Aligned (n + w.length + 1) (x :: (w ++ a)) (d :: x :: b) := by
  generalize whole : d :: b = ds at h
  induction h generalizing w with
  | nil => cases whole
  | keep y h =>
    cases whole
    exact .swap x d w [] h
  | replace e y h =>
    cases whole
    exact .insert d (.keep x ((Aligned.delete e h).deletes w))
  | @delete n a _ e _ ih =>
    have further := ih (w ++ [e]) whole
    rw [List.append_assoc, List.length_append, ← Nat.add_assoc] at further
    exact further.mono (by simp only [List.length_singleton]; omega)
  | insert y h =>
    cases whole
    exact (Aligned.insert d (.keep x (h.deletes w))).mono (by omega)
  | swap p y u v h =>
    cases whole
    have behind := (Aligned.keep p ((Aligned.delete d h).deletes u)).inserts v
    exact (Aligned.insert d (.keep x (behind.deletes w))).mono (by omega)

inductive Across (x : Char) (v b : List Char) : List Char → Prop where
  | between (v' : List Char) (longer : v'.length ≤ v.length + 1) : Across x v b (v' ++ x :: b)
  | behind {b' : List Char} (edit : Edit b b') : Across x v b (v ++ x :: b')
  | deleted : Across x v b (v ++ b)
  | replaced (d : Char) : Across x v b (v ++ d :: b)
  | earlier (v' : List Char) (z : Char) (same : v = v' ++ [z]) : Across x v b (v' ++ x :: z :: b)
  | later (d : Char) (b' : List Char) (same : b = d :: b') : Across x v b (v ++ d :: x :: b')

theorem Across.cons {x : Char} {v : List Char} (z : Char) (h : Across x v b c) :
    Across x (z :: v) b (z :: c) := by
  cases h with
  | between v' longer => exact .between (z :: v') (Nat.succ_le_succ longer)
  | behind edit => exact .behind edit
  | deleted => exact .deleted
  | replaced d => exact .replaced d
  | earlier v' e same => exact .earlier (z :: v') e (congrArg (z :: ·) same)
  | later d b' same => exact .later d b' same

-- The induction is on what stands before the character: the edit is at its front or goes behind it.
theorem across_of_edit {x : Char} {v : List Char} (h : Edit (v ++ x :: b) c) : Across x v b c := by
  induction v generalizing c with
  | nil =>
    cases h with
    | insert d => exact .between [d] (Nat.le_refl _)
    | delete => exact .deleted
    | replace _ d => exact .replaced d
    | swap _ d b => exact .later d b rfl
    | behind _ edit => exact .behind edit
  | cons z v ih =>
    rw [List.cons_append] at h
    generalize whole : v ++ x :: b = rest at h
    cases h with
    | insert d => exact whole ▸ .between (d :: z :: v) (Nat.le_refl _)
    | delete => exact whole ▸ .between v (Nat.le_add_right_of_le (Nat.le_succ _))
    | replace _ d => exact whole ▸ .between (d :: v) (Nat.le_succ _)
    | swap _ d rest =>
      cases v with
      | nil =>
        cases whole
        exact .earlier [] z rfl
      | cons e v =>
        cases whole
        exact .between (d :: z :: v) (Nat.le_succ _)
    | behind _ edit => exact (ih (whole ▸ edit)).cons z

/-- The swap is given up: its second character stays, and the first is put in again elsewhere. -/
theorem unswap {x : Char} (y : Char) (u v : List Char) (h : Aligned n a b) :
    Aligned (n + v.length + u.length + 1) (x :: (u ++ y :: a)) (y :: (v ++ b)) :=
  .delete x ((Aligned.keep y (h.inserts v)).deletes u)

section

variable {x y : Char} {u v : List Char}

theorem edit_behind_swap (h : Aligned n a b) (further : ∀ c, Edit b c → Aligned (n + 1) a c)
    (e : Edit (v ++ x :: b) c) :
    Aligned (n + u.length + 1 + v.length + 1) (x :: (u ++ y :: a)) (y :: c) := by
  cases across_of_edit e with
  | between v' longer => exact (Aligned.swap x y u v' h).mono (by omega)
  | behind inner => exact (Aligned.swap x y u v (further _ inner)).mono (by omega)
  | deleted => exact (h.unswap y u v).mono (by omega)
  | replaced d => exact ((Aligned.insert d h).unswap y u v).mono (by omega)
  | earlier v' z same =>
    subst same
    exact (Aligned.swap x y u v' (.insert z h)).mono (by simp; omega)
  | later d b' same =>
    subst same
    exact ((further _ (.behind d (.insert x b'))).unswap y u v).mono (by omega)

theorem edit_swap (h : Aligned n a b) (further : ∀ c, Edit b c → Aligned (n + 1) a c)
    (e : Edit (y :: (v ++ x :: b)) c) :
    Aligned (n + u.length + 1 + v.length + 1) (x :: (u ++ y :: a)) c := by
  -- Without `y` the other character is kept, and all between the two is taken out or put in.
  have without : Aligned (n + 1 + u.length + v.length) (x :: (u ++ y :: a)) (v ++ x :: b) :=
    (Aligned.keep x ((Aligned.delete y h).deletes u)).inserts v
  generalize whole : v ++ x :: b = rest at e without
  cases e with
  | insert d => exact whole ▸ .insert d (.swap x y u v h)
  | delete => exact without.mono (by omega)
  | replace _ d => exact (Aligned.insert d without).mono (by omega)
  | swap _ d rest =>
    cases v with
    | nil =>
      cases whole
      exact (Aligned.keep x ((Aligned.keep y h).deletes u)).mono (by simp; omega)
    | cons _ v =>
      cases whole
      exact (Aligned.insert d (.swap x y u v h)).mono (by simp)
  | behind _ e =>
    subst whole
    exact h.edit_behind_swap further e

end

theorem edit (h : Aligned n a b) (e : Edit b c) : Aligned (n + 1) a c := by
  induction h generalizing c with
  | nil n =>
    cases e with
    | insert d => exact .insert d (.nil n)
  | keep x h ih =>
    cases e with
    | insert d => exact .insert d (.keep x h)
    | delete => exact .delete x h
    | replace _ d => exact .replace x d h
    | swap _ d b => exact h.keep_past x []
    | behind _ e => exact .keep x (ih e)
  | replace x y h ih =>
    cases e with
    | insert d => exact .insert d (.replace x y h)
    | delete => exact (Aligned.delete x h).mono (Nat.le_succ _)
    | replace _ d => exact (Aligned.replace x d h).mono (Nat.le_succ _)
    | swap _ d b => exact .delete x (ih (.behind d (.insert y b)))
    | behind _ e => exact .replace x y (ih e)
  | delete x _ ih => exact .delete x (ih e)
  | insert y h ih =>
    cases e with
    | insert d => exact .insert d (.insert y h)
    | delete => exact h.mono (by omega)
    | replace _ d => exact (Aligned.insert d h).mono (Nat.le_succ _)
    | swap _ d b => exact (ih (.behind d (.insert y b))).mono (Nat.le_succ _)
    | behind _ e => exact .insert y (ih e)
  | swap x y u v h ih => exact h.edit_swap (fun _ => ih) e

theorem length_le_of_apart (h : Aligned n a b) (apart : ∀ c ∈ a, c ∉ b) :
    a.length ≤ n ∧ b.length ≤ n := by
  induction h with
  | nil n => exact ⟨Nat.zero_le n, Nat.zero_le n⟩
  | keep x => exact absurd List.mem_cons_self (apart x List.mem_cons_self)
  | replace x y _ ih =>
    have rest := ih fun c mem mem' =>
      apart c (List.mem_cons_of_mem x mem) (List.mem_cons_of_mem y mem')
    exact ⟨Nat.succ_le_succ rest.1, Nat.succ_le_succ rest.2⟩
  | delete x _ ih =>
    have rest := ih fun c mem => apart c (List.mem_cons_of_mem x mem)
    exact ⟨Nat.succ_le_succ rest.1, Nat.le_succ_of_le rest.2⟩
  | insert y _ ih =>
    have rest := ih fun c mem mem' => apart c mem (List.mem_cons_of_mem y mem')
    exact ⟨Nat.le_succ_of_le rest.1, Nat.succ_le_succ rest.2⟩
  | @swap _ _ b x y u v =>
    have there : x ∈ y :: (v ++ x :: b) :=
      List.mem_cons_of_mem y (List.mem_append_right v List.mem_cons_self)
    exact absurd there (apart x List.mem_cons_self)

end Aligned

theorem Edits.aligned (h : Edits n a b) : Aligned n a b := by
  induction h with
  | none a => exact .refl 0 a
  | more _ edit ih => exact ih.edit edit

/-- The edits and the ways to lay texts side by side cost the same. -/
theorem aligned_iff : Aligned n a b ↔ ∃ m ≤ n, Edits m a b :=
  ⟨Aligned.edits, fun ⟨_, less, edits⟩ => edits.aligned.mono less⟩

end Wordhoard.Text
