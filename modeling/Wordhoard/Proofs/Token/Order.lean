import Mathlib.Data.List.Nodup
import Wordhoard.Proofs.Grammar.Language
import Wordhoard.Proofs.Text.Position
import Wordhoard.Token.Rule

/-! The tokens of a text stand one behind the other, so a place in their stream is known by its
offset. -/
namespace Wordhoard

variable {κ : Type}

theorem Text.Mark.index_next (m : Mark) (c : Char) : (m.next c).index = m.index + c.utf8Size := by
  unfold next
  split
  · rfl
  · split <;> rfl

theorem Text.Mark.index_advance (m : Mark) (s : List Char) :
    (m.advance s).index = m.index + byteLength s := by
  induction s generalizing m with
  | nil => rfl
  | cons c rest ih =>
    have step := ih (m.next c)
    rw [index_next] at step
    simpa [advance, byteLength_cons, Nat.add_assoc] using step

def Ending.position : Ending → Text.Position
  | finished p => p
  | stuck e => e.position

namespace Stream

def indices (s : Stream κ) : List Nat :=
  s.tokens.map (·.position.index) ++ [s.ending.position.index]

def Ordered (s : Stream κ) : Prop := s.indices.Pairwise (· < ·)

theorem indices_prepend (ts : List (Token κ)) (s : Stream κ) :
    (s.prepend ts).indices = ts.map (·.position.index) ++ s.indices := by
  simp [indices]

end Stream

namespace Rule

theorem ne_nil_of_first? {rules : List (Rule κ)} {s piece rest : List Char} {r : Rule κ}
    (h : first? rules s = some (r, piece, rest)) : piece ≠ [] := by
  obtain ⟨r', -, found⟩ := List.exists_of_findSome?_eq_some h
  obtain ⟨⟨piece, rest⟩, hcut, same⟩ := Option.map_eq_some_iff.1 found
  cases same
  rintro rfl
  unfold cut? at hcut
  split at hcut
  · cases hcut
  · rename_i nonempty
    exact nonempty _ hcut

theorem index_lt_advance {piece : List Char} (h : piece ≠ []) (m : Text.Mark) :
    m.index < (m.advance piece).index := by
  have := Text.byteLength_pos h
  rw [Text.Mark.index_advance]
  omega

theorem ordered_scan (rules : List (Rule κ)) (n : Nat) (m : Text.Mark) (s : List Char) :
    (scan rules n m s).Ordered ∧ ∀ i ∈ (scan rules n m s).indices, m.index ≤ i := by
  fun_induction scan rules n m s with
  | case1 n m => simp [Stream.Ordered, Stream.indices, Ending.position, Text.Mark.position,
      Text.Position.between]
  | case2 m s => simp [Stream.Ordered, Stream.indices, Ending.position, Text.Mark.position,
      Text.Position.between]
  | case3 m s n => simp [Stream.Ordered, Stream.indices, Ending.position, Text.Mark.position,
      Text.Position.between]
  | case4 n m s _ r piece rest found stream keep ih =>
    obtain ⟨ordered, later⟩ := ih
    have moved := index_lt_advance (ne_nil_of_first? found) m
    have first : Stream.indices { stream with tokens := r.token m piece :: stream.tokens } =
        m.index :: stream.indices := rfl
    unfold Stream.Ordered
    rw [first]
    refine ⟨List.pairwise_cons.2 ⟨fun i hi => Nat.lt_of_lt_of_le moved (later i hi), ordered⟩, ?_⟩
    intro i hi
    rcases List.mem_cons.1 hi with rfl | behind
    · exact Nat.le_refl _
    · exact Nat.le_of_lt (Nat.lt_of_lt_of_le moved (later i behind))
  | case5 n m s _ r piece rest found stream drop ih =>
    obtain ⟨ordered, later⟩ := ih
    have moved := index_lt_advance (ne_nil_of_first? found) m
    exact ⟨ordered, fun i hi => Nat.le_of_lt (Nat.lt_of_lt_of_le moved (later i hi))⟩

theorem ordered_stream (rules : List (Rule κ)) (text : String) : (stream rules text).Ordered :=
  (ordered_scan rules _ _ _).1

end Rule

namespace Stream.Ordered

variable {s : Stream κ} {c c' : Cursor κ} {ts ts' : List (Token κ)}

theorem head_indices (c : Cursor κ) : ∃ others, c.stream.indices = c.index :: others := by
  cases c with
  | token t s => exact ⟨s.indices, rfl⟩
  | finished p => exact ⟨[], rfl⟩

theorem unique (h : s.Ordered) {t t' : Token κ} (mem : t ∈ s.tokens) (mem' : t' ∈ s.tokens)
    (same : t.position.index = t'.position.index) : t = t' := by
  have distinct : (s.tokens.map (·.position.index)).Nodup :=
    (List.pairwise_append.1 h).1.imp Nat.ne_of_lt
  exact List.inj_on_of_nodup_map distinct mem mem' same

theorem index_lt_ending (h : s.Ordered) {t : Token κ} (mem : t ∈ s.tokens) :
    t.position.index < s.ending.position.index :=
  (List.pairwise_append.1 h).2.2 _ (List.mem_map_of_mem mem) _ List.mem_cons_self

theorem place (h : s.Ordered) (hc : s = c.stream.prepend ts) :
    (∀ t ∈ ts, t.position.index < c.index) ∧ ∀ t ∈ c.stream.tokens, c.index ≤ t.position.index := by
  obtain ⟨others, head⟩ := head_indices c
  rw [hc, Ordered, indices_prepend, List.pairwise_append] at h
  obtain ⟨-, ordered, before⟩ := h
  refine ⟨fun t ht => before _ (List.mem_map_of_mem ht) _ (by rw [head]; exact List.mem_cons_self),
    fun t ht => ?_⟩
  have mem : t.position.index ∈ c.stream.indices :=
    List.mem_append_left _ (List.mem_map_of_mem ht)
  rw [head] at ordered mem
  rcases List.mem_cons.1 mem with same | behind
  · exact Nat.le_of_eq same.symm
  · exact Nat.le_of_lt ((List.pairwise_cons.1 ordered).1 _ behind)

theorem getElem?_indices (hc : s = c.stream.prepend ts) : s.indices[ts.length]? = some c.index := by
  obtain ⟨others, head⟩ := head_indices c
  rw [hc, indices_prepend, List.getElem?_append_right (by simp), head]
  simp

theorem index_lt (h : s.Ordered) (hc : s = c.stream.prepend ts) (hc' : s = c'.stream.prepend ts')
    (longer : ts.length < ts'.length) : c.index < c'.index := by
  obtain ⟨bound, here⟩ := List.getElem?_eq_some_iff.1 (getElem?_indices hc)
  obtain ⟨bound', there⟩ := List.getElem?_eq_some_iff.1 (getElem?_indices hc')
  have less := List.pairwise_iff_getElem.1 h _ _ bound bound' longer
  rwa [here, there] at less

theorem index_eq (same : c.stream = c'.stream) : c.index = c'.index := by
  obtain ⟨others, head⟩ := head_indices c
  obtain ⟨others', head'⟩ := head_indices c'
  rw [same, head'] at head
  exact (List.cons.inj head).1.symm

theorem eq_of_index_eq (h : s.Ordered) (hc : s = c.stream.prepend ts)
    (hc' : s = c'.stream.prepend ts') (same : c.index = c'.index) : ts = ts' := by
  have length : ts.length = ts'.length := by
    rcases Nat.lt_trichotomy ts.length ts'.length with less | equal | more
    · exact absurd same (Nat.ne_of_lt (h.index_lt hc hc' less))
    · exact equal
    · exact absurd same.symm (Nat.ne_of_lt (h.index_lt hc' hc more))
  have tokens : ts ++ c.stream.tokens = ts' ++ c'.stream.tokens :=
    congrArg Stream.tokens (hc.symm.trans hc')
  exact (List.append_inj tokens length).1

end Stream.Ordered

theorem Grammar.Passes.same_place [DecidableEq κ] {c a b : Cursor κ} {ls ms : List (Leaf κ)}
    (h : Passes c ls a) (h' : Passes c ms b) (same : a.remaining = b.remaining) :
    ls.map Leaf.token = ms.map Leaf.token ∧ a.index = b.index := by
  have length : (ls.map Leaf.token).length = (ms.map Leaf.token).length := by
    have := h.remaining
    have := h'.remaining
    simp only [List.length_map]
    omega
  have tokens : ls.map Leaf.token ++ a.stream.tokens = ms.map Leaf.token ++ b.stream.tokens :=
    congrArg Stream.tokens (h.symm.trans h')
  have here := Stream.Ordered.getElem?_indices h
  have there := Stream.Ordered.getElem?_indices h'
  rw [length, there] at here
  exact ⟨(List.append_inj tokens length).1, (Option.some.inj here).symm⟩

end Wordhoard
