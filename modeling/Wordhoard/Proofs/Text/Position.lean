import Wordhoard.Text.Position

/-! Places by the text before them: its bytes, its newlines, and what stands after the last one. -/
namespace Wordhoard.Text

def rowAfter (before : List Char) : Nat := 1 + before.count '\n'

/-- One more than the characters behind the last newline, carriage returns apart. -/
def columnAfter (before : List Char) : Nat :=
  1 + (before.reverse.takeWhile (· ≠ '\n')).countP (· ≠ '\r')

def Mark.after (before : List Char) : Mark :=
  ⟨byteLength before, rowAfter before, columnAfter before⟩

def Position.around (before piece : List Char) : Position :=
  ⟨byteLength before, rowAfter before, columnAfter before, rowAfter (before ++ piece),
    columnAfter (before ++ piece)⟩

variable {before piece rest : List Char} {c : Char}

theorem byteLength_append (s t : List Char) : byteLength (s ++ t) = byteLength s + byteLength t := by
  induction s with
  | nil => exact (Nat.zero_add _).symm
  | cons c others ih => rw [List.cons_append, byteLength_cons, byteLength_cons, ih, Nat.add_assoc]

theorem byteLength_pos {s : List Char} (h : s ≠ []) : 0 < byteLength s := by
  cases s with
  | nil => exact absurd rfl h
  | cons c rest =>
    have := c.utf8Size_pos
    rw [byteLength_cons]
    omega

theorem byteLength_toList (s : String) : byteLength s.toList = s.utf8ByteSize := by
  have listed (l : List Char) : (String.ofList l).utf8ByteSize = byteLength l := by
    induction l with
    | nil => rfl
    | cons c others ih =>
      have whole : String.ofList (c :: others) = String.singleton c ++ String.ofList others := by
        rw [String.singleton_eq_ofList, ← String.ofList_append, List.singleton_append]
      rw [whole, String.utf8ByteSize_append, String.utf8ByteSize_singleton, ih, byteLength_cons]
  rw [← listed, String.ofList_toList]

theorem byteLength_of_ascii {s : List Char} (ascii : ∀ c ∈ s, c.val ≤ 127) :
    byteLength s = s.length := by
  induction s with
  | nil => rfl
  | cons c others ih =>
    obtain ⟨first, others⟩ := List.forall_mem_cons.1 ascii
    rw [byteLength_cons, Char.utf8Size_eq_one_iff.2 first, ih others, List.length_cons, Nat.add_comm]

theorem Mark.position_after : (Mark.after before).position = .around before [] := by
  rw [Position.around, List.append_nil]
  rfl

theorem Mark.next_after : (Mark.after before).next c = .after (before ++ [c]) := by
  have bytes : byteLength (before ++ [c]) = byteLength before + c.utf8Size := by
    rw [byteLength_append, byteLength_cons]
    rfl
  unfold next
  split
  · rename_i same
    subst same
    simp [after, bytes, rowAfter, columnAfter]
  · rename_i visible
    split
    · rename_i same
      subst same
      simp [after, bytes, rowAfter, columnAfter, Nat.add_assoc]
    · rename_i inside
      simp [after, bytes, rowAfter, columnAfter, visible, inside, Nat.add_assoc]

theorem Mark.advance_after : (Mark.after before).advance piece = .after (before ++ piece) := by
  induction piece generalizing before with
  | nil => rw [List.append_nil]; rfl
  | cons c others ih =>
    have step : (Mark.after (before ++ [c])).advance others = .after (before ++ [c] ++ others) := ih
    rw [List.append_assoc, List.singleton_append, ← next_after] at step
    exact step

theorem splitBytes?_append : splitBytes? (byteLength piece) (piece ++ rest) = some (piece, rest) := by
  induction piece with
  | nil => simp [byteLength, splitBytes?]
  | cons c others ih =>
    obtain ⟨n, hn⟩ := Nat.exists_eq_add_one.2 (Nat.add_pos_left c.utf8Size_pos (byteLength others))
    have fits : c.utf8Size ≤ n + 1 := by omega
    have left : n + 1 - c.utf8Size = byteLength others := by omega
    rw [byteLength_cons, hn, List.cons_append, splitBytes?, if_pos fits, left, ih]
    rfl

theorem append_of_splitBytes? {n : Nat} {s : List Char} (h : splitBytes? n s = some (piece, rest)) :
    s = piece ++ rest ∧ byteLength piece = n := by
  fun_induction splitBytes? n s generalizing piece with
  | case1 s =>
    cases h
    exact ⟨rfl, rfl⟩
  | case2 => cases h
  | case3 n c others fits ih =>
    obtain ⟨⟨a, b⟩, inner, same⟩ := Option.map_eq_some_iff.1 h
    cases same
    obtain ⟨rfl, length⟩ := ih inner
    refine ⟨rfl, ?_⟩
    rw [byteLength_cons, length]
    omega
  | case4 => cases h

theorem splitBytes?_eq_some_iff {n : Nat} {s : List Char} :
    splitBytes? n s = some (piece, rest) ↔ s = piece ++ rest ∧ byteLength piece = n := by
  refine ⟨append_of_splitBytes?, ?_⟩
  rintro ⟨rfl, rfl⟩
  exact splitBytes?_append

/-- So many bytes end between the first and the last byte of a character. -/
def InsideCharacter (s : List Char) (n : Nat) : Prop :=
  ∃ a c b, s = a ++ c :: b ∧ byteLength a < n ∧ n < byteLength a + c.utf8Size

theorem splitBytes?_eq_none_iff {n : Nat} {s : List Char} :
    splitBytes? n s = none ↔ byteLength s < n ∨ InsideCharacter s n := by
  constructor
  · intro h
    fun_induction splitBytes? n s with
    | case1 => cases h
    | case2 n => exact .inl (Nat.succ_pos n)
    | case3 n c others fits ih =>
      rcases ih (Option.map_eq_none_iff.1 h) with past | ⟨a, d, b, rfl, after, before⟩
      · rw [byteLength_cons]
        exact .inl (by omega)
      · refine .inr ⟨c :: a, d, b, rfl, ?_, ?_⟩ <;> rw [byteLength_cons] <;> omega
    | case4 n c others long =>
      refine .inr ⟨[], c, others, rfl, Nat.succ_pos n, ?_⟩
      simpa [byteLength] using long
  · intro h
    cases split : splitBytes? n s with
    | none => rfl
    | some parts =>
      obtain ⟨rfl, length⟩ := splitBytes?_eq_some_iff.1 split
      rw [byteLength_append] at h
      rcases h with past | ⟨a, c, b, same, after, before⟩
      · omega
      · rcases List.append_eq_append_iff.1 same with ⟨m, rfl, -⟩ | ⟨m, inside, next⟩
        · rw [byteLength_append] at after
          omega
        · cases m with
          | nil =>
            rw [inside, List.append_nil] at length
            omega
          | cons d m =>
            obtain ⟨rfl, -⟩ := List.cons.inj next
            rw [inside, byteLength_append, byteLength_cons] at length
            omega

end Wordhoard.Text
