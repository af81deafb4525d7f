import Wordhoard.Pattern.Anchored

/-! What the scan for outer alternatives makes of a piece of a pattern. It passes over the pieces in
which it finds no parenthesis and no bar outside classes, and every alternative that it gives begins
where it stood. -/
namespace Wordhoard.Pattern

variable {c : Char} {current piece rest : List Char} {depth : Nat} {alternatives : List (List Char)}

/-- The scan inside so many groups, and outside classes or inside one. -/
def outline (inClass : Bool) (depth : Nat) (current s : List Char) : Option (List (List Char)) :=
  outerAlternatives { depth, inClass } current s

def marks : List Char := ['\\', '[', '(', ')', '|']

theorem outline_escape {inClass : Bool} (c : Char) :
    outline inClass depth current ('\\' :: c :: rest) =
      outline inClass depth (c :: '\\' :: current) rest := rfl

theorem outline_of_quiet (quiet : c ∉ marks) :
    outline false depth current (c :: rest) = outline false depth (c :: current) rest := by
  simp only [marks, List.mem_cons, List.not_mem_nil, or_false, not_or] at quiet
  simp [outline, outerAlternatives, quiet]

theorem outline_bracket :
    outline false depth current ('[' :: rest) = outline true depth ('[' :: current) rest := rfl

theorem outline_class_close :
    outline true depth current (']' :: rest) = outline false depth (']' :: current) rest := rfl

theorem outline_class_of_ne (bare : c ≠ '\\') (inside : c ≠ ']') :
    outline true depth current (c :: rest) = outline true depth (c :: current) rest := by
  simp [outline, outerAlternatives, bare, inside]

theorem outline_parenthesis (h : outline false depth current ('(' :: rest) = some alternatives) :
    namesMultiLine rest = false ∧
      outline false (depth + 1) ('(' :: current) rest = some alternatives := by
  simp only [outline, outerAlternatives] at h
  cases multi : namesMultiLine rest with
  | true => simp [multi] at h
  | false => exact ⟨rfl, by simpa [multi, outline] using h⟩

theorem outline_close :
    outline false (depth + 1) current (')' :: rest) = outline false depth (')' :: current) rest := rfl

theorem outline_inner_bar :
    outline false (depth + 1) current ('|' :: rest) =
      outline false (depth + 1) ('|' :: current) rest := rfl

theorem outline_bar :
    outline false 0 current ('|' :: rest) =
      (outline false 0 [] rest).map (current.reverse :: ·) := rfl

/-- From outside a class or from inside one, the scan comes to no parenthesis and no bar outside
classes, and it leaves no class open. -/
inductive Calm : (inClass : Bool) → List Char → Prop where
  | nil : Calm false []
  | quiet {c : Char} {s : List Char} (quiet : c ∉ marks) (others : Calm false s) :
      Calm false (c :: s)
  | bracket {s : List Char} (others : Calm true s) : Calm false ('[' :: s)
  | escape {inClass : Bool} {c : Char} {s : List Char} (others : Calm inClass s) :
      Calm inClass ('\\' :: c :: s)
  | close {s : List Char} (others : Calm false s) : Calm true (']' :: s)
  | member {c : Char} {s : List Char} (bare : c ≠ '\\') (inside : c ≠ ']') (others : Calm true s) :
      Calm true (c :: s)

theorem Calm.outline_append {inClass : Bool} (h : Calm inClass piece) (current : List Char) :
    outline inClass depth current (piece ++ rest) =
      outline false depth (piece.reverse ++ current) rest := by
  induction h generalizing current with
  | nil => rfl
  | quiet quiet others ih => simpa [outline_of_quiet quiet] using ih _
  | bracket others ih => simpa [outline_bracket] using ih _
  | escape others ih => simpa [outline_escape] using ih _
  | close others ih => simpa [outline_class_close] using ih _
  | member bare inside others ih => simpa [outline_class_of_ne bare inside] using ih _

theorem calm_of_quiet (quiet : ∀ c ∈ piece, c ∉ marks) : Calm false piece := by
  induction piece with
  | nil => exact .nil
  | cons c others ih =>
    obtain ⟨first, later⟩ := List.forall_mem_cons.1 quiet
    exact .quiet first (ih later)

theorem exists_alternative {o : Outline} {s : List Char}
    (h : outerAlternatives o current s = some alternatives) :
    ∃ piece others, piece <+: s ∧ alternatives = (current.reverse ++ piece) :: others := by
  induction s generalizing o current alternatives with
  | nil =>
    cases h
    exact ⟨[], [], List.prefix_rfl, by rw [List.append_nil]⟩
  | cons c rest ih =>
    have further {o : Outline} (h : outerAlternatives o (c :: current) rest = some alternatives) :
        ∃ piece others, piece <+: c :: rest ∧ alternatives = (current.reverse ++ piece) :: others := by
      obtain ⟨piece, others, inside, rfl⟩ := ih h
      exact ⟨c :: piece, others, List.prefix_cons_inj c |>.2 inside, by simp⟩
    simp only [outerAlternatives] at h
    split at h
    · exact further h
    · split at h
      · exact further h
      · split at h
        · exact further h
        · split at h
          · exact further h
          · split at h
            · split at h
              · cases h
              · exact further h
            · split at h
              · exact further h
              · split at h
                · obtain ⟨others, -, rfl⟩ := Option.map_eq_some_iff.1 h
                  exact ⟨[], others, List.nil_prefix, by rw [List.append_nil]⟩
                · exact further h

theorem exists_of_startsAnchored {s : List Char} (h : startsAnchored s = true) :
    ∃ rest, s = '^' :: rest ∨ s = '\\' :: 'A' :: rest := by
  unfold startsAnchored at h
  split at h
  · exact ⟨_, .inl rfl⟩
  · exact ⟨_, .inr rfl⟩
  · cases h

theorem startsAnchored_of_prefix {s : List Char} (inside : piece <+: s)
    (h : startsAnchored piece = true) : startsAnchored s = true := by
  obtain ⟨rest, rfl⟩ := inside
  obtain ⟨others, rfl | rfl⟩ := exists_of_startsAnchored h
  · rfl
  · rfl

theorem startsAnchored_of_outline {s : List Char} (h : outline false 0 [] s = some alternatives)
    (anchored : ∀ a ∈ alternatives, startsAnchored a = true) : startsAnchored s = true := by
  obtain ⟨piece, others, inside, rfl⟩ := exists_alternative h
  exact startsAnchored_of_prefix inside (anchored _ List.mem_cons_self)

end Wordhoard.Pattern
