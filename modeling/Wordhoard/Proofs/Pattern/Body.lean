import Wordhoard.Proofs.Pattern.Reading

/-! How a pattern is put together from the parts of its text. Main statement: what is read of a pattern
whose parts can be told apart without reading them has a derivation, and over all parts inside a group
the scan for outer alternatives passes. -/
namespace Wordhoard.Pattern

variable [Properties] {f f' : Flags} {left : Option Pattern} {items : List (Option Pattern)} {p q : Pattern}
  {cs piece rest s : List Char}

/-- The scan is right about what stands in classes, names and comments: no parenthesis and no bar of
a class is taken for one outside, no name of a group holds an opening bracket, and nothing turns
comments on. -/
inductive Legible : List Char → Prop where
  | nil : Legible []
  | escape {c : Char} {s : List Char} (others : Legible s) : Legible ('\\' :: c :: s)
  | bracket {n : Nat} {f : Flags} {set : CharSet} {piece rest : List Char}
      (plain : f.verbose = false) (read : readClass n f (piece ++ rest) = some (set, rest))
      (calm : Calm true piece) (others : Legible rest) : Legible ('[' :: (piece ++ rest))
  | parenthesis {s : List Char} (comments : turnsOn 'x' s = false)
      (brackets : ∀ name ∈ groupName? s, '[' ∉ name) (others : Legible s) : Legible ('(' :: s)
  | plain {c : Char} {s : List Char} (plain : c ∉ ['\\', '[', '(']) (others : Legible s) :
      Legible (c :: s)

theorem Legible.of_cons {c : Char} (h : Legible (c :: s)) (plain : c ∉ ['\\', '[', '(']) :
    Legible s := by
  cases h with
  | plain _ others => exact others
  | _ => simp at plain

theorem Legible.of_escape {c : Char} (h : Legible ('\\' :: c :: s)) : Legible s := by
  cases h with
  | escape others => exact others
  | plain plain _ => simp at plain

theorem Legible.of_skims (h : Legible cs) (skims : Skims cs rest) : Legible rest := by
  obtain ⟨piece, rfl, quiet⟩ := skims
  induction piece with
  | nil => exact h
  | cons c others ih =>
    obtain ⟨first, later⟩ := List.forall_mem_cons.1 quiet
    have unmarked : c ∉ ['\\', '[', '('] := fun mem =>
      first (List.mem_append_left [')', '|'] mem)
    exact ih later (h.of_cons unmarked)

theorem Legible.of_parenthesis (h : Legible ('(' :: s)) :
    turnsOn 'x' s = false ∧ (∀ name ∈ groupName? s, '[' ∉ name) ∧ Legible s := by
  cases h with
  | parenthesis comments brackets others => exact ⟨comments, brackets, others⟩
  | plain plain _ => simp at plain

theorem Legible.of_class (h : Legible ('[' :: cs)) (plain : f.verbose = false) {n : Nat}
    {set : CharSet} (read : readClass n f cs = some (set, rest)) :
    ∃ piece, cs = piece ++ rest ∧ Calm true piece ∧ Legible rest := by
  cases h with
  | @bracket m f' set' piece rest' plain' read' calm others =>
    obtain rfl := (rest_unique n).1 plain plain' read read'
    exact ⟨piece, rfl, calm, others⟩
  | plain plain _ => simp at plain

/-- The rest of a group, or of a whole pattern, by the parts of its text. The items read are held
backwards, as by the reader. -/
inductive Body : Flags → Option Pattern → List (Option Pattern) → List Char → Pattern →
    List Char → Prop where
  | finish {f : Flags} {left : Option Pattern} {items : List (Option Pattern)} {rest : List Char}
      (ends : rest = [] ∨ rest.head? = some ')') :
      Body f left items rest (joinAlternatives left (joinItems items)) rest
  | bar {f : Flags} {left : Option Pattern} {items : List (Option Pattern)} {s rest : List Char}
      {p : Pattern} (others : Body f (some (joinAlternatives left (joinItems items))) [] s p rest) :
      Body f left items ('|' :: s) p rest
  | flags {f f' : Flags} {left : Option Pattern} {items : List (Option Pattern)}
      {piece s rest : List Char} {p : Pattern} (calm : Calm false piece)
      (multiLine : f.multiLine = false → turnsOn 'm' (piece ++ ')' :: s) = false →
        f'.multiLine = false)
      (others : Body f' left (none :: items) s p rest) :
      Body f left items ('(' :: (piece ++ ')' :: s)) p rest
  | group {f f' : Flags} {left : Option Pattern} {items : List (Option Pattern)}
      {piece inner s rest : List Char} {p q : Pattern} (calm : Calm false piece)
      (inside : Body f' none [] inner q (')' :: s))
      (others : Body f left (some q :: items) s p rest) :
      Body f left items ('(' :: (piece ++ inner)) p rest
  | item {f : Flags} {left : Option Pattern} {items : List (Option Pattern)}
      {piece s rest : List Char} {p q : Pattern} (nonempty : piece ≠ []) (calm : Calm false piece)
      (anchor : startsAnchored (piece ++ s) = true → f.multiLine = false → q = .textStart)
      (others : Body f left (some q :: items) s p rest) : Body f left items (piece ++ s) p rest
  | again {f : Flags} {left : Option Pattern} {items : List (Option Pattern)}
      {piece s rest : List Char} {p q : Pattern} {greedy : Bool} {least : Nat} {most : Option Nat}
      (calm : Calm false piece)
      (others : Body f left (some (.loop q greedy least most) :: items) s p rest) :
      Body f left (some q :: items) (piece ++ s) p rest

/-- An escape is passed over by the scan, and one that is an anchor stands for the start of the text. -/
theorem Legible.exists_escape (h : Legible ('\\' :: cs)) {e : Escape}
    (read : readEscape cs = some (e, rest)) :
    ∃ piece, cs = piece ++ rest ∧ Calm false ('\\' :: piece) ∧ Legible rest ∧
      (startsAnchored ('\\' :: cs) = true → atom? f e = some .textStart) := by
  cases cs with
  | nil => cases read
  | cons c more =>
    have skims := skims_readEscape read
    have behind := h.of_escape.of_skims skims
    obtain ⟨piece, rfl, quiet⟩ := skims
    refine ⟨c :: piece, rfl, .escape (calm_of_quiet quiet), behind, fun anchored => ?_⟩
    obtain ⟨others, same | same⟩ := exists_of_startsAnchored anchored
    · cases same
    · cases same
      have start : readEscape ('A' :: (piece ++ rest)) = some (.anchor .textStart, piece ++ rest) :=
        rfl
      obtain ⟨rfl, -⟩ := Prod.mk.inj (Option.some.inj (start.symm.trans read))
      rfl

/-- What is read of a legible text has a derivation. -/
theorem body_of_readBody {n : Nat} {names names' : List (List Char)} (plain : f.verbose = false)
    (legible : Legible cs) (h : readBody n f left items names cs = some (p, names', rest)) :
    Body f left items cs p rest ∧ Legible rest := by
  induction n generalizing f left items names cs p names' rest with
  | zero => cases h
  | succ n ih =>
    have push {item : Option Pattern} {s : List Char} (piece : List Char) (split : cs = piece ++ s)
        (nonempty : piece ≠ []) (calm : Calm false piece)
        (anchor : startsAnchored (piece ++ s) = true → f.multiLine = false → item = some .textStart)
        (behind : Legible s)
        (h : (item.bind fun q => readBody n f left (some q :: items) names s) = some (p, names', rest)) :
        Body f left items cs p rest ∧ Legible rest := by
      obtain ⟨q, rfl, h⟩ := Option.bind_eq_some_iff.1 h
      obtain ⟨others, last⟩ := ih plain behind h
      rw [split]
      exact ⟨.item nonempty calm (fun starts off => Option.some.inj (anchor starts off)) others, last⟩
    unfold readBody at h
    rw [skip_eq plain] at h
    dsimp only at h
    -- one case for what stands in front: the end, a `)`, a bar, a `(`, a class, an escape, `.`, `^`,
    -- `$`, and any other character, which is read as itself or repeats the last item
    split at h
    · cases h
      exact ⟨.finish (.inl rfl), .nil⟩
    · cases h
      exact ⟨.finish (.inr rfl), legible⟩
    · obtain ⟨others, last⟩ := ih plain (legible.of_cons (by decide)) h
      exact ⟨.bar others, last⟩
    · obtain ⟨comments, brackets, behind⟩ := legible.of_parenthesis
      split at h
      · cases h
      · rename_i f' s opened
        have opens := opens_of_readOpening plain opened brackets
        obtain ⟨others, last⟩ := ih (opens.verbose plain comments)
          ((behind.of_skims opens.skims).of_cons (by decide)) h
        obtain ⟨piece, rfl, quiet⟩ := opens.skims
        exact ⟨.flags (calm_of_quiet quiet) opens.multiLine others, last⟩
      · rename_i f' name s opened
        have opens := opens_of_readOpening plain opened brackets
        split at h
        · cases h
        · split at h
          · rename_i q names s' inner
            obtain ⟨inside, behind'⟩ := ih (opens.verbose plain comments)
              (behind.of_skims opens.skims) inner
            obtain ⟨others, last⟩ := ih plain (behind'.of_cons (by decide)) h
            obtain ⟨piece, rfl, quiet⟩ := opens.skims
            exact ⟨.group (calm_of_quiet quiet) inside others, last⟩
          · cases h
    · split at h
      · rename_i set s read
        obtain ⟨piece, rfl, calm, behind⟩ := legible.of_class plain read
        exact push ('[' :: piece) rfl (List.cons_ne_nil _ _) (.bracket calm) nofun behind h
      · cases h
    · split at h
      · rename_i e s read
        obtain ⟨piece, rfl, calm, behind, anchor⟩ := legible.exists_escape read
        exact push ('\\' :: piece) rfl (List.cons_ne_nil _ _) calm (fun starts _ => anchor starts)
          behind h
      · cases h
    · exact push ['.'] rfl (List.cons_ne_nil _ _) (.quiet (by decide) .nil) nofun
        (legible.of_cons (by decide)) h
    · refine push ['^'] rfl (List.cons_ne_nil _ _) (.quiet (by decide) .nil) ?_
        (legible.of_cons (by decide)) h
      intro _ off
      rw [off]
      rfl
    · exact push ['$'] rfl (List.cons_ne_nil _ _) (.quiet (by decide) .nil) nofun
        (legible.of_cons (by decide)) h
    · rename_i c s close bar parenthesis bracket escape dot caret dollar
      split at h
      · split at h
        · rename_i q items' least most s' read
          have skims := (skims_readRepetition read).trans (skims_readGreed f s')
          have behind := legible.of_skims skims
          obtain ⟨piece, same, quiet⟩ := skims
          obtain ⟨others, last⟩ := ih plain behind h
          rw [same]
          exact ⟨.again (calm_of_quiet quiet) others, last⟩
        · cases h
      · have unmarked : c ∉ marks := by
          simp only [marks, List.mem_cons, List.not_mem_nil, or_false, not_or]
          exact ⟨escape, bracket, parenthesis, close, bar⟩
        have bare : c ∉ ['\\', '[', '('] := fun mem =>
          unmarked (List.mem_append_left [')', '|'] mem)
        refine push [c] rfl (List.cons_ne_nil _ _)
          (.quiet unmarked .nil) (fun anchored _ => ?_) (legible.of_cons bare) h
        obtain ⟨others, same | same⟩ := exists_of_startsAnchored anchored
        · cases same
          exact absurd rfl caret
        · cases same
          exact absurd rfl escape

omit [Properties] in
theorem Body.exists_outline (h : Body f left items cs p rest) {depth : Nat} {current : List Char}
    {alternatives : List (List Char)}
    (accepted : outline false (depth + 1) current cs = some alternatives) :
    ∃ current', outline false (depth + 1) current' rest = some alternatives := by
  induction h generalizing depth current with
  | finish => exact ⟨current, accepted⟩
  | bar others ih =>
    rw [outline_inner_bar] at accepted
    exact ih accepted
  | flags calm multiLine others ih =>
    have inside := (outline_parenthesis accepted).2
    rw [calm.outline_append, outline_close] at inside
    exact ih inside
  | group calm inside others ih ih' =>
    have opened := (outline_parenthesis accepted).2
    rw [calm.outline_append] at opened
    obtain ⟨current', closing⟩ := ih opened
    rw [outline_close] at closing
    exact ih' closing
  | item nonempty calm anchor others ih =>
    rw [calm.outline_append] at accepted
    exact ih accepted
  | again calm others ih =>
    rw [calm.outline_append] at accepted
    exact ih accepted

end Wordhoard.Pattern
