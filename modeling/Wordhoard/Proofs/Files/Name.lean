import Wordhoard.Proofs.Files.Place

/-! The file that a path names. Main statement: with another extension a path leads to the same
directory, and to the same file just when its name is the same. -/
namespace Wordhoard.Files

variable {path name extension : String} {base p : Place} {xs ys rest : List String} {s : String}

def fileName? (path : String) : Option String :=
  match trailing path with
  | [] => none
  | name :: _ => if name = ".." ∨ name = "." then none else some name

theorem splitSlashes_ne_nil (cs : List Char) : splitSlashes cs ≠ [] := by
  cases cs with
  | nil => simp [splitSlashes]
  | cons c rest =>
    unfold splitSlashes
    split
    · simp
    · split <;> simp

theorem splitSlashes_eq (cs : List Char) : splitSlashes cs = cs.splitOn '/' := by
  induction cs with
  | nil => simp [splitSlashes]
  | cons c rest ih =>
    have split : rest.splitOnP (· == '/') = splitSlashes rest := ih.symm
    rw [List.splitOn, List.splitOnP_cons_eq_if_modifyHead, split, splitSlashes]
    obtain ⟨first, others, some⟩ := List.exists_cons_of_ne_nil (splitSlashes_ne_nil rest)
    simp [some]

theorem bare_splitSlashes (cs : List Char) : ∀ s ∈ splitSlashes cs, '/' ∉ s := by
  induction cs with
  | nil => simp [splitSlashes]
  | cons c rest ih =>
    unfold splitSlashes
    split
    · exact List.forall_mem_cons.2 ⟨List.not_mem_nil, ih⟩
    · rename_i other
      split
      · rename_i first others split
        rw [split] at ih
        obtain ⟨first, others⟩ := List.forall_mem_cons.1 ih
        refine List.forall_mem_cons.2 ⟨?_, others⟩
        simp [Ne.symm other, first]
      · simp [Ne.symm other]

theorem bare_segments (path : String) : ∀ s ∈ segments path, '/' ∉ s.toList := by
  intro s mem
  obtain ⟨chars, inside, rfl⟩ := List.mem_map.1 mem
  rw [String.toList_ofList]
  exact bare_splitSlashes _ chars inside

theorem segments_joinSegments (bare : ∀ s ∈ xs, '/' ∉ s.toList) (some : xs ≠ []) :
    segments (joinSegments xs) = xs.reverse := by
  have pieces : ∀ s ∈ xs.reverse.map String.toList, '/' ∉ s := by
    simpa using bare
  have slash : "/".toList = ['/'] := rfl
  rw [segments, joinSegments, String.toList_intercalate, splitSlashes_eq, slash,
    List.splitOn_intercalate '/' pieces (by simpa using some), List.map_map]
  simp [Function.comp_def]

theorem isAbsolute_iff : isAbsolute path ↔ ∃ s rest, segments path = "" :: s :: rest := by
  unfold isAbsolute segments
  cases path.toList with
  | nil => simp [splitSlashes]
  | cons c cs =>
    unfold splitSlashes
    split
    · rename_i slash
      obtain ⟨s, others, split⟩ := List.exists_cons_of_ne_nil (splitSlashes_ne_nil cs)
      simp [slash, split]
    · rename_i other
      split <;> simp [other]

theorem exists_idle (xs : List String) :
    ∃ idle, xs = idle ++ dropIdle xs ∧ ∀ s ∈ idle, s = "" ∨ s = "." := by
  induction xs with
  | nil => exact ⟨[], rfl, List.forall_mem_nil _⟩
  | cons s rest ih =>
    unfold dropIdle
    split
    · rename_i idle
      obtain ⟨others, same, each⟩ := ih
      refine ⟨s :: others, by rw [List.cons_append, ← same], List.forall_mem_cons.2 ⟨?_, each⟩⟩
      exact idle.imp_right And.left
    · exact ⟨[], rfl, List.forall_mem_nil _⟩

theorem head_dropIdle (h : dropIdle xs = s :: rest) : s ≠ "" := by
  induction xs with
  | nil => cases h
  | cons t others ih =>
    unfold dropIdle at h
    split at h
    · exact ih h
    · rename_i counts
      cases h
      exact fun empty => counts (.inl empty)

theorem follow_append : follow p (xs ++ ys) = follow (follow p xs) ys := by
  induction xs generalizing p with
  | nil => rfl
  | cons s rest ih =>
    rw [List.cons_append, follow, follow]
    split
    · exact ih
    · split
      · exact ih
      · exact ih

theorem follow_idle (idle : ∀ s ∈ xs, s = "" ∨ s = ".") : follow p xs = p := by
  induction xs with
  | nil => rfl
  | cons s rest ih =>
    obtain ⟨first, others⟩ := List.forall_mem_cons.1 idle
    rw [follow, if_pos first]
    exact ih others

theorem follow_name (counts : name ≠ "") (not_here : name ≠ ".") (not_up : name ≠ "..") :
    follow p [name] = p ++ [name] := by
  simp [follow, counts, not_here, not_up]

structure Named (path name : String) (rest : List String) : Prop where
  trailing : trailing path = name :: rest
  counts : name ≠ ""
  not_here : name ≠ "."
  not_up : name ≠ ".."

theorem exists_named (h : fileName? path = some name) : ∃ rest, Named path name rest := by
  unfold fileName? at h
  split at h
  · cases h
  · rename_i last rest split
    split at h
    · cases h
    · rename_i named
      cases h
      refine ⟨rest, split, head_dropIdle split, ?_, ?_⟩
      · exact fun here => named (.inr here)
      · exact fun up => named (.inl up)

theorem segments_of_trailing (h : trailing path = s :: rest) :
    ∃ idle, segments path = rest.reverse ++ s :: idle ∧ ∀ t ∈ idle, t = "" ∨ t = "." := by
  obtain ⟨idle, same, each⟩ := exists_idle (segments path).reverse
  refine ⟨idle.reverse, ?_, fun t mem => each t (List.mem_reverse.1 mem)⟩
  rw [← List.reverse_reverse (segments path), same]
  have trailing : dropIdle (segments path).reverse = s :: rest := h
  simp [trailing]

theorem Named.segments (h : Named path name rest) :
    ∃ idle, segments path = rest.reverse ++ name :: idle ∧ ∀ s ∈ idle, s = "" ∨ s = "." :=
  segments_of_trailing h.trailing

def folder (base : Place) (path : String) : Place :=
  follow (if isAbsolute path then [] else base) (trailing path).tail.reverse

theorem Named.placeFrom (h : Named path name rest) :
    placeFrom base path = folder base path ++ [name] := by
  obtain ⟨idle, split, each⟩ := h.segments
  rw [Files.placeFrom, split, ← List.singleton_append, follow_append, follow_append,
    follow_name h.counts h.not_here h.not_up, follow_idle each, folder, h.trailing]
  rfl

theorem placeFrom_of_fileName (h : fileName? path = some name) :
    placeFrom base path = folder base path ++ [name] := by
  obtain ⟨rest, named⟩ := exists_named h
  exact named.placeFrom

theorem exists_parent (h : fileName? path = some name) :
    ∃ directory, parent? path = some directory := by
  obtain ⟨rest, named⟩ := exists_named h
  unfold parent?
  rw [named.trailing]
  dsimp only
  split
  · exact ⟨_, rfl⟩
  · exact ⟨_, rfl⟩

theorem bare_stem (bare : '/' ∉ name.toList) : '/' ∉ (stem name).toList := by
  unfold stem
  split
  · rename_i dot c before ending
    intro mem
    have inside : '/' ∈ name.toList.reverse.dropWhile (· ≠ '.') := by
      rw [ending]
      simp only [String.toList_ofList, List.mem_reverse] at mem
      exact .tail _ mem
    exact bare (List.mem_reverse.1 (List.dropWhile_subset _ inside))
  · exact bare

/-- What an extension may be for the name to stay a name. -/
structure Extends (extension : String) : Prop where
  bare : '/' ∉ extension.toList
  long : 2 ≤ extension.toList.length

theorem Named.bare (h : Named path name rest) : ∀ s ∈ name :: rest, '/' ∉ s.toList := by
  obtain ⟨idle, split, -⟩ := h.segments
  intro s mem
  apply bare_segments path
  rw [split]
  rcases List.mem_cons.1 mem with rfl | mem
  · simp
  · simp [mem]

theorem ne_of_long (long : 3 ≤ name.toList.length) : name ≠ "" ∧ name ≠ "." ∧ name ≠ ".." := by
  refine ⟨?_, ?_, ?_⟩
  · rintro rfl
    exact absurd long (by decide)
  · rintro rfl
    exact absurd long (by decide)
  · rintro rfl
    exact absurd long (by decide)

theorem Named.segments_withExtension (h : Named path name rest) (ext : Extends extension) :
    Files.segments (withExtension path extension) =
      rest.reverse ++ [stem name ++ "." ++ extension] := by
  have other : ¬ (name = ".." ∨ name = ".") := by
    simp [h.not_here, h.not_up]
  have bare : ∀ s ∈ (stem name ++ "." ++ extension) :: rest, '/' ∉ s.toList := by
    obtain ⟨bare_name, bare_rest⟩ := List.forall_mem_cons.1 h.bare
    refine List.forall_mem_cons.2 ⟨?_, bare_rest⟩
    simp [bare_stem bare_name, ext.bare]
  unfold Files.withExtension
  rw [h.trailing]
  simp only [if_neg other]
  rw [segments_joinSegments bare (List.cons_ne_nil _ _), List.reverse_cons]

theorem Named.withExtension (h : Named path name rest) (ext : Extends extension) :
    Named (withExtension path extension) (stem name ++ "." ++ extension) rest := by
  have long : 3 ≤ (stem name ++ "." ++ extension).toList.length := by
    have := ext.long
    have dot : ".".toList.length = 1 := rfl
    simp only [String.toList_append, List.length_append, dot]
    omega
  obtain ⟨counts, not_here, not_up⟩ := ne_of_long long
  refine ⟨?_, counts, not_here, not_up⟩
  rw [Files.trailing, h.segments_withExtension ext, List.reverse_append, List.reverse_reverse,
    List.reverse_singleton, List.singleton_append, dropIdle, if_neg (by simp [counts, not_here])]

theorem Named.isAbsolute_iff (h : Named path name rest) :
    isAbsolute path ↔ rest.reverse.head? = some "" := by
  obtain ⟨idle, split, -⟩ := h.segments
  rw [Files.isAbsolute_iff, split]
  cases rest.reverse with
  | nil => simp [h.counts]
  | cons s others =>
    have tail : others ++ name :: idle ≠ [] := by simp
    obtain ⟨t, further, cons⟩ := List.exists_cons_of_ne_nil tail
    simp [cons]

theorem Named.folder_eq {path' name' : String} (h : Named path name rest)
    (h' : Named path' name' rest) : folder base path' = folder base path := by
  have same : isAbsolute path' = isAbsolute path := by
    rw [Bool.eq_iff_iff, h.isAbsolute_iff, h'.isAbsolute_iff]
  rw [folder, folder, h.trailing, h'.trailing, same]
  rfl

theorem placeFrom_withExtension (h : fileName? path = some name) (ext : Extends extension) :
    placeFrom base (withExtension path extension) =
      folder base path ++ [stem name ++ "." ++ extension] := by
  obtain ⟨rest, named⟩ := exists_named h
  have extended := named.withExtension ext
  rw [extended.placeFrom, named.folder_eq extended]

theorem stem_ne_empty (h : name ≠ "") : stem name ≠ "" := by
  unfold stem
  split
  · simp
  · exact h

theorem stem_stem (h : name ≠ "") (bare : '.' ∉ extension.toList) :
    stem (stem name ++ "." ++ extension) = stem name := by
  have some : (stem name).toList.reverse ≠ [] := by
    simpa using stem_ne_empty h
  obtain ⟨c, before, chars⟩ := List.exists_cons_of_ne_nil some
  have passes : ∀ x ∈ extension.toList.reverse, decide (x ≠ '.') = true := by
    intro x mem
    apply decide_eq_true
    rintro rfl
    exact bare (List.mem_reverse.1 mem)
  have ending : (stem name ++ "." ++ extension).toList.reverse.dropWhile (· ≠ '.') =
      '.' :: c :: before := by
    have split : (stem name ++ "." ++ extension).toList.reverse =
        extension.toList.reverse ++ '.' :: (c :: before) := by
      simp [chars]
    rw [split, List.dropWhile_append_of_pos passes]
    simp
  rw [stem, ending]
  dsimp only
  rw [← chars, List.reverse_reverse, String.ofList_toList]

end Wordhoard.Files
