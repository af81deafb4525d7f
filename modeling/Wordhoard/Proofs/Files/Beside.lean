import Wordhoard.Proofs.Files.Directories
import Wordhoard.Proofs.Files.Name

/-! Paths beside one that leads somewhere. Main statements: the directories on its way are there already,
and with another extension it leads beside it. -/
namespace Wordhoard.Files

variable {path name extension directory : String} {d : Disk} {p q : Place} {rest xs ys : List String}
  {s : String}

theorem isAbsolute_iff_of_segments (split : segments path = xs ++ s :: ys) (counts : s ≠ "") :
    isAbsolute path ↔ xs.head? = some "" := by
  rw [isAbsolute_iff, split]
  cases xs with
  | nil => simp [counts]
  | cons x others =>
    obtain ⟨t, further, cons⟩ : ∃ t further, others ++ s :: ys = t :: further :=
      List.exists_cons_of_ne_nil (by simp)
    simp [cons]

theorem segments_parent (lies : parent? path = some directory) : directory = "/" ∨ directory = "" ∨
    isAbsolute directory = isAbsolute path ∧
      ∃ further, segments path = segments directory ++ further ∧ further ≠ [] := by
  unfold parent? at lies
  split at lies
  · cases lies
  rename_i last rest trail
  obtain ⟨idle, split, -⟩ := segments_of_trailing trail
  split at lies
  · cases lies
    split
    · exact .inl rfl
    · exact .inr (.inl rfl)
  rename_i above counted
  cases lies
  obtain ⟨t, others, cons⟩ := List.exists_cons_of_ne_nil counted
  obtain ⟨idle', parts, -⟩ := exists_idle rest
  rw [cons] at parts ⊢
  have bare : ∀ s ∈ t :: others, '/' ∉ s.toList := by
    intro s mem
    apply bare_segments path
    rw [split, parts]
    rcases List.mem_cons.1 mem with rfl | mem
    · simp
    · simp [mem]
  have above : segments (joinSegments (t :: others)) = (t :: others).reverse :=
    segments_joinSegments bare (List.cons_ne_nil _ _)
  have whole : segments path = (t :: others).reverse ++ (idle'.reverse ++ last :: idle) := by
    rw [split, parts]
    simp
  rw [List.reverse_cons] at above whole
  have counts := head_dropIdle cons
  refine .inr (.inr ⟨?_, idle'.reverse ++ last :: idle, ?_, by simp⟩)
  · rw [Bool.eq_iff_iff, isAbsolute_iff_of_segments above counts]
    rw [List.append_assoc] at whole
    exact (isAbsolute_iff_of_segments whole counts).symm
  · rw [above]
    exact whole

namespace Disk

theorem directory_of_walk (h : d.walk p (s :: rest) = .ok q) : d.node? p = some .directory := by
  unfold walk at h
  split at h
  · cases h
  · cases h
  · assumption

theorem walk_append : d.walk p (xs ++ ys) = (d.walk p xs).bind fun q => d.walk q ys := by
  induction xs generalizing p with
  | nil => rfl
  | cons s rest ih =>
    rw [List.cons_append, walk, walk]
    split
    · rfl
    · rfl
    · split
      · exact ih
      · split
        · exact ih
        · exact ih

theorem createWalk_of_walk (h : d.walk p (xs ++ ys) = .ok q) (further : ys ≠ []) :
    d.createWalk p xs = (.ok (), d) := by
  induction xs generalizing p with
  | nil => rfl
  | cons x rest ih =>
    have there := directory_of_walk h
    rw [List.cons_append, walk, there] at h
    dsimp only at h
    rw [createWalk]
    split at h
    · rename_i idle
      rw [if_pos idle]
      exact ih h
    rename_i counts
    rw [if_neg counts]
    split at h
    · rename_i up
      rw [if_pos up]
      exact ih h
    rename_i down
    have next : d.node? (p ++ [x]) = some .directory := by
      obtain ⟨t, others, cons⟩ : ∃ t others, rest ++ ys = t :: others :=
        List.exists_cons_of_ne_nil (List.append_ne_nil_of_right_ne_nil _ further)
      rw [cons] at h
      exact directory_of_walk h
    rw [if_neg down, next]
    exact ih h

theorem createDirectories_parent (found : d.locate path = .ok p)
    (lies : parent? path = some directory) : d.createDirectories directory = (.ok (), d) := by
  unfold locate at found
  split at found
  · cases found
  rcases segments_parent lies with rfl | rfl | ⟨same, ys, split, further⟩
  · rfl
  · rfl
  · rw [split, start, ← same] at found
    rw [createDirectories_eq]
    exact createWalk_of_walk found further

theorem exists_walk_beside {target : String} (h : d.walk p (xs ++ s :: ys) = .ok q)
    (named : Named target name rest) : ∃ r, d.walk p (xs ++ [name]) = .ok r := by
  rw [walk_append] at h ⊢
  cases above : d.walk p xs with
  | error fault =>
    rw [above] at h
    cases h
  | ok r =>
    rw [above] at h
    have there := directory_of_walk h
    refine ⟨r ++ [name], ?_⟩
    simp [Except.bind, walk, there, named.counts, named.not_here, named.not_up]

theorem exists_locate_withExtension (ext : Extends extension) (found : d.locate path = .ok p) :
    ∃ q, d.locate (withExtension path extension) = .ok q := by
  cases named : fileName? path with
  | none =>
    have same : withExtension path extension = path := by
      cases trail : trailing path with
      | nil => simp only [withExtension, trail]
      | cons last rest =>
        have special : last = ".." ∨ last = "." := by
          refine Decidable.byContradiction fun other => ?_
          simp [fileName?, trail, other] at named
        simp only [withExtension, trail, if_pos special]
    exact ⟨p, by rwa [same]⟩
  | some name =>
    obtain ⟨rest, named⟩ := exists_named named
    have extended := named.withExtension ext
    obtain ⟨idle, split, -⟩ := named.segments
    have same : isAbsolute (withExtension path extension) = isAbsolute path := by
      rw [Bool.eq_iff_iff, named.isAbsolute_iff, extended.isAbsolute_iff]
    have nonempty : withExtension path extension ≠ "" := by
      intro empty
      cases empty ▸ extended.trailing
    unfold locate at found ⊢
    split at found
    · cases found
    rw [if_neg nonempty, start, same, named.segments_withExtension ext]
    rw [split, start] at found
    exact exists_walk_beside found extended

end Disk

end Wordhoard.Files
