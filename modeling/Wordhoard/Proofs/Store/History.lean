import Wordhoard.Proofs.Store.Operation

/-! What is known of a word from what happened, without looking at what is stored. A history lists the
operations that were run. Main statement: what one operation more tells of a word. -/
namespace Wordhoard.Store

structure Event where
  operation : Operation
  result : Except Error Unit

namespace Event

def made : Event → List (String × Definition)
  | ⟨.create newKey definitions, .ok ()⟩ => definitions.mapIdx fun n definition => (newKey n, definition)
  | _ => []

def makes (key : String) (x : Event) : Bool := x.made.any fun m => m.1 = key

def removed? : Event → Option String
  | ⟨.remove key, .ok ()⟩ => some key
  | _ => none

/-- The time of a review of this key that succeeded, whether it counted or not. -/
def reviewed? (key : String) : Event → Option Time.Instant
  | ⟨.review k now _, .ok ()⟩ => if k = key then some now else none
  | _ => none

def redefined? (key : String) : Event → Option Definition
  | ⟨.update k definition, .ok ()⟩ => if k = key then some definition else none
  | _ => none

def isReset : Event → Bool
  | ⟨.resetSession _ _, .ok ()⟩ => true
  | _ => false

def touched? : Event → Option String
  | ⟨.review key _ _, .ok ()⟩ => some key
  | ⟨.update key _, .ok ()⟩ => some key
  | ⟨.remove key, .ok ()⟩ => some key
  | _ => none

def act (key : String) (w : Word) (x : Event) : Word :=
  match x.reviewed? key with
  | some now => (w.review now).2
  | none =>
    match x.redefined? key with
    | some definition => w.redefine definition
    | none => if x.isReset then w.resetSession else w

end Event

abbrev History := List Event

namespace History

def created (h : History) : List (String × Definition) := h.flatMap Event.made

def removed (h : History) : List String := h.filterMap Event.removed?

/-- What was created and not removed, in the order of creation. -/
def remaining (h : History) : List (String × Definition) :=
  h.created.filter fun m => !h.removed.contains m.1

/-- The stretches between the resets, first one first. -/
def sessions (h : History) : List History := h.splitOnP Event.isReset

/-- The time of the first review of a key in a session. -/
def firstReview? (key : String) (session : History) : Option Time.Instant :=
  session.findSome? (Event.reviewed? key)

/-- The times of the first reviews of a key in those sessions in which it was reviewed. -/
def firstReviews (h : History) (key : String) : List Time.Instant :=
  h.sessions.filterMap (firstReview? key)

/-- What happened since the later of the creation of a key and the last reset. -/
def since (h : History) (key : String) : History :=
  (h.reverse.takeWhile fun x => !x.isReset && !x.makes key).reverse

def isReviewed (h : History) (key : String) : Bool :=
  (h.since key).any fun x => (x.reviewed? key).isSome

/-- The definition that the last update of a key gave it, or else the one it was created with. -/
def definition (h : History) (made : String × Definition) : Definition :=
  (h.filterMap (Event.redefined? made.1)).getLast?.getD made.2

/-- The word that was created so, as the history tells it. -/
def word (h : History) (made : String × Definition) : Word where
  toDefinition := h.definition made
  reviewCount := (min (h.firstReviews made.1).length maxReviews).toUInt32
  lastReviewed := (h.firstReviews made.1).getLast?
  reviewed := h.isReviewed made.1

/-- Histories in which only words that were created are worked on, and keys ascend. -/
inductive Sound : History → Prop where
  | nil : Sound []
  | concat {h : History} {x : Event} (sound : Sound h)
      (known : ∀ key, x.touched? = some key → key ∈ h.created.map Prod.fst)
      (ascending : ((h ++ [x]).created.map Prod.fst).Pairwise (· < ·)) : Sound (h ++ [x])

end History

variable {h : History} {x : Event} {key : String} {made : String × Definition}

namespace Event

theorem reviewed?_eq_some {now : Time.Instant} (h : x.reviewed? key = some now) :
    ∃ valid, x = ⟨.review key now valid, .ok ()⟩ := by
  unfold reviewed? at h
  split at h
  · rename_i k now' valid
    split at h
    · rename_i same
      cases same
      cases h
      exact ⟨valid, rfl⟩
    · cases h
  · cases h

theorem redefined?_eq_some {d : Definition} (h : x.redefined? key = some d) :
    x = ⟨.update key d, .ok ()⟩ := by
  unfold redefined? at h
  split at h
  · split at h
    · rename_i same
      cases same
      cases h
      rfl
    · cases h
  · cases h

theorem act_review {now : Time.Instant} (valid : now.isValid) (k : String) (w : Word) :
    (⟨.review key now valid, .ok ()⟩ : Event).act k w = if key = k then (w.review now).2 else w := by
  by_cases same : key = k <;> simp [act, reviewed?, redefined?, isReset, same]

theorem act_update (d : Definition) (k : String) (w : Word) :
    (⟨.update key d, .ok ()⟩ : Event).act k w = if key = k then w.redefine d else w := by
  by_cases same : key = k <;> simp [act, reviewed?, redefined?, isReset, same]

theorem touched?_of_reviewed? {now : Time.Instant} (h : x.reviewed? key = some now) :
    x.touched? = some key := by
  obtain ⟨valid, rfl⟩ := reviewed?_eq_some h
  rfl

theorem touched?_of_redefined? {d : Definition} (h : x.redefined? key = some d) :
    x.touched? = some key := by
  rw [redefined?_eq_some h]
  rfl

theorem touched?_of_removed? (h : x.removed? = some key) : x.touched? = some key := by
  unfold removed? at h
  split at h
  · exact h
  · cases h

theorem makes_iff : x.makes key = true ↔ key ∈ x.made.map Prod.fst := by
  simp only [makes, List.any_eq_true, decide_eq_true_eq, List.mem_map]

end Event

namespace History

theorem created_concat : (h ++ [x]).created = h.created ++ x.made := by
  simp [created]

theorem removed_concat : (h ++ [x]).removed = h.removed ++ x.removed?.toList := by
  cases removed : x.removed? <;> simp [History.removed, removed]

theorem definition_concat :
    (h ++ [x]).definition made = (x.redefined? made.1).getD (h.definition made) := by
  cases redefined : x.redefined? made.1 <;> simp [definition, redefined]

theorem isReviewed_concat :
    (h ++ [x]).isReviewed key =
      (!x.isReset && !x.makes key && (h.isReviewed key || (x.reviewed? key).isSome)) := by
  have since : (h ++ [x]).since key =
      if (!x.isReset && !x.makes key) = true then h.since key ++ [x] else [] := by
    rw [History.since, List.reverse_append, List.reverse_singleton, List.singleton_append,
      List.takeWhile_cons]
    split
    · rw [List.reverse_cons]
      rfl
    · rfl
  rw [isReviewed, since]
  split
  · rename_i goes_on
    rw [goes_on, List.any_append]
    simp [isReviewed]
  · rename_i stops
    rw [Bool.not_eq_true] at stops
    simp [stops]

theorem exists_sessions (h : History) : ∃ past current, h.sessions = past ++ [current] := by
  refine ⟨h.sessions.dropLast, h.sessions.getLast (List.splitOnP_ne_nil _ _), ?_⟩
  exact (List.dropLast_append_getLast _).symm

theorem sessions_concat {past : List History} {current : History}
    (same : h.sessions = past ++ [current]) :
    (h ++ [x]).sessions =
      if x.isReset then past ++ [current, []] else past ++ [current ++ [x]] := by
  unfold sessions at same ⊢
  induction h generalizing past current with
  | nil =>
    have parts : [] ++ [[]] = past ++ [current] := same
    obtain ⟨rfl, last⟩ := List.append_inj' parts rfl
    cases last
    rw [List.nil_append, List.splitOnP_cons_eq_if_modifyHead, List.splitOnP_nil]
    rfl
  | cons y rest ih =>
    obtain ⟨earlier, last, restSame⟩ := exists_sessions rest
    have further := ih restSame
    rw [sessions] at restSame
    rw [List.splitOnP_cons_eq_if_modifyHead, restSame] at same
    rw [List.cons_append, List.splitOnP_cons_eq_if_modifyHead, further]
    by_cases reset : y.isReset = true
    · rw [if_pos reset] at same ⊢
      have parts : ([] :: earlier) ++ [last] = past ++ [current] := same
      obtain ⟨rfl, final⟩ := List.append_inj' parts rfl
      cases final
      split <;> rfl
    · rw [if_neg reset] at same ⊢
      -- The event that comes first goes to the first session, which may be the last one too.
      cases earlier with
      | nil =>
        have parts : [] ++ [y :: last] = past ++ [current] := same
        obtain ⟨rfl, final⟩ := List.append_inj' parts rfl
        cases final
        split <;> rfl
      | cons session others =>
        have parts : ((y :: session) :: others) ++ [last] = past ++ [current] := same
        obtain ⟨rfl, final⟩ := List.append_inj' parts rfl
        cases final
        split <;> rfl

theorem firstReview?_concat {s : History} :
    firstReview? key (s ++ [x]) = (firstReview? key s).or (x.reviewed? key) := by
  rw [firstReview?, List.findSome?_append]
  cases reviewed : x.reviewed? key <;> simp [firstReview?, reviewed]

theorem firstReviews_of_reset (reset : x.isReset = true) :
    (h ++ [x]).firstReviews key = h.firstReviews key := by
  obtain ⟨past, current, same⟩ := h.exists_sessions
  have parts : past ++ [current, []] = (past ++ [current]) ++ [[]] := by simp
  rw [firstReviews, firstReviews, sessions_concat same, if_pos reset, same, parts,
    List.filterMap_append]
  exact List.append_nil _

namespace Sound

theorem ascending_created (sound : Sound h) : (h.created.map Prod.fst).Pairwise (· < ·) := by
  cases sound with
  | nil => exact .nil
  | concat sound known ascending => exact ascending

theorem not_made_before (ascending : ((h ++ [x]).created.map Prod.fst).Pairwise (· < ·))
    (makes : key ∈ x.made.map Prod.fst) : key ∉ h.created.map Prod.fst := by
  rw [created_concat, List.map_append, List.pairwise_append] at ascending
  intro old
  exact String.lt_irrefl key (ascending.2.2 key old key makes)

theorem not_touched (known : ∀ key, x.touched? = some key → key ∈ h.created.map Prod.fst)
    (new : key ∉ h.created.map Prod.fst) : x.reviewed? key = none ∧ x.redefined? key = none := by
  constructor
  · cases reviewed : x.reviewed? key with
    | none => rfl
    | some now => exact absurd (known key (Event.touched?_of_reviewed? reviewed)) new
  · cases redefined : x.redefined? key with
    | none => rfl
    | some d => exact absurd (known key (Event.touched?_of_redefined? redefined)) new

theorem not_reviewed (sound : Sound h) (new : key ∉ h.created.map Prod.fst) :
    h.isReviewed key = false := by
  induction sound with
  | nil => rfl
  | concat sound known ascending ih =>
    rw [created_concat, List.map_append, List.mem_append, not_or] at new
    rw [isReviewed_concat, ih new.1, (not_touched known new.1).1]
    simp

theorem isReviewed_eq (sound : Sound h) {past : List History} {current : History}
    (same : h.sessions = past ++ [current]) :
    h.isReviewed key = (firstReview? key current).isSome := by
  induction sound generalizing past current with
  | nil =>
    have parts : [] ++ [[]] = past ++ [current] := same
    obtain ⟨-, last⟩ := List.append_inj' parts rfl
    cases last
    rfl
  | @concat h x sound known ascending ih =>
    obtain ⟨earlier, last, before⟩ := h.exists_sessions
    rw [sessions_concat before] at same
    rw [isReviewed_concat, ih before]
    split at same
    · rename_i reset
      have parts : (earlier ++ [last]) ++ [[]] = past ++ [current] := by rw [← same]; simp
      obtain ⟨-, final⟩ := List.append_inj' parts rfl
      cases final
      simp [reset, firstReview?]
    · rename_i goes_on
      obtain ⟨-, final⟩ := List.append_inj' same rfl
      cases final
      rw [firstReview?_concat]
      by_cases makes : x.makes key = true
      · have new := not_made_before ascending (Event.makes_iff.1 makes)
        have none_before := sound.not_reviewed new
        rw [ih before, Option.isSome_eq_false_iff, Option.isNone_iff_eq_none] at none_before
        simp [none_before, (not_touched known new).1]
      · simp [goes_on, makes]

theorem firstReviews_concat (sound : Sound h) (goes_on : x.isReset = false) :
    (h ++ [x]).firstReviews key =
      h.firstReviews key ++ if h.isReviewed key then [] else (x.reviewed? key).toList := by
  obtain ⟨past, current, same⟩ := h.exists_sessions
  have stays : ¬ x.isReset = true := by rw [goes_on]; exact Bool.false_ne_true
  have last (s : History) : [s].filterMap (firstReview? key) = (firstReview? key s).toList := by
    cases found : firstReview? key s <;> simp [found]
  rw [firstReviews, firstReviews, sessions_concat same, if_neg stays, same, sound.isReviewed_eq same,
    List.filterMap_append, List.filterMap_append, last, last, firstReview?_concat]
  cases firstReview? key current with
  | none => simp
  | some now => simp

theorem firstReviews_new (sound : Sound h) (new : key ∉ h.created.map Prod.fst) :
    h.firstReviews key = [] := by
  induction sound with
  | nil => rfl
  | @concat h x sound known ascending ih =>
    rw [created_concat, List.map_append, List.mem_append, not_or] at new
    cases reset : x.isReset with
    | true => rw [firstReviews_of_reset reset, ih new.1]
    | false =>
      rw [sound.firstReviews_concat reset, ih new.1, (not_touched known new.1).1]
      simp

theorem definition_new (sound : Sound h) (new : made.1 ∉ h.created.map Prod.fst) :
    h.definition made = made.2 := by
  induction sound with
  | nil => rfl
  | concat sound known ascending ih =>
    rw [created_concat, List.map_append, List.mem_append, not_or] at new
    rw [definition_concat, (not_touched known new.1).2, ih new.1]
    rfl

theorem created_of_removed (sound : Sound h) (removed : key ∈ h.removed) :
    key ∈ h.created.map Prod.fst := by
  induction sound with
  | nil => cases removed
  | @concat h x sound known ascending ih =>
    rw [removed_concat, List.mem_append, Option.mem_toList] at removed
    rw [created_concat, List.map_append, List.mem_append]
    rcases removed with before | now
    · exact .inl (ih before)
    · exact .inl (known key (Event.touched?_of_removed? now))

/-- A review counts once in a session, up to the greatest count. -/
theorem nextCount_toUInt32 (n : Nat) :
    Word.nextCount (min n maxReviews).toUInt32 = (min (n + 1) maxReviews).toUInt32 := by
  have small : min n maxReviews < UInt32.size :=
    Nat.lt_of_le_of_lt (Nat.min_le_right _ _) (by decide)
  have value : (min n maxReviews).toUInt32.toNat = min n maxReviews :=
    UInt32.toNat_ofNat_of_lt' small
  rw [Word.nextCount, value]
  split
  · rename_i full
    rw [full, Nat.min_eq_right (by omega)]
  · rename_i less
    have below : n < maxReviews := by omega
    rw [Nat.min_eq_left (Nat.le_of_lt below), Nat.min_eq_left below]
    exact (UInt32.ofNat_add n 1).symm

theorem word_concat (sound : Sound h) (old : x.makes made.1 = false) :
    (h ++ [x]).word made = x.act made.1 (h.word made) := by
  cases reviewed : x.reviewed? made.1 with
  | some now =>
    obtain ⟨valid, same⟩ := Event.reviewed?_eq_some reviewed
    have goes_on : x.isReset = false := by rw [same]; rfl
    have redefined : x.redefined? made.1 = none := by rw [same]; rfl
    rw [word, definition_concat, sound.firstReviews_concat goes_on, isReviewed_concat]
    cases already : h.isReviewed made.1 with
    | true => simp [Event.act, reviewed, redefined, old, goes_on, word, Word.review, already]
    | false =>
      simp [Event.act, reviewed, redefined, old, goes_on, word, Word.review, already,
        nextCount_toUInt32]
  | none =>
    cases redefined : x.redefined? made.1 with
    | some d =>
      have same := Event.redefined?_eq_some redefined
      have goes_on : x.isReset = false := by rw [same]; rfl
      rw [word, definition_concat, sound.firstReviews_concat goes_on, isReviewed_concat]
      simp [Event.act, reviewed, redefined, old, goes_on, word, Word.redefine]
    | none =>
      cases reset : x.isReset with
      | true =>
        rw [word, definition_concat, firstReviews_of_reset reset, isReviewed_concat]
        simp [Event.act, reviewed, redefined, old, reset, word, Word.resetSession]
      | false =>
        rw [word, definition_concat, sound.firstReviews_concat reset, isReviewed_concat]
        simp [Event.act, reviewed, redefined, old, reset, word]

end Sound

end History

end Wordhoard.Store
