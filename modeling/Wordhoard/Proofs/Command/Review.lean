import Wordhoard.Proofs.Command.Resolving

/-! Reviews of several words at a time. Main statement: nothing is reviewed unless all fragments stand
for words, and each of these words is reviewed once, however often it is named. -/
namespace Wordhoard

/-- The word after a review that counts if the word waits for one. The count stays at its greatest value. -/
def Word.reviewedAt (now : Time.Instant) (w : Word) : Word :=
  if w.reviewed then w
  else
    { w with reviewCount := (min (w.reviewCount.toNat + 1) maxReviews).toUInt32
             lastReviewed := some now
             reviewed := true }

theorem Word.nextCount_eq (n : UInt32) :
    nextCount n = (min (n.toNat + 1) maxReviews).toUInt32 := by
  have least : min n.toNat maxReviews = n.toNat :=
    Nat.min_eq_left (Nat.le_sub_one_of_lt n.toNat_lt)
  have next := Store.History.Sound.nextCount_toUInt32 n.toNat
  rwa [least, Nat.toUInt32_eq, UInt32.ofNat_toNat] at next

theorem Word.review_eq (w : Word) (now : Time.Instant) :
    w.review now = (!w.reviewed, w.reviewedAt now) := by
  unfold review reviewedAt
  cases w.reviewed <;> simp [nextCount_eq]

theorem Word.reviewed_reviewedAt (w : Word) (now : Time.Instant) : (w.reviewedAt now).reviewed = true := by
  unfold reviewedAt
  split
  · assumption
  · rfl

theorem Word.reviewedAt_again (w : Word) (now : Time.Instant) :
    (w.reviewedAt now).reviewedAt now = w.reviewedAt now :=
  if_pos (w.reviewed_reviewedAt now)

theorem Word.reviewedAt_either (w : Word) {now : Time.Instant} {P : Prop} [Decidable P] :
    (if P then w.reviewedAt now else w).reviewedAt now = w.reviewedAt now := by
  split
  · exact w.reviewedAt_again now
  · rfl

namespace Command

open Files (always_of_looks Always Disk outcome outcome_bind_of_error outcome_bind_of_ok Withstands)
open Files.Program (Ends)
open Store (Loaded SavesBeside temporary)

variable {path key : String} {fragments keys : List String} {c : Collection} {d : Disk} {w : Word}
  {records : KeyMap Word} {now : Time.Instant}

def Reviewed (c : Collection) (now : Time.Instant) (keys : List String) (records : KeyMap Word) : Prop :=
  records.toList = c.records.toList.map fun p => (p.1, if p.1 ∈ keys then p.2.reviewedAt now else p.2)

theorem reviewed_none : Reviewed c now [] c.records := by
  simp [Reviewed]

theorem Reviewed.entry (h : Reviewed c now keys records) (stored : c.entry? key = some ⟨key, w⟩) :
    Collection.entry? { c with records } key =
      some ⟨key, if key ∈ keys then w.reviewedAt now else w⟩ := by
  rw [Store.entry?_eq_some_iff, h]
  exact List.mem_map.2 ⟨_, Store.entry?_eq_some_iff.1 stored, rfl⟩

theorem Reviewed.insert (h : Reviewed c now keys records) (stored : c.entry? key = some ⟨key, w⟩) :
    Reviewed c now (keys ++ [key]) (records.insert key (w.reviewedAt now)) := by
  have put := Store.records_put (Store.entryOf_eq_ok_iff.2 (h.entry stored)) (Word.reviewedAt now)
  rw [w.reviewedAt_either] at put
  refine put.trans ?_
  rw [h, List.map_map]
  refine List.map_congr_left fun p _ => ?_
  by_cases old : p.1 ∈ keys
  · by_cases here : key = p.1 <;> simp [old, here, Word.reviewedAt_again]
  · by_cases here : key = p.1
    · simp [old, here]
    · simp [old, here, Ne.symm here]

def Told (c : Collection) (now : Time.Instant) (before : List String) (key : String)
    (answer : Entry × Bool) : Prop :=
  ∃ w, c.entry? key = some ⟨key, w⟩ ∧
    answer = (⟨key, w.reviewedAt now⟩, decide (w.reviewed = false ∧ key ∉ before))

structure Answers (c : Collection) (now : Time.Instant) (keys : List String)
    (answers : List (Entry × Bool)) : Prop where
  length : answers.length = keys.length
  told : ∀ i key, keys[i]? = some key → ∃ answer, answers[i]? = some answer ∧
    Told c now (keys.take i) key answer

theorem Answers.concat {answers : List (Entry × Bool)} {answer : Entry × Bool}
    (h : Answers c now keys answers) (told : Told c now keys key answer) :
    Answers c now (keys ++ [key]) (answers ++ [answer]) where
  length := by simp [h.length]
  told i k here := by
    by_cases old : i < keys.length
    · rw [List.getElem?_append_left old] at here
      obtain ⟨a, given, before⟩ := h.told i k here
      refine ⟨a, ?_, ?_⟩
      · rwa [List.getElem?_append_left (h.length ▸ old)]
      · rwa [List.take_append_of_le_length (Nat.le_of_lt old)]
    · obtain rfl : i = keys.length := by
        have := (List.getElem?_eq_some_iff.1 here).1
        simp only [List.length_append, List.length_singleton] at this
        omega
      obtain rfl : key = k := by simpa using here
      refine ⟨answer, ?_, ?_⟩
      · rw [← h.length]
        simp
      · rwa [List.take_left]

def Progress (path : String) (c : Collection) (now : Time.Instant) (keys : List String) (d : Disk) :
    Prop :=
  ∃ records, Reviewed c now keys records ∧ Loaded path d { c with records }

theorem withstands_review_step {others : List String} (valid : now.isValid)
    (progress : Progress path c now keys d) (mem : key ∈ c.records.keys) :
    Withstands (Action.ofStore (Store.review path key now)) d
      (fun answer d' => Told c now keys key answer ∧ Progress path c now (keys ++ [key]) d')
      (Broken path (keys ++ key :: others) (Progress path c now)) := by
  obtain ⟨w, stored⟩ := Store.exists_entry mem
  obtain ⟨records, reviewed, loaded⟩ := progress
  have here := Store.entryOf_eq_ok_iff.2 (reviewed.entry stored)
  have next := reviewed.insert stored
  have reviews := Store.withstands_review_of_entry valid loaded here
  rw [Word.review_eq] at reviews
  simp only [w.reviewedAt_either] at reviews
  have step : Withstands _ d _ (Broken path (keys ++ key :: others) (Progress path c now)) :=
    withstands_key reviews (fun _ before => ⟨records, reviewed, before⟩) fun _ after => ⟨_, next, after⟩
  refine step.mono ?_ fun _ _ => id
  rintro answer d' ⟨rfl, later⟩
  refine ⟨⟨w, stored, ?_⟩, _, next, later⟩
  by_cases old : key ∈ keys
  · simp [old, w.reviewed_reviewedAt]
  · simp [old]

theorem withstands_reviews (valid : now.isValid) (loaded : Loaded path d c)
    (stored : ∀ key ∈ keys, key ∈ c.records.keys) :
    Withstands (keys.mapM fun key => Action.ofStore (Store.review path key now)) d
      (fun answers d' => Answers c now keys answers ∧ Progress path c now keys d')
      (Broken path keys (Progress path c now)) := by
  -- the invariant is on the keys that are done: the records tell of them, and so do the answers
  refine Files.withstands_mapM
    (I := fun done answers d' => Answers c now done answers ∧ Progress path c now done d') ?_ ?_
  · rintro done key others answers d₁ rfl ⟨told, progress⟩
    refine (withstands_review_step valid progress (stored key (by simp))).mono ?_ fun _ _ => id
    rintro answer d' ⟨last, further⟩
    exact ⟨told.concat last, further⟩
  · exact ⟨⟨rfl, nofun⟩, c.records, reviewed_none, loaded⟩

/-- Whatever is loaded, whatever the fragments and the time. If one of the fragments stands for no word,
the first such one decides the error, and the disk is left alone. Otherwise, if no change of the disk
fails, there is an answer for each fragment in order; it counts just at the first fragment for a word that
waits for a review; these words are reviewed, and nothing else is changed. If one fails, it is with the
error of saving, and with a temporary file of its own the words of the first fragments are reviewed, up to
some fragment, and nothing else is changed. -/
theorem review_counts_each_word_once (valid : now.isValid) (loaded : Loaded path d c)
    (fragments : List String) :
    ((∃ keys, Stand c fragments keys) ∨ ∃ x, Unresolved c fragments x) ∧
    (∀ x, Unresolved c fragments x →
      Always (review path fragments now) d (.error (.store (.key x))) d) ∧
    (∀ keys, Stand c fragments keys → Withstands (review path fragments now) d
      (fun answers d' => answers.length = fragments.length ∧
        (∀ i key, keys[i]? = some key → ∃ w, c.entry? key = some ⟨key, w⟩ ∧
          answers[i]? = some (⟨key, w.reviewedAt now⟩,
            decide (w.reviewed = false ∧ key ∉ keys.take i))) ∧
        ∃ records, Loaded path d' { c with records } ∧ records.toList =
          c.records.toList.map fun p => (p.1, if p.1 ∈ keys then p.2.reviewedAt now else p.2))
      (fun x d' => ∃ saving, x = .store saving ∧ saving.ofSave = true ∧
        (SavesBeside path → ∃ done, done <+: keys ∧
          ∃ records, Loaded path d' { c with records } ∧ records.toList =
            c.records.toList.map fun p => (p.1, if p.1 ∈ done then p.2.reviewedAt now else p.2)))) := by
  refine ⟨stand_or_unresolved c fragments, ?_, ?_⟩
  · intro x unresolved
    exact (always_of_looks (looks_resolveKeys path fragments)
      (outcome_resolveKeys_unresolved loaded unresolved)).bind_error
  · intro keys stand
    have resolves := always_of_looks (looks_resolveKeys path fragments) (outcome_resolveKeys loaded stand)
    refine (resolves.bind_withstands (withstands_reviews valid loaded stand.stored)).mono ?_ ?_
    · rintro answers d' ⟨told, records, reviewed, later⟩
      refine ⟨told.length.trans stand.length_eq.symm, fun i key here => ?_, records, later, reviewed⟩
      obtain ⟨answer, given, w, stored, rfl⟩ := told.told i key here
      exact ⟨w, stored, given⟩
    · rintro x d' ⟨saving, rfl, ofSave, left⟩
      refine ⟨saving, rfl, ofSave, fun beside => ?_⟩
      obtain ⟨done, front, records, reviewed, later⟩ := left beside
      exact ⟨done, front, records, later, reviewed⟩

theorem exists_reviews_alone (valid : now.isValid) (loaded : Loaded "words.json" (Store.alone c) c)
    (stored : ∀ key ∈ keys, key ∈ c.records.keys) : ∃ answers d',
      outcome (keys.mapM fun key => Action.ofStore (Store.review "words.json" key now))
        (Store.alone c) = (.ok answers, d') := by
  induction keys generalizing c with
  | nil => exact ⟨[], Store.alone c, rfl⟩
  | cons key others ih =>
    obtain ⟨w, here⟩ := Store.exists_entry (stored key List.mem_cons_self)
    obtain ⟨readable, version, -⟩ := Store.sound_of_loadOrEmpty loaded
    have found := Store.entryOf_eq_ok_iff.2 here
    have word := Store.Operation.readable_review
      (readable.words _ (Store.Operation.mem_of_entryOf found)) valid
    have put : (c.put key (w.review now).2).Readable := Store.Operation.readable_put readable word
    have later := Store.load_alone put version
    have reviews := outcome_ofStore (Store.review "words.json" key now) (d := Store.alone c)
    rw [Store.outcome_review_of_alone loaded found] at reviews
    obtain ⟨answers, d', further⟩ := ih later fun k mem =>
      mem_keys_putOrdered.2 (.inr (stored k (List.mem_cons_of_mem key mem)))
    rw [List.mapM_cons, outcome_bind_of_ok reviews, outcome_bind_of_ok further]
    exact ⟨_, d', rfl⟩

def seaFragments : List String := ["1", "a", "a1"]

theorem review_of_sea :
    (⟨0, 0, 0⟩ : Time.Instant).isValid ∧ Loaded "words.json" (Store.alone Store.sea) Store.sea ∧
    Stand Store.sea seaFragments ["a1", "a1", "a1"] ∧
    Withstands (review "words.json" seaFragments ⟨0, 0, 0⟩) (Store.alone Store.sea)
      (fun answers d' => answers.length = seaFragments.length ∧
        (∀ i key, ["a1", "a1", "a1"][i]? = some key → ∃ w, Store.sea.entry? key = some ⟨key, w⟩ ∧
          answers[i]? = some (⟨key, w.reviewedAt ⟨0, 0, 0⟩⟩,
            decide (w.reviewed = false ∧ key ∉ ["a1", "a1", "a1"].take i))) ∧
        ∃ records, Loaded "words.json" d' { Store.sea with records } ∧
          records.toList = Store.sea.records.toList.map fun p =>
            (p.1, if p.1 ∈ ["a1", "a1", "a1"] then p.2.reviewedAt ⟨0, 0, 0⟩ else p.2))
      (fun x d' => ∃ saving, x = .store saving ∧ saving.ofSave = true ∧
        (SavesBeside "words.json" → ∃ done, done <+: ["a1", "a1", "a1"] ∧
          ∃ records, Loaded "words.json" d' { Store.sea with records } ∧
            records.toList = Store.sea.records.toList.map fun p =>
              (p.1, if p.1 ∈ done then p.2.reviewedAt ⟨0, 0, 0⟩ else p.2))) ∧
    ∃ answers d', Ends (review "words.json" seaFragments ⟨0, 0, 0⟩).run (Store.alone Store.sea) false
      (.ok answers) d' := by
  have valid : (⟨0, 0, 0⟩ : Time.Instant).isValid := by decide
  have stand : Stand Store.sea seaFragments ["a1", "a1", "a1"] :=
    .cons (by decide) (.cons (by decide) (.cons (by decide) .nil))
  have reviews := (review_counts_each_word_once valid Store.loaded_alone_sea seaFragments).2.2 _ stand
  obtain ⟨answers, d', run⟩ := exists_reviews_alone valid Store.loaded_alone_sea stand.stored
  have ends := (reviews.ends_of_ok
    ((outcome_bind_of_ok (outcome_resolveKeys Store.loaded_alone_sea stand)).trans run)).1
  exact ⟨valid, Store.loaded_alone_sea, stand, reviews, answers, d', ends⟩

/-- The word waits for a review, but the file beside the collection cannot be written. -/
theorem review_of_blocked_sea :
    (⟨0, 0, 0⟩ : Time.Instant).isValid ∧ Loaded "words.json" (Store.blocked Store.sea) Store.sea ∧
    Stand Store.sea ["a1"] ["a1"] ∧
    outcome (review "words.json" ["a1"] ⟨0, 0, 0⟩) (Store.blocked Store.sea) =
      (.error (.store (.write (temporary "words.json"))), Store.blocked Store.sea) := by
  have valid : (⟨0, 0, 0⟩ : Time.Instant).isValid := by decide
  have stand : Stand Store.sea ["a1"] ["a1"] := .cons (by decide) .nil
  have found : Store.entryOf Store.sea "a1" = .ok ⟨"a1", { content := [.plain "sea"] }⟩ := rfl
  refine ⟨valid, Store.loaded_blocked_sea, stand, ?_⟩
  rw [review, outcome_bind_of_ok (outcome_resolveKeys Store.loaded_blocked_sea stand), List.mapM_cons]
  refine outcome_bind_of_error ?_
  rw [outcome_ofStore,
    Store.outcome_review_of_blocked Store.loaded_blocked_sea found rfl Store.blocked_sea]
  rfl

end Command

end Wordhoard
