import Wordhoard.Proofs.Store.Failure
import Wordhoard.Proofs.Store.RoundTrip

/-! Filters on the stored words. A filter loads only the words that it matches, and is evaluated on
these. Main statement: it lists what it lists when it is evaluated on all stored words. -/
namespace Wordhoard

variable {α ρ : Type} [RandomSource ρ]

namespace Query

theorem evaluate_filtered (now : Time.Instant) (view : α → Word) (condition : Condition)
    (steps : List Step) (items : List α) (r : ρ) :
    evaluate now view (filter condition steps)
        (items.filter fun x => condition.holds now (view x)) r =
      evaluate now view (filter condition steps) items r := by
  have twice : (items.filter fun x => condition.holds now (view x)).filter
      (fun x => condition.holds now (view x)) = items.filter fun x => condition.holds now (view x) := by
    simp [List.filter_filter]
  simp only [evaluate, twice]

theorem exists_listed (now : Time.Instant) (view : α → Word) (condition : Condition)
    (steps : List Step) (items : List α) (r : ρ) :
    ∃ found r', evaluate now view (filter condition steps) items r = .ok (.listed found, r') :=
  ⟨_, _, rfl⟩

end Query

namespace Store

open Files (Disk outcome)

variable {path : String} {c : Collection} {d : Disk}

theorem keys_entries (c : Collection) : c.entries.map Entry.key = c.records.keys := by
  simp [Collection.entries, KeyMap.keys]

theorem ascending_entries (c : Collection) : (c.entries.map Entry.key).Pairwise (· < ·) := by
  rw [keys_entries]
  exact c.records.ascending

theorem outcome_list (stored : Loaded path d c) (keep : Word → Bool) :
    outcome (list path keep) d = (.ok (c.entries.filter fun e => keep e.word), d) :=
  Files.outcome_bind_of_ok stored

theorem outcome_snapshot (stored : Loaded path d c) (now : Time.Instant)
    (condition : Query.Condition) (steps : List Query.Step) :
    outcome (snapshot path now (.filter condition steps)) d =
      (.ok (c.entries.filter fun e => condition.holds now e.word), d) :=
  outcome_ofStore (outcome_list stored _)

/-- A filter lists just the entries, in the same order, that its evaluation on all stored entries in
the order of their keys lists, leaves the random source as that does, and leaves the disk. -/
theorem listed_as_evaluated {text : String} {condition : Query.Condition} {steps : List Query.Step}
    (parsed : Query.parse text = .ok (.filter condition steps)) (stored : Loaded path d c)
    (s : Surroundings) (r : ρ) :
    (c.entries.map Entry.key).Pairwise (· < ·) ∧
      ∃ es r', Query.evaluate s.now Entry.word (.filter condition steps) c.entries r =
          .ok (.listed es, r') ∧
        outcome (query path s r text) d = (.ok (.listed es, r'), d) := by
  obtain ⟨es, r', evaluated⟩ :=
    Query.exists_listed s.now Entry.word condition steps c.entries r
  refine ⟨ascending_entries c, es, r', evaluated, ?_⟩
  have loaded := outcome_snapshot stored s.now condition steps
  have again : Query.evaluate s.now Entry.word (.filter condition steps)
      (c.entries.filter fun e => condition.holds s.now e.word) r = .ok (.listed es, r') := by
    rw [Query.evaluate_filtered, evaluated]
  rw [query, parsed]
  dsimp only
  rw [runQuery, Files.outcome_bind_of_ok loaded, again]
  rfl

def twoSeas : Collection where
  records := (KeyMap.empty.insert "b" { content := [.plain "sea"] }).insert "a"
    { content := [.plain "ocean"], reviewCount := 1, reviewed := true }

theorem readable_twoSeas : twoSeas.Readable := by
  refine ⟨?_, nofun⟩
  intro p mem t last
  have unknown : p.2.lastReviewed = none := by
    rcases List.mem_cons.1 mem with rfl | mem
    · rfl
    · rw [List.mem_singleton.1 mem]
  rw [unknown] at last
  cases last

theorem listed_of_twoSeas :
    let d : Disk := { nodes := [(["words.json"], .file twoSeas.text.toUTF8)] }
    let r : Random := ⟨7⟩
    ∃ es r', Query.evaluate ⟨0, 0, 0⟩ Entry.word (.filter (.compare .reviews .lt 2) [.shuffle, .limit 1])
          twoSeas.entries r = .ok (.listed es, r') ∧
      outcome (query "words.json" ⟨⟨0, 0, 0⟩, fun _ => "c"⟩ r "reviews < 2 | shuffle | limit(1)") d =
        (.ok (.listed es, r'), d) := by
  intro d r
  have parsed : Query.parse "reviews < 2 | shuffle | limit(1)" =
      .ok (.filter (.compare .reviews .lt 2) [.shuffle, .limit 1]) := by
    decide +kernel
  have stored : Loaded "words.json" d twoSeas :=
    loadOrEmpty_of_read rfl readable_twoSeas (by decide)
  exact (listed_as_evaluated parsed stored ⟨⟨0, 0, 0⟩, fun _ => "c"⟩ r).2

end Store

end Wordhoard
