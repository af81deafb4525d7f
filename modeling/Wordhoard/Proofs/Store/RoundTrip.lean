import Wordhoard.Proofs.Store.Saved

/-! Main statement: whatever the program writes as JSON it reads back as it was, on its own, from the
stored file and from an export. -/
namespace Wordhoard.Store

open Files (Disk Program outcome)

variable {α : Type} {path : String} {c : Collection} {d d' : Disk}

theorem outcome_exportText (h : outcome (loadOrEmpty path) d = (.ok c, d')) :
    outcome (exportText path) d = (.ok c.text, d') :=
  Files.outcome_bind_of_ok h

theorem outcome_ofStore {a : Action α} {x : α} (h : outcome a d = (.ok x, d')) :
    outcome (QueryAction.ofStore a) d = (.ok x, d') := by
  have mapped : outcome (QueryAction.ofStore a) d =
      ((outcome a d).1.mapError QueryError.store, (outcome a d).2) := Program.run_bind _ _ d
  rw [mapped, h]
  rfl

theorem outcome_dump {ρ : Type} [RandomSource ρ] {text : String}
    (dump : Query.parse text = .ok .dump) (s : Surroundings) (r : ρ)
    (h : outcome (loadOrEmpty path) d = (.ok c, d')) :
    outcome (query path s r text) d = (.ok (.dump c.text, r), d') := by
  have exported := outcome_ofStore (outcome_exportText h)
  have run : query path s r text =
      QueryAction.ofStore (exportText path) >>= fun t => pure (.dump t, r) := by
    rw [query, dump]
    rfl
  rw [run, Files.outcome_bind_of_ok exported]
  rfl

def ReadsBack (write : α → Json) (read : Json → Option α) (x : α) : Prop :=
  (Json.read? (write x).compact).bind read = some x ∧
    (Json.read? (write x).pretty).bind read = some x

theorem readsBack_of_plain {write : α → Json} {read : Json → Option α} {x : α} {depth : Nat}
    (shallow : depth ≤ Json.maxDepth) (plain : Json.Plain depth (write x))
    (h : read (write x) = some x) : ReadsBack write read x := by
  have plain := plain.mono shallow
  constructor
  · rw [Json.read?_compact plain, Option.bind_some, h]
  · rw [Json.read?_pretty plain, Option.bind_some, h]

/-- Every value is read from its JSON texts, whatever texts, counts and tags it has, if some text tells
its times. So a collection is loaded as it was saved, and an export or a dump of what is stored is
read as that. -/
theorem reads_back_what_is_written :
    (∀ p : Piece, ReadsBack Piece.json Piece.ofJson? p) ∧
    (∀ d : Definition, ReadsBack Definition.json Definition.ofJson? d) ∧
    (∀ w : Word, w.Readable → ReadsBack Word.json Word.ofJson? w) ∧
    (∀ e : Entry, e.Readable → ReadsBack Entry.json Entry.ofJson? e) ∧
    (∀ c : Collection, c.Readable → ReadsBack Collection.json Collection.ofJson? c) ∧
    (∀ (path : String) (c : Collection) (d d' : Disk), c.Readable → c.version ≤ currentVersion →
      outcome (save path c) d = (.ok (), d') →
        outcome (load path) d' = (.ok c, d') ∧ outcome (loadOrEmpty path) d' = (.ok c, d')) ∧
    (∀ (path : String) (c : Collection) (d d' : Disk), outcome (loadOrEmpty path) d = (.ok c, d') →
      Collection.read? c.text = some c ∧ outcome (exportText path) d = (.ok c.text, d) ∧
        ∀ {ρ : Type} [RandomSource ρ] (s : Surroundings) (r : ρ) (text : String),
          Query.parse text = .ok .dump → outcome (query path s r text) d = (.ok (.dump c.text, r), d)) := by
  refine ⟨fun p => ?_, fun d => ?_, fun w h => ?_, fun e h => ?_, fun c h => ?_, ?_, ?_⟩
  · exact readsBack_of_plain (by decide) p.plain_json p.ofJson?_json
  · exact readsBack_of_plain (by decide) d.plain_json d.ofJson?_json
  · exact readsBack_of_plain (by decide) w.plain_json (Word.ofJson?_json h)
  · exact readsBack_of_plain (by decide) e.plain_json (Entry.ofJson?_json h)
  · exact readsBack_of_plain (by decide) c.plain_json (Collection.ofJson?_json h)
  · intro path c d d' readable version saved
    have stored := read_of_save saved
    exact ⟨load_of_read stored readable version, loadOrEmpty_of_read stored readable version⟩
  · intro path c d d' loaded
    obtain ⟨readable, -, rfl⟩ := sound_of_loadOrEmpty loaded
    exact ⟨Collection.read?_text readable, outcome_exportText loaded,
      fun s r text dump => outcome_dump dump s r loaded⟩

/-- A word last reviewed in the leap second at the end of 2016, in a session begun in the year 12000. -/
def leapCollection : Collection where
  records := KeyMap.empty.insert "k"
    { content := [.plain "\"\\\x01", .optional "\u2028"]
      tags := .ofList ["x"]
      reviewCount := 4294967295
      lastReviewed := some ⟨17166, 86399, 1500000000⟩
      reviewed := true }
  sessionStarted := some ⟨3663480, 0, 1⟩

theorem loads_leapCollection :
    ∃ d', outcome (save "words.json" leapCollection) {} = (.ok (), d') ∧
      outcome (load "words.json") d' = (.ok leapCollection, d') := by
  have readable : leapCollection.Readable := by
    constructor
    · intro p mem
      rw [List.mem_singleton.1 mem]
      intro t last
      cases last
      exact Time.Instant.exists_read?_iff.2 (by decide)
    · intro t started
      cases started
      exact Time.Instant.exists_read?_iff.2 (by decide)
  have saved : outcome (save "words.json" leapCollection) {} = (.ok (), _) := Prod.ext rfl rfl
  exact ⟨_, saved, (reads_back_what_is_written.2.2.2.2.2.1 _ _ _ _ readable (by decide) saved).1⟩

end Wordhoard.Store
