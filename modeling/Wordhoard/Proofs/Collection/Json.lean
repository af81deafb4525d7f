import Wordhoard.Collection.Json
import Wordhoard.Proofs.Collection.KeyMap
import Wordhoard.Proofs.Word.Json

/-! What is written of an entry or a collection as JSON is read as it was. Whatever text a collection
is read from, its times are such as some text tells. -/
namespace Wordhoard

open Json (Plain)

namespace Entry

def Readable (e : Entry) : Prop := e.word.Readable

theorem ofJson?_json {e : Entry} (h : e.Readable) : ofJson? e.json = some e := by
  have held := (Word.held_members e.word).cons "key" (by decide) (.string e.key)
  have key : Json.member? "key" (("key", .string e.key) :: e.word.members) =
      some (some (.string e.key)) := by
    cases h : e.word.lastReviewed <;> simp [Word.members, Definition.members, Json.member?, h]
  simp only [ofJson?, json, Option.bind_eq_bind, Option.bind_eq_some_iff]
  exact ⟨_, key, _, rfl, _, rfl, _, held.read h, rfl⟩

theorem plain_json (e : Entry) : Plain 3 e.json :=
  .object (List.forall_mem_cons.2 ⟨.string 2 e.key, e.word.plain_members⟩)

end Entry

namespace Collection

/-- The times of the collection are such as some text tells. -/
structure Readable (c : Collection) : Prop where
  words : ∀ p ∈ c.records.toList, p.2.Readable
  session : ∀ t ∈ c.sessionStarted, t.Readable

variable {c : Collection}

theorem recordsOfJson?_recordsJson {records : KeyMap Word}
    (h : ∀ p ∈ records.toList, p.2.Readable) :
    recordsOfJson? (recordsJson records) = some records := by
  have pairs : (records.toList.map fun p => (p.1, p.2.json)).mapM
      (fun p => do return (p.1, ← Word.ofJson? p.2)) = some records.toList := by
    refine Json.mapM_map fun p mem => ?_
    rw [Word.ofJson?_json (h p mem)]
    rfl
  simp only [recordsOfJson?, recordsJson, pairs]
  exact congrArg some records.ofList_toList

theorem ofParts?_parts {version : Json} (hversion : version.uint32? = some c.version)
    (h : c.Readable) :
    ofParts? version (some (recordsJson c.records)) (c.sessionStarted.map Time.Instant.json) =
      some c := by
  have records : (some (recordsJson c.records)).elim (some {}) recordsOfJson? = some c.records := by
    rw [Option.elim_some, recordsOfJson?_recordsJson h.words]
  have started := Time.Instant.elim_map_json h.session
  simp only [ofParts?, Option.bind_eq_bind, Option.bind_eq_some_iff]
  exact ⟨_, hversion, _, records, _, started, rfl⟩

theorem member?_json (c : Collection) :
    ∃ members, c.json = .object members ∧
      Json.member? "version" members = some (some (.integer c.version.toNat)) ∧
      Json.member? "records" members = some (some (recordsJson c.records)) ∧
      Json.member? "session_started" members =
        some (c.sessionStarted.map Time.Instant.json) := by
  refine ⟨_, rfl, ?_⟩
  cases c.sessionStarted <;> simp [Json.member?]

theorem ofJson?_json (h : c.Readable) : ofJson? c.json = some c := by
  obtain ⟨members, same, version, records, started⟩ := c.member?_json
  simp only [same, ofJson?, Option.bind_eq_bind, Option.bind_eq_some_iff]
  exact ⟨_, version, _, rfl, _, records, _, started, ofParts?_parts (Json.uint32?_integer _) h⟩

theorem plain_recordsJson (records : KeyMap Word) : Plain 4 (recordsJson records) := by
  refine .object fun p mem => ?_
  obtain ⟨q, -, rfl⟩ := List.mem_map.1 mem
  exact q.2.plain_json

theorem plain_json (c : Collection) : Plain 5 c.json := by
  refine .object fun p mem => ?_
  simp only [List.mem_append, List.mem_cons, List.not_mem_nil, or_false, Option.mem_toList,
    Option.map_eq_some_iff] at mem
  rcases mem with (rfl | rfl) | ⟨t, -, rfl⟩
  · exact .integer 4 _
  · exact plain_recordsJson c.records
  · exact .string 4 _

theorem read?_text (h : c.Readable) : read? c.text = some c := by
  rw [read?, text, Json.read?_pretty (c.plain_json.mono (by decide)), Option.bind_some,
    ofJson?_json h]

theorem readable_of_recordsOfJson? {v : Json} {records : KeyMap Word}
    (h : recordsOfJson? v = some records) : ∀ p ∈ records.toList, p.2.Readable := by
  cases v with
  | object members =>
    obtain ⟨pairs, read, same⟩ := Option.bind_eq_some_iff.1 h
    cases same
    intro p mem
    obtain ⟨q, -, written⟩ := Json.exists_of_mem_mapM read p (KeyMap.mem_of_mem_ofList mem)
    obtain ⟨w, found, same⟩ := Option.bind_eq_some_iff.1 written
    cases same
    exact Word.readable_of_ofJson? found
  | _ => cases h

theorem readable_of_ofParts? {version : Json} {records started : Option Json}
    (h : ofParts? version records started = some c) : c.Readable := by
  simp only [ofParts?, Option.bind_eq_bind, Option.bind_eq_some_iff] at h
  obtain ⟨_, _, found, read, t, time, same⟩ := h
  cases same
  refine ⟨?_, Time.Instant.readable_of_elim time⟩
  cases records with
  | none =>
    cases read
    exact nofun
  | some v => exact readable_of_recordsOfJson? read

theorem readable_of_ofJson? {v : Json} (h : ofJson? v = some c) : c.Readable := by
  unfold ofJson? at h
  split at h
  · simp only [Option.bind_eq_bind, Option.bind_eq_some_iff] at h
    obtain ⟨_, _, _, _, _, _, _, _, read⟩ := h
    exact readable_of_ofParts? read
  · exact readable_of_ofParts? h
  · exact readable_of_ofParts? h
  · exact readable_of_ofParts? h
  · cases h

theorem readable_of_read? {text : String} (h : read? text = some c) : c.Readable := by
  obtain ⟨v, -, read⟩ := Option.bind_eq_some_iff.1 h
  exact readable_of_ofJson? read

end Collection

end Wordhoard
