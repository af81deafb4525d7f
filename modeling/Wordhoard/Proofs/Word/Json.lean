import Wordhoard.Proofs.Json.Reading
import Wordhoard.Proofs.Time.RoundTrip
import Wordhoard.Word.Json

/-! What is written of a word as JSON is read as that word. -/
namespace Wordhoard

open Json (Plain)

namespace Json

variable {α β : Type}

theorem mapM_map {write : α → β} {read : β → Option α} {items : List α}
    (h : ∀ x ∈ items, read (write x) = some x) : (items.map write).mapM read = some items := by
  induction items with
  | nil => rfl
  | cons x others ih =>
    obtain ⟨first, further⟩ := List.forall_mem_cons.1 h
    rw [List.map_cons, List.mapM_cons, first, ih further]
    rfl

theorem exists_of_mem_mapM {read : α → Option β} {items : List α} {found : List β}
    (h : items.mapM read = some found) : ∀ y ∈ found, ∃ x ∈ items, read x = some y := by
  induction items generalizing found with
  | nil =>
    cases h
    exact nofun
  | cons x others ih =>
    rw [List.mapM_cons] at h
    obtain ⟨y, first, h⟩ := Option.bind_eq_some_iff.1 h
    obtain ⟨ys, further, same⟩ := Option.bind_eq_some_iff.1 h
    cases same
    intro z mem
    rcases List.mem_cons.1 mem with rfl | later
    · exact ⟨x, List.mem_cons_self, first⟩
    · obtain ⟨x', mem', read⟩ := ih further z later
      exact ⟨x', List.mem_cons_of_mem _ mem', read⟩

theorem uint32?_integer (n : UInt32) : uint32? (.integer n.toNat) = some n := by
  have bounds : 0 ≤ (n.toNat : Int) ∧ (n.toNat : Int) < UInt32.size := by
    have := n.toNat_lt
    simp only [UInt32.size]
    omega
  rw [uint32?, if_pos bounds]
  simp

theorem member?_cons_of_ne {name other : String} (h : other ≠ name) (v : Json)
    (members : List (String × Json)) : member? name ((other, v) :: members) = member? name members := by
  rw [member?, List.filter_cons_of_neg (by simpa using h)]
  rfl

end Json

namespace Time.Instant

/-- Some text tells this time. -/
def Readable (t : Instant) : Prop := ∃ s, read? s = some t

theorem ofJson?_json {t : Instant} (h : t.Readable) : ofJson? t.json = some t := by
  rw [ofJson?, json, Json.string?, Option.bind_some]
  exact read?_text (exists_read?_iff.1 h)

theorem elim_map_json {t : Option Instant} (h : ∀ u ∈ t, u.Readable) :
    (t.map json).elim (some none) (Json.nullable? ofJson?) = some t := by
  cases t with
  | none => rfl
  | some t =>
    have read := ofJson?_json (h t rfl)
    rw [json] at read
    simp only [Option.map_some, Option.elim_some, json, Json.nullable?, read]

theorem readable_of_ofJson? {v : Json} {t : Instant} (h : ofJson? v = some t) : t.Readable := by
  obtain ⟨s, -, read⟩ := Option.bind_eq_some_iff.1 h
  exact ⟨s, read⟩

theorem readable_of_elim {v : Option Json} {t : Option Instant}
    (h : v.elim (some none) (Json.nullable? ofJson?) = some t) : ∀ u ∈ t, u.Readable := by
  cases v with
  | none =>
    cases h
    exact nofun
  | some v =>
    rw [Option.elim_some] at h
    unfold Json.nullable? at h
    split at h
    · cases h
      exact nofun
    · obtain ⟨u, read, rfl⟩ := Option.map_eq_some_iff.1 h
      intro u' same
      cases same
      exact readable_of_ofJson? read

end Time.Instant

theorem Piece.ofJson?_json (p : Piece) : Piece.ofJson? p.json = some p := by
  cases p with
  | plain text => rfl
  | optional text => rfl

theorem contentOfJson?_contentJson (content : List Piece) :
    contentOfJson? (contentJson content) = some content :=
  Json.mapM_map fun p _ => p.ofJson?_json

theorem TagSet.ofJson?_json (s : TagSet) : TagSet.ofJson? s.json = some s := by
  have tags : (s.toList.map Json.string).mapM Json.string? = some s.toList :=
    Json.mapM_map fun _ _ => rfl
  simp only [TagSet.ofJson?, TagSet.json, Json.array?, tags, Option.bind_eq_bind, Option.bind_some,
    ofList_toList]
  rfl

namespace Definition

theorem ofParts?_parts (d : Definition) :
    ofParts? (contentJson d.content) (some (.string d.description)) (some d.tags.json) = some d := by
  simp only [ofParts?, contentOfJson?_contentJson, Option.elim_some, Json.string?,
    TagSet.ofJson?_json, Option.bind_eq_bind, Option.bind_some]
  rfl

theorem ofJson?_json (d : Definition) : ofJson? d.json = some d := by
  simp [ofJson?, json, ofMembers?, members, Json.member?, ofParts?_parts]

end Definition

namespace Word

def Readable (w : Word) : Prop := ∀ t ∈ w.lastReviewed, t.Readable

/-- What stands under each of a word's names. -/
structure Held (w : Word) (members : List (String × Json)) : Prop where
  content : Json.member? "content" members = some (some (contentJson w.content))
  description : Json.member? "description" members = some (some (.string w.description))
  tags : Json.member? "tags" members = some (some w.tags.json)
  count : Json.member? "review_count" members = some (some (.integer w.reviewCount.toNat))
  last : Json.member? "last_reviewed" members = some (w.lastReviewed.map Time.Instant.json)
  reviewed : Json.member? "reviewed" members = some (some (.bool w.reviewed))

theorem held_members (w : Word) : Held w w.members := by
  cases h : w.lastReviewed <;>
    constructor <;> simp [members, Definition.members, Json.member?, h]

theorem Held.cons {w : Word} {members : List (String × Json)} (h : Held w members) (name : String)
    (other : name ∉ ["content", "description", "tags", "review_count", "last_reviewed", "reviewed"])
    (v : Json) : Held w ((name, v) :: members) := by
  simp only [List.mem_cons, not_or] at other
  obtain ⟨content, description, tags, count, last, reviewed, -⟩ := other
  constructor
  · rw [Json.member?_cons_of_ne content, h.content]
  · rw [Json.member?_cons_of_ne description, h.description]
  · rw [Json.member?_cons_of_ne tags, h.tags]
  · rw [Json.member?_cons_of_ne count, h.count]
  · rw [Json.member?_cons_of_ne last, h.last]
  · rw [Json.member?_cons_of_ne reviewed, h.reviewed]

theorem Held.definition {w : Word} {members : List (String × Json)} (h : Held w members) :
    Definition.ofMembers? members = some w.toDefinition := by
  simp only [Definition.ofMembers?, h.content, h.description, h.tags, Option.bind_eq_bind,
    Option.bind_some]
  exact Definition.ofParts?_parts _

theorem Held.read {w : Word} {members : List (String × Json)} (h : Held w members)
    (readable : w.Readable) : ofMembers? members = some w := by
  have count : (some (Json.integer w.reviewCount.toNat)).elim (some 0) Json.uint32? =
      some w.reviewCount := by
    rw [Option.elim_some, Json.uint32?_integer]
  have last := Time.Instant.elim_map_json readable
  simp only [ofMembers?, Option.bind_eq_bind, Option.bind_eq_some_iff]
  exact ⟨_, h.count, _, h.last, _, h.reviewed, _, h.definition, _, count, _, last, _, rfl, rfl⟩

theorem ofJson?_json {w : Word} (h : w.Readable) : ofJson? w.json = some w :=
  (held_members w).read h

theorem readable_of_ofMembers? {w : Word} {members : List (String × Json)}
    (h : ofMembers? members = some w) : w.Readable := by
  simp only [ofMembers?, Option.bind_eq_bind, Option.bind_eq_some_iff] at h
  obtain ⟨_, _, _, _, _, _, _, _, _, _, t, read, _, _, same⟩ := h
  cases same
  exact Time.Instant.readable_of_elim read

theorem readable_of_ofJson? {w : Word} {v : Json} (h : ofJson? v = some w) : w.Readable := by
  cases v with
  | object members => exact readable_of_ofMembers? h
  | _ => cases h

end Word

theorem Piece.plain_json (p : Piece) : Plain 1 p.json := by
  cases p <;>
    exact .object (List.forall_mem_cons.2 ⟨.string 0 _, List.forall_mem_singleton.2 (.string 0 _)⟩)

theorem plain_contentJson (content : List Piece) : Plain 2 (contentJson content) := by
  refine .array fun v mem => ?_
  obtain ⟨p, -, rfl⟩ := List.mem_map.1 mem
  exact p.plain_json

theorem TagSet.plain_json (s : TagSet) : Plain 1 s.json := by
  refine .array fun v mem => ?_
  obtain ⟨tag, -, rfl⟩ := List.mem_map.1 mem
  exact .string 0 tag

theorem Definition.plain_members (d : Definition) : ∀ p ∈ d.members, Plain 2 p.2 := by
  intro p mem
  simp only [members, List.mem_cons, List.not_mem_nil, or_false] at mem
  rcases mem with rfl | rfl | rfl
  · exact plain_contentJson d.content
  · exact .string 2 d.description
  · exact d.tags.plain_json.mono (by decide)

theorem Word.plain_members (w : Word) : ∀ p ∈ w.members, Plain 2 p.2 := by
  intro p mem
  simp only [members, List.mem_append, List.mem_singleton, Option.mem_toList,
    Option.map_eq_some_iff] at mem
  rcases mem with ((named | rfl) | ⟨t, -, rfl⟩) | rfl
  · exact w.toDefinition.plain_members p named
  · exact .integer 2 _
  · exact .string 2 _
  · exact .bool 2 _

theorem Definition.plain_json (d : Definition) : Plain 3 d.json := .object d.plain_members

theorem Word.plain_json (w : Word) : Plain 3 w.json := .object w.plain_members

end Wordhoard
