import Wordhoard.Proofs.Markup.Pairing
import Wordhoard.Proofs.Pattern.Spans
import Wordhoard.Proofs.Query.Levels
import Wordhoard.Proofs.Query.Parse
import Wordhoard.Proofs.Query.RoundTrip
import Wordhoard.Proofs.Query.Spacing

/-! Tags in queries. Main statements: the definitions that a query inserts have canonical contents and
valid tags, and a tag is valid just when it is one token behind its sign, and can be asked for so. -/
namespace Wordhoard

theorem TagSet.mem_foldl_insert {tags : List String} {s : TagSet} {t : String} :
    t ∈ (tags.foldl insert s).toList ↔ t ∈ s.toList ∨ t ∈ tags := by
  induction tags generalizing s with
  | nil => simp
  | cons u others ih =>
    have inserted : t ∈ (s.insert u).toList ↔ t = u ∨ t ∈ s.toList := mem_insertOrdered
    rw [List.foldl_cons, ih, inserted, List.mem_cons]
    tauto

theorem TagSet.mem_ofList {tags : List String} {t : String} : t ∈ (ofList tags).toList ↔ t ∈ tags := by
  rw [ofList, mem_foldl_insert]
  exact or_iff_right List.not_mem_nil

namespace Query

open Grammar (Leaf Row)
open Pattern (CharSet)

variable {text tag : String} {ls : List (Leaf Kind)} {t : Token Kind}

theorem valid_of_chars (nonempty : tag.toList ≠ [])
    (chars : ∀ c ∈ tag.toList, tagEnd.contains c = false) : isValidTag tag = true := by
  rw [isValidTag, Bool.and_eq_true, decide_eq_true_eq]
  refine ⟨fun empty => nonempty (String.toList_eq_nil_iff.2 empty), ?_⟩
  refine List.all_eq_true.2 fun c mem => ?_
  have outside := chars c mem
  rw [tagEnd, CharSet.contains, Bool.or_eq_false_iff] at outside
  obtain ⟨visible, delimiters⟩ := outside
  rw [← Bool.not_eq_true, Pattern.CharSet.contains_ofList] at delimiters
  have blank : Text.isBlank c = false := visible
  have allowed : tagDelimiters.contains c = false := by
    rw [List.contains_eq_mem, decide_eq_false_iff_not]
    intro delimiter
    refine delimiters ?_
    simp only [tagDelimiters, List.mem_cons, List.not_mem_nil, or_false] at delimiter ⊢
    tauto
  rw [blank, allowed]
  rfl

theorem pattern_of_tag {r : Rule Kind} (mem : r ∈ rules) (kind : r.kind = .tag) :
    r.pattern = .seq .textStart (.seq (.one (.single '#')) (.many1 (.complement tagEnd))) := by
  simp only [rules, List.mem_cons, List.not_mem_nil, or_false] at mem
  rcases mem with rfl | rfl | rfl | rfl | rfl | rfl | rfl | rfl | rfl | rfl | rfl | rfl | rfl | rfl |
    rfl | rfl
  all_goals first | rfl | cases kind

theorem exists_name (mem : t ∈ (stream text).tokens) (kind : t.kind = .tag) :
    ∃ name, isValidTag name = true ∧ t.text = String.ofList (Lexeme.tag name).chars := by
  obtain ⟨r, listed, same, spans⟩ := Rule.spans_of_mem_scan _ _ _ mem
  rw [pattern_of_tag listed (same.symm.trans kind)] at spans
  obtain ⟨_, _, whole, rfl, sign, name, rfl, ⟨c, rfl, single⟩, many⟩ := spans
  obtain rfl : c = '#' := Pattern.CharSet.contains_single.1 single
  obtain ⟨nonempty, members⟩ := Pattern.spans_many1 many
  have chars : ∀ c ∈ name, tagEnd.contains c = false := fun c mem =>
    (Bool.not_eq_true' _).mp (members c mem)
  refine ⟨String.ofList name, valid_of_chars ?_ ?_, ?_⟩
  · rwa [String.toList_ofList]
  · rwa [String.toList_ofList]
  · apply String.toList_injective
    rw [whole, Lexeme.chars, String.toList_ofList, String.toList_ofList]
    rfl

theorem valid_tagName (mem : t ∈ (stream text).tokens) (kind : t.kind = .tag) :
    isValidTag (tagName t) = true := by
  obtain ⟨name, valid, same⟩ := exists_name mem kind
  rwa [tagName_tag valid same]

theorem writable_of_denotes {e : Entry} {d : Definition} (proper : e.Proper) (h : e.Denotes d)
    (tokens : ∀ l ∈ e.leaves, l.token ∈ (stream text).tokens) : Writable d := by
  obtain ⟨content, -, tagged⟩ := h
  refine ⟨(Markup.parse_eq_ok_iff.1 content).1, fun tag mem => ?_⟩
  rw [tagged, TagSet.mem_ofList] at mem
  obtain ⟨l, given, rfl⟩ := List.mem_map.1 mem
  exact valid_tagName (tokens l (List.mem_append_right _ given)) (kind_of_isKind (proper.tags l given))

theorem allowed_of_parse {q : Query} (h : parse text = .ok q) :
    excess? {} (stream text).tokens = none := by
  unfold parse at h
  dsimp only at h
  split at h
  · cases h
  · split at h
    · cases h
    · assumption

theorem denotes_of_parse {q : Query} (h : parse text = .ok q) :
    ∃ ls w, Derivation text ls w ∧ w.Denotes q := by
  obtain ⟨ls, w, derivation⟩ := derivation_of_parse h
  rw [parse_eq_of_derivation (allowed_of_parse h) derivation] at h
  exact ⟨ls, w, derivation, Written.query_eq_ok.1 h⟩

def Listed (ls : List (Leaf Kind)) (entries : List Entry) : Prop :=
  ∀ e ∈ entries, e.Proper ∧ ∀ l ∈ e.leaves, l ∈ ls

theorem Listed.cons {ms : List (Leaf Kind)} {e : Entry} {entries : List Entry} (proper : e.Proper)
    (here : ∀ l ∈ e.leaves, l ∈ ms) (others : Listed ls entries) (inside : ∀ l ∈ ls, l ∈ ms) :
    Listed ms (e :: entries) := by
  intro e' mem
  rcases List.mem_cons.1 mem with rfl | later
  · exact ⟨proper, here⟩
  · obtain ⟨proper', leaves⟩ := others e' later
    exact ⟨proper', fun l mem => inside l (leaves l mem)⟩

theorem listed_of_row {entries : List Entry} (h : Row FurtherEntry ls entries) : Listed ls entries := by
  induction h with
  | nil =>
    intro e mem
    cases mem
  | cons first others ih =>
    obtain ⟨separator, rfl, -, proper⟩ := first
    exact ih.cons proper (fun l mem => by simp [mem]) fun l mem => by simp [mem]

theorem listed_of_sentence {entries : List Entry} (h : Sentence ls (.insert entries)) :
    Listed ls entries := by
  cases h with
  | insert begun proper further finished =>
    exact (listed_of_row further).cons proper (fun l mem => by simp [mem]) fun l mem => by simp [mem]

theorem exists_of_forall₂ {entries : List Entry} {ds : List Definition} {d : Definition}
    (h : List.Forall₂ Entry.Denotes entries ds) (mem : d ∈ ds) : ∃ e ∈ entries, e.Denotes d := by
  induction h with
  | nil => cases mem
  | cons first others ih =>
    rcases List.mem_cons.1 mem with rfl | later
    · exact ⟨_, List.mem_cons_self, first⟩
    · obtain ⟨e, given, denoted⟩ := ih later
      exact ⟨e, List.mem_cons_of_mem _ given, denoted⟩

theorem writable_of_parse {ds : List Definition} (h : parse text = .ok (.insert ds)) :
    ∀ d ∈ ds, Writable d := by
  obtain ⟨ls, w, derivation, denotes⟩ := denotes_of_parse h
  cases w with
  | ready q =>
    cases denotes
    cases derivation.sentence
  | insert entries =>
    intro d mem
    obtain ⟨e, given, denoted⟩ := exists_of_forall₂ denotes mem
    obtain ⟨proper, inside⟩ := listed_of_sentence derivation.sentence e given
    have tokens (l) (mem : l ∈ e.leaves) : l.token ∈ (stream text).tokens := by
      rw [← derivation.tokens]
      exact List.mem_map_of_mem (inside l mem)
    exact writable_of_denotes proper denoted tokens

theorem stream_tag (valid : isValidTag tag = true) : ∃ l p,
    stream ("#" ++ tag) = ⟨[Leaf.token l], .finished p⟩ ∧ IsKind .tag l ∧
      l.token.text = String.ofList (Lexeme.tag tag).chars := by
  have chars : ("#" ++ tag).toList = [Lexeme.tag tag].flatMap Lexeme.chars := by
    simp [Lexeme.chars]
  obtain ⟨ls, p, scanned, spelled⟩ := spells_scan [.tag tag] (List.forall_mem_singleton.2 valid)
    (.singleton _) ("#" ++ tag).length .start (by rw [← chars, String.length_toList])
  obtain ⟨l, ls, rfl, isTag, rest⟩ := spelled.visible rfl
  rw [rest.eq_nil] at scanned
  refine ⟨l, p, ?_, (Option.some.inj isTag.terminal).symm, isTag.text⟩
  rw [stream, Rule.stream, chars]
  exact scanned

theorem parse_tag (valid : isValidTag tag = true) :
    parse ("#" ++ tag) = .ok (.filter (.hasTag tag) []) := by
  obtain ⟨l, p, whole, kind, spelled⟩ := stream_tag valid
  have allowed : excess? {} (stream ("#" ++ tag)).tokens = none := by
    rw [whole]
    simp [excess?, Levels.next, kind_of_isKind kind, isWord, maxOperators, maxNesting]
  have derivation : Derivation ("#" ++ tag) [l]
      (.ready (.filter (.hasTag (tagName l.token)) [])) := by
    refine ⟨⟨p, by rw [whole]⟩, by rw [whole]; rfl, ?_⟩
    have derived : Derives .unary [l] (.hasTag (tagName l.token)) := .primary (.predicate (.tag kind))
    exact .filter (.some derived.lone_operand.lone_conjunction) .nil
  rw [parse_eq_of_derivation allowed derivation, tagName_tag valid spelled]
  rfl

theorem tag_first : ∀ t ∈ (stream ("#" ++ tag)).tokens.head?, t.kind = .tag := by
  have others : rules.all fun r => r.pattern.shuns '#' || (r.keep && r.kind = .tag) := by
    decide +kernel
  have chars : ("#" ++ tag).toList = '#' :: tag.toList := by simp
  rw [stream, Rule.stream, chars, ← String.length_toList, chars, List.length_cons]
  cases found : Rule.first? rules ('#' :: tag.toList) with
  | none =>
    simp only [Rule.scan, found]
    intro t mem
    cases mem
  | some cut =>
    obtain ⟨r, piece, rest⟩ := cut
    obtain ⟨r', listed, taken⟩ := List.exists_of_findSome?_eq_some found
    obtain ⟨parts, here, same⟩ := Option.map_eq_some_iff.1 taken
    cases same
    have apart := List.all_eq_true.1 others r listed
    rw [Bool.or_eq_true, Bool.and_eq_true, decide_eq_true_eq] at apart
    rcases apart with shuns | ⟨keep, kind⟩
    · cases (Rule.cut?_of_shuns shuns).symm.trans here
    · rw [Rule.scan_of_first? found (List.cons_ne_nil _ _), if_pos keep]
      rintro t ⟨⟩
      exact kind

theorem chained_eq_hasTag {join : Condition → Condition → Condition} {c : Condition}
    {links : List Link} (h : chained join c links = .hasTag tag)
    (joins : ∀ a b, join a b ≠ .hasTag tag) : links = [] ∧ c = .hasTag tag := by
  rcases links.eq_nil_or_concat with rfl | ⟨others, k, rfl⟩
  · exact ⟨rfl, h⟩
  · rw [List.concat_eq_append, chained_snoc] at h
    exact absurd h (joins _ _)

theorem tag_of_derives {place : Level} {c : Condition} (h : Derives place ls c) (same : c = .hasTag tag)
    (first : ∀ l ∈ ls.head?, l.token.kind = .tag) : ∃ l ∈ ls, IsKind .tag l ∧ tagName l.token = tag := by
  induction h with
  | expr _ _ _ ih =>
    obtain ⟨rfl, rfl⟩ := chained_eq_hasTag same fun _ _ => nofun
    rw [List.flatMap_nil, List.append_nil] at first ⊢
    exact ih rfl first
  | conjunction _ _ _ ih =>
    obtain ⟨rfl, rfl⟩ := chained_eq_hasTag same fun _ _ => nofun
    rw [List.flatMap_nil, List.append_nil] at first ⊢
    exact ih rfl first
  | not => cases same
  | primary _ ih => exact ih same first
  | group opened => cases (kind_of_isKind opened).symm.trans (first _ rfl)
  | predicate simple =>
    cases simple with
    | all => cases same
    | reviewed => cases same
    | tag isTag =>
      cases same
      exact ⟨_, List.mem_singleton_self _, isTag, rfl⟩
    | field _ named => cases (kind_of_isWord named).symm.trans (first _ rfl)
    | compare => cases same

theorem valid_of_parse (h : parse ("#" ++ tag) = .ok (.filter (.hasTag tag) [])) :
    isValidTag tag = true := by
  obtain ⟨ls, w, derivation, denotes⟩ := denotes_of_parse h
  have first : ∀ l ∈ ls.head?, l.token.kind = .tag := by
    intro l mem
    refine tag_first l.token (?_ : _ ∈ (stream ("#" ++ tag)).tokens.head?)
    rw [← derivation.tokens, List.head?_map]
    exact Option.mem_map_of_mem _ mem
  cases w with
  | insert entries => cases denotes
  | ready q =>
    cases denotes
    cases derivation.sentence with
    | @filter ls ms _ _ selected piped =>
      cases piped
      rw [List.append_nil] at first
      cases selected with
      | some condition =>
        obtain ⟨l, mem, isTag, rfl⟩ := tag_of_derives condition rfl first
        refine valid_tagName (?_ : _ ∈ (stream ("#" ++ tagName l.token)).tokens) (kind_of_isKind isTag)
        rw [← derivation.tokens]
        exact List.mem_map_of_mem (List.mem_append_left _ mem)

/-- A tag is valid just when its sign and its name are cut into one token, a tag that is the whole
text, and just when this text as a query asks for the tag. -/
theorem valid_iff_asked_for (tag : String) :
    (isValidTag tag = true ↔ ∃ t, (stream ("#" ++ tag)).toList? = .ok [t] ∧ t.kind = .tag ∧
      t.text = "#" ++ tag) ∧
    (isValidTag tag = true ↔ parse ("#" ++ tag) = .ok (.filter (.hasTag tag) [])) := by
  have spelled (name : String) : String.ofList (Lexeme.tag name).chars = "#" ++ name := by
    apply String.toList_injective
    simp [Lexeme.chars]
  refine ⟨⟨fun valid => ?_, ?_⟩, parse_tag, valid_of_parse⟩
  · obtain ⟨l, p, whole, kind, text⟩ := stream_tag valid
    exact ⟨l.token, by rw [whole]; rfl, kind_of_isKind kind, text.trans (spelled tag)⟩
  · rintro ⟨t, all, kind, text⟩
    have tokens : t ∈ (stream ("#" ++ tag)).tokens := by
      rw [(finished_of_toList? all).1]
      exact List.mem_singleton_self t
    obtain ⟨name, valid, same⟩ := exists_name tokens kind
    rw [spelled, text] at same
    have names : tag.toList = name.toList := by
      simpa using congrArg String.toList same
    rwa [String.toList_injective names]

end Query

end Wordhoard
