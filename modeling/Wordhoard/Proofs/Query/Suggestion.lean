import Wordhoard.Proofs.Pattern.Spans
import Wordhoard.Proofs.Query.Occurrence
import Wordhoard.Proofs.Query.Refusal
import Wordhoard.Proofs.Text.EditDistance

/-! The keyword that a refused query is told of. Main statement: one is told of when the token at the
refusal is a word, a tag or a string, is no keyword and is within reach of one, and it is the first of
the nearest ones. The kind of the token is not looked at, so that a tag or a string is taken for a
misspelled keyword, too. -/
namespace Wordhoard.Query

open Text (Edits)
open Text.EditDistance (distance)

/-- The least number of edits that turn one word into the other. -/
def Apart (d : Nat) (word other : String) : Prop :=
  IsLeast {n | Edits n word.toList other.toList} d

/-- The number of edits that a keyword may be away. -/
def reach (word : String) : Nat := if word.length < 5 then 1 else 2

/-- No keyword, but within reach of one. -/
def Misspelled (word : String) : Prop :=
  word ∉ keywords ∧ ∃ k ∈ keywords, ∃ d ≤ reach word, Apart d word k

/-- All keywords before this one are farther away, and none behind it is nearer. -/
def Nearest (word k : String) : Prop :=
  ∃ before after d, keywords = before ++ k :: after ∧ Apart d word k ∧
    (∀ other ∈ before, ∀ d', Apart d' word other → d < d') ∧
    ∀ other ∈ after, ∀ d', Apart d' word other → d ≤ d'

variable {text word other k : String} {d limit : Nat} {t : Token Kind} {e : Expectation}

def distanceTo (word other : String) : Nat := distance word.toList other.toList

theorem apart_iff : Apart d word other ↔ d = distanceTo word other := by
  have least : Apart (distanceTo word other) word other := Text.EditDistance.isLeast_distance _ _
  exact ⟨fun h => h.unique least, fun h => h ▸ least⟩

def near (f : String → Nat) (limit : Nat) (words : List String) : List (Nat × String) :=
  words.filterMap fun k => if f k ≤ limit then some (f k, k) else none

theorem near_cons_of_le {f : String → Nat} {words : List String} (le : f k ≤ limit) :
    near f limit (k :: words) = (f k, k) :: near f limit words :=
  List.filterMap_cons_some (if_pos le)

theorem near_cons_of_lt {f : String → Nat} {words : List String} (lt : limit < f k) :
    near f limit (k :: words) = near f limit words :=
  List.filterMap_cons_none (if_neg (Nat.not_le_of_lt lt))

theorem closest_cons_ne_none (c : Nat × String) (cs : List (Nat × String)) :
    closest (c :: cs) ≠ none := by
  rw [closest]
  split
  · exact Option.some_ne_none c
  · split <;> exact Option.some_ne_none _

theorem lt_of_closest {f : String → Nat} {words : List String}
    (h : closest (near f limit words) = none) : ∀ k ∈ words, limit < f k := by
  induction words with
  | nil => exact List.forall_mem_nil _
  | cons word words ih =>
    by_cases le : f word ≤ limit
    · rw [near_cons_of_le le] at h
      exact absurd h (closest_cons_ne_none _ _)
    · have lt := Nat.lt_of_not_le le
      rw [near_cons_of_lt lt] at h
      exact List.forall_mem_cons.2 ⟨lt, ih h⟩

/-- What is closest is the first word at the least distance. -/
theorem first_of_closest {f : String → Nat} {words : List String}
    (h : closest (near f limit words) = some (d, k)) :
    d = f k ∧ d ≤ limit ∧ ∃ before after, words = before ++ k :: after ∧
      (∀ other ∈ before, d < f other) ∧ ∀ other ∈ after, d ≤ f other := by
  induction words generalizing d k with
  | nil => cases h
  | cons word words ih =>
    by_cases le : f word ≤ limit
    · rw [near_cons_of_le le, closest] at h
      split at h
      · rename_i none
        cases h
        exact ⟨rfl, le, [], words, rfl, List.forall_mem_nil _,
          fun other mem => Nat.le_trans le (Nat.le_of_lt (lt_of_closest none other mem))⟩
      · rename_i found some
        obtain ⟨d', k'⟩ := found
        obtain ⟨same, within, before, after, rfl, farther, others⟩ := ih some
        split at h
        · rename_i less
          cases h
          exact ⟨same, within, word :: before, after, rfl,
            List.forall_mem_cons.2 ⟨less, farther⟩, others⟩
        · rename_i not_less
          cases h
          have first : f word ≤ d' := Nat.le_of_not_lt not_less
          refine ⟨rfl, le, [], before ++ k' :: after, rfl, List.forall_mem_nil _, ?_⟩
          rw [List.forall_mem_append, List.forall_mem_cons, ← same]
          exact ⟨fun other mem => Nat.le_trans first (Nat.le_of_lt (farther other mem)), first,
            fun other mem => Nat.le_trans first (others other mem)⟩
    · have lt := Nat.lt_of_not_le le
      rw [near_cons_of_lt lt] at h
      obtain ⟨same, within, before, after, rfl, farther, others⟩ := ih h
      exact ⟨same, within, word :: before, after, rfl,
        List.forall_mem_cons.2 ⟨Nat.lt_of_le_of_lt within lt, farther⟩, others⟩

def meant (word : String) : Option String :=
  if word ∈ keywords then none
  else (closest (near (distanceTo word) (reach word) keywords)).map (·.2)

theorem suggest_eq (word : String) : suggest word = meant (Text.lowercase word) := by
  have measured (lower : String) :
      (fun k => (Text.EditDistance.within? (reach lower) lower.toList k.toList).map (·, k)) =
        fun k => if distanceTo lower k ≤ reach lower then some (distanceTo lower k, k) else none := by
    funext k
    unfold distanceTo
    rw [Text.EditDistance.within?_eq]
    split <;> rfl
  rw [meant, near, ← measured]
  simp only [suggest, List.contains_iff_mem]
  rfl

theorem exists_meant_iff : (∃ k, meant word = some k) ↔ Misspelled word := by
  constructor
  · rintro ⟨k, found⟩
    rw [meant] at found
    split at found
    · cases found
    · rename_i none
      obtain ⟨⟨d, k'⟩, closest, -⟩ := Option.map_eq_some_iff.1 found
      obtain ⟨same, le, before, after, split, -⟩ := first_of_closest closest
      have listed : k' ∈ keywords := by simp [split]
      exact ⟨none, k', listed, d, le, apart_iff.2 same⟩
  · rintro ⟨none, k, listed, d, le, apart⟩
    cases found : closest (near (distanceTo word) (reach word) keywords) with
    | none =>
      have farther := lt_of_closest found k listed
      rw [← apart_iff.1 apart] at farther
      omega
    | some c => exact ⟨c.2, by rw [meant, if_neg none, found, Option.map_some]⟩

theorem nearest_of_meant (h : meant word = some k) : Nearest word k := by
  rw [meant] at h
  split at h
  · cases h
  · obtain ⟨⟨d, k'⟩, closest, same⟩ := Option.map_eq_some_iff.1 h
    cases same
    obtain ⟨least, -, before, after, split, farther, others⟩ := first_of_closest closest
    refine ⟨before, after, d, split, apart_iff.2 least, ?_, ?_⟩
    · intro other mem d' apart
      exact apart_iff.1 apart ▸ farther other mem
    · intro other mem d' apart
      exact apart_iff.1 apart ▸ others other mem

def letters : List (Nat × Nat) :=
  (0x61, 0x7A) :: (0x130, 0x130) :: Text.lowerShifts.map fun s => (s.first, s.last)

theorem lowerChar_of_no_letter {c : Char} (h : Text.inRanges letters c = false) :
    Text.lowerChar c = c := by
  have uncovered : Text.lowerShifts.find? (·.covers c.toNat) = none := by
    refine List.find?_eq_none.2 fun s mem covers => ?_
    have outside := List.any_eq_false.1 h (s.first, s.last)
      (List.mem_cons_of_mem _ (List.mem_cons_of_mem _ (List.mem_map_of_mem mem)))
    rw [Text.Shift.covers, Bool.and_eq_true] at covers
    exact outside covers.1
  rw [Text.lowerChar, Text.shiftChar, uncovered]

theorem lowerAfter_of_no_letters {s : List Char} (before : List Char)
    (h : ∀ c ∈ s, Text.inRanges letters c = false) : Text.lowerAfter before s = s := by
  induction s generalizing before with
  | nil => rfl
  | cons c s ih =>
    obtain ⟨first, others⟩ := List.forall_mem_cons.1 h
    have dotted : c ≠ '\u0130' := by
      rintro rfl
      exact absurd first (by decide +kernel)
    have sigma : c ≠ 'Σ' := by
      rintro rfl
      exact absurd first (by decide +kernel)
    rw [Text.lowerAfter_cons, Text.lowerIn, if_neg dotted, if_neg sigma, lowerChar_of_no_letter first,
      ih _ others]
    rfl

theorem letters_of_keyword (h : k ∈ keywords) :
    2 ≤ k.toList.length ∧ ∀ c ∈ k.toList, Text.inRanges letters c = true := by
  have all : keywords.all fun k => 2 ≤ k.toList.length && k.toList.all (Text.inRanges letters) := by
    decide +kernel
  simpa using List.all_eq_true.1 all k h

theorem not_misspelled_of_no_letters (h : ∀ c ∈ word.toList, Text.inRanges letters c = false) :
    ¬ Misspelled (Text.lowercase word) := by
  have same : Text.lowercase word = word := by
    rw [Text.lowercase, lowerAfter_of_no_letters [] h, String.ofList_toList]
  rw [same]
  rintro ⟨-, k, keyword, d, le, edits, -⟩
  obtain ⟨two, spelled⟩ := letters_of_keyword keyword
  have lengths := (show Edits d word.toList k.toList from edits).aligned.length_le_of_apart
    fun c mem mem' => Bool.false_ne_true ((h c mem).symm.trans (spelled c mem'))
  rw [String.length_toList] at lengths
  rw [reach] at le
  split at le <;> omega

def lettered : List Kind := [.ident, .tag, .string]

theorem lacks_letters {r : Rule Kind} (h : r ∈ rules) :
    r.kind ∈ lettered ∨ r.pattern.lacks letters := by
  have all : ∀ r ∈ rules, r.kind ∈ lettered ∨ r.pattern.lacks letters := by
    decide +kernel
  exact all r h

theorem lettered_of_misspelled (mem : t ∈ (stream text).tokens)
    (h : Misspelled (Text.lowercase t.text)) : t.kind ∈ lettered := by
  obtain ⟨r, listed, same, spans⟩ := Rule.spans_of_mem_scan _ _ _ mem
  rw [same]
  refine (lacks_letters listed).resolve_right fun lacks => ?_
  exact not_misspelled_of_no_letters (Pattern.not_inRanges_of_spans lacks spans) h

theorem found_eq_some_iff (h : parse text = .error (.refused e)) :
    e.found = some word ↔ ∃ t ∈ (stream text).tokens, t.position = e.position ∧ t.text = word := by
  obtain ⟨c, entered, -, sums⟩ := refused_of_parse h
  have ordered : (stream text).Ordered := Rule.ordered_stream rules text
  have whole : c.stream = stream text := Stream.stream_of_enter entered
  obtain ⟨m, hm, position, found⟩ := sums.place
  obtain ⟨ls, passes, -⟩ := viable_of_mismatch hm
  have split : stream text = m.place.stream.prepend (ls.map Grammar.Leaf.token) :=
    whole.symm.trans passes
  cases place : m.place with
  | token t next =>
    rw [place] at position found split
    have here : t ∈ (stream text).tokens := by
      rw [split]
      exact List.mem_append_right _ List.mem_cons_self
    rw [found, position]
    constructor
    · intro same
      exact ⟨t, here, rfl, Option.some.inj same⟩
    · rintro ⟨t', mem, same, rfl⟩
      rw [ordered.unique mem here (congrArg Text.Position.index same)]
      rfl
  | finished p =>
    rw [place] at position found split
    rw [found, position]
    refine iff_of_false (by simp [Cursor.found]) ?_
    rintro ⟨t, mem, same, -⟩
    have before := ordered.index_lt_ending mem
    have ending : (stream text).ending = .finished p := congrArg Stream.ending split
    rw [ending, same] at before
    exact Nat.lt_irrefl _ before

/-- A keyword is suggested for a token with letters that is within reach of one, whatever its kind,
and it is the first of the nearest ones. -/
theorem suggestion_is_nearest (h : parse text = .error (.refused e)) :
    ((∃ k, ParseError.suggestion e = some k) ↔
      ∃ t ∈ (stream text).tokens, t.position = e.position ∧ t.kind ∈ lettered ∧
        Misspelled (Text.lowercase t.text)) ∧
    ∀ k, ParseError.suggestion e = some k →
      ∃ t ∈ (stream text).tokens, t.position = e.position ∧ Nearest (Text.lowercase t.text) k := by
  have suggested (k : String) : ParseError.suggestion e = some k ↔
      ∃ t ∈ (stream text).tokens, t.position = e.position ∧
        meant (Text.lowercase t.text) = some k := by
    rw [ParseError.suggestion, Option.bind_eq_some_iff]
    constructor
    · rintro ⟨word, found, same⟩
      obtain ⟨t, mem, position, rfl⟩ := (found_eq_some_iff h).1 found
      exact ⟨t, mem, position, suggest_eq _ ▸ same⟩
    · rintro ⟨t, mem, position, same⟩
      exact ⟨t.text, (found_eq_some_iff h).2 ⟨t, mem, position, rfl⟩, suggest_eq _ ▸ same⟩
  refine ⟨⟨?_, ?_⟩, ?_⟩
  · rintro ⟨k, named⟩
    obtain ⟨t, mem, position, same⟩ := (suggested k).1 named
    have misspelled := exists_meant_iff.1 ⟨k, same⟩
    exact ⟨t, mem, position, lettered_of_misspelled mem misspelled, misspelled⟩
  · rintro ⟨t, mem, position, -, misspelled⟩
    obtain ⟨k, same⟩ := exists_meant_iff.2 misspelled
    exact ⟨k, (suggested k).2 ⟨t, mem, position, same⟩⟩
  · intro k named
    obtain ⟨t, mem, position, same⟩ := (suggested k).1 named
    exact ⟨t, mem, position, nearest_of_meant same⟩

/-- Two letters of a short word have changed places. -/
theorem suggestion_of_srot :
    ∃ e, parse "all | srot" = .error (.refused e) ∧ ParseError.suggestion e = some "sort" ∧
      (∃ t ∈ (stream "all | srot").tokens, t.position = e.position ∧ t.kind ∈ lettered ∧
        Misspelled (Text.lowercase t.text)) ∧
      ∃ t ∈ (stream "all | srot").tokens, t.position = e.position ∧
        Nearest (Text.lowercase t.text) "sort" := by
  have refused : parse "all | srot" = .error (.refused ⟨⟨6, 1, 7, 1, 11⟩, some "srot",
      ["'limit'", "'skip'", "'sort'", "'shuffle'", "'reverse'"]⟩) := by
    decide +kernel
  obtain ⟨misspelled, nearest⟩ := suggestion_is_nearest refused
  refine ⟨_, refused, ?named, misspelled.1 ⟨"sort", ?named⟩, nearest "sort" ?named⟩
  decide +kernel

/-- A tag is taken for a keyword, though it is no word. -/
theorem suggestion_of_tag :
    ∃ e, parse "all #or" = .error (.refused e) ∧ ParseError.suggestion e = some "or" ∧
      ∀ t ∈ (stream "all #or").tokens, t.position = e.position → t.kind = .tag := by
  refine ⟨⟨⟨4, 1, 5, 1, 8⟩, some "#or", ["end of input", "'and'", "'&'", "'or'", "'|'"]⟩, ?_, ?_, ?_⟩
    <;> decide +kernel

end Wordhoard.Query
