import Wordhoard.Proofs.Query.Lexeme
import Wordhoard.Proofs.Query.Moved
import Wordhoard.Proofs.Token.Scan

/-! Spacing between the tokens of a query. Main statement: a text whose tokens are written again with
any blanks around them, and at least one between two, has the same tokens and is read in the same
way. -/
namespace Wordhoard.Query

open Pattern (CharSet Refuses Takes)
open Rule (Cut Cuts kept picks_iff)

def Gap (rest : List Char) : Prop := ∀ c ∈ rest.head?, CharSet.blank.contains c

/-- Before every gap the rule cuts the piece off, and the piece is not blank itself. -/
structure Separate (r : Rule Kind) (piece : List Char) : Prop where
  cut : ∀ rest, Gap rest → Rule.first? rules (piece ++ rest) = some (r, piece, rest)
  visible : ∀ rest, ∀ c ∈ (piece ++ rest).head?, CharSet.blank.contains c = false

variable {r : Rule Kind} {p : Pattern} {piece rest xs : List Char} {c : Char} {set : CharSet}

theorem not_contains_of_gap (misses : set.misses Text.blankRanges) (gap : Gap rest) :
    ∀ c ∈ rest.head?, set.contains c = false := fun c hc =>
  CharSet.not_contains_of_misses misses (gap c hc)

theorem separate_of_takes (i : Nat) {cs : List Char}
    (split : rules = rules.take i ++ r :: rules.drop (i + 1))
    (pattern : r.pattern = .seq .textStart p) (visible : CharSet.blank.contains c = false)
    (takes : ∀ rest, Gap rest → Takes p.run (c :: cs) rest)
    (refused : ∀ rest, Gap rest → ∀ r' ∈ rules.take i, r'.cut? (c :: cs ++ rest) = none) :
    Separate r (c :: cs) where
  cut rest gap := by
    rw [split, Rule.first?_append (refused rest gap)]
    apply Rule.first?_cons_of_cut?
    exact Rule.cut?_of_takes pattern (takes rest gap) (List.cons_ne_nil _ _)
  visible rest d hd := by
    cases hd
    exact visible

theorem separate_of_shuns (i : Nat) {cs : List Char}
    (split : rules = rules.take i ++ r :: rules.drop (i + 1))
    (pattern : r.pattern = .seq .textStart p) (visible : CharSet.blank.contains c = false)
    (takes : ∀ rest, Gap rest → Takes p.run (c :: cs) rest)
    (shuns : (rules.take i).all (·.pattern.shuns c)) : Separate r (c :: cs) :=
  separate_of_takes i split pattern visible takes fun _ _ r' hr' =>
    Rule.cut?_of_shuns (List.all_eq_true.1 shuns r' hr')

theorem spans_anchored (h : (Pattern.seq .textStart p).Spans xs) : p.Spans xs := by
  obtain ⟨ys, zs, rfl, rfl, spans⟩ := h
  exact spans

theorem not_equals_of_gap (gap : Gap rest) : ¬ ['='] <+: rest := by
  rintro ⟨others, rfl⟩
  exact absurd (gap '=' rfl) (by decide)

theorem mem_comparisons (h : comparePattern.Spans xs) : ∃ s ∈ comparisons, xs = s.toList := by
  rcases Pattern.spans_literals ["!=", "<=", ">=", "==", "=", "<"] h with ⟨s, listed, same⟩ | same
  · exact ⟨s, List.mem_append_left [">"] listed, same⟩
  · exact ⟨">", by decide, same⟩

theorem refuses_bang (gap : Gap rest) : Refuses comparePattern.run ('!' :: rest) := by
  have apart := not_equals_of_gap gap
  exact Pattern.refuses_literals ["!=", "<=", ">=", "==", "=", "<"] (by simp) (by simp [apart])

theorem all_shuns {i : Nat} {qs : List (Nat × Nat)}
    (h : (rules.take i).all (·.pattern.shunsAll qs)) (inside : Text.inRanges qs c) :
    (rules.take i).all (·.pattern.shuns c) :=
  List.all_eq_true.2 fun r hr => Pattern.shuns_of_shunsAll (List.all_eq_true.1 h r hr) inside

theorem separate_symbol (i : Nat) {kind : Kind} (c : Char)
    (split : rules = rules.take i ++
      ⟨true, .seq .textStart (.one (.single c)), kind⟩ :: rules.drop (i + 1))
    (visible : CharSet.blank.contains c = false) (shuns : (rules.take i).all (·.pattern.shuns c))
    (spans : (Pattern.seq .textStart (.one (.single c))).Spans piece) :
    Separate ⟨true, .seq .textStart (.one (.single c)), kind⟩ piece := by
  obtain ⟨d, rfl, member⟩ := spans_anchored spans
  obtain rfl := CharSet.contains_single.1 member
  exact separate_of_shuns i split rfl visible (fun rest _ => Pattern.takes_one member) shuns

theorem separate_bang (spans : (Pattern.seq .textStart (.one (.single '!'))).Spans piece) :
    Separate ⟨true, .seq .textStart (.one (.single '!')), .bang⟩ piece := by
  obtain ⟨d, rfl, member⟩ := spans_anchored spans
  obtain rfl := CharSet.contains_single.1 member
  refine separate_of_takes 4 rfl rfl (by decide) (fun rest _ => Pattern.takes_one member)
    fun rest gap r' hr' => ?_
  -- a comparison may begin with the mark, so its rule does not refuse by the first character
  have earlier : rules.take 4 = rules.take 3 ++ [⟨true, .seq .textStart comparePattern, .compare⟩] :=
    rfl
  rw [earlier, List.mem_append, List.mem_singleton] at hr'
  rcases hr' with before | rfl
  · have shuns : (rules.take 3).all (·.pattern.shuns '!') := by decide
    exact Rule.cut?_of_shuns (List.all_eq_true.1 shuns r' before)
  · exact Rule.cut?_of_refuses fun b k => by
      rcases Pattern.run_idle (p := .textStart) rfl ⟨b, '!' :: rest⟩ (comparePattern.run · k) with
        refused | on
      · exact refused
      · exact on.trans (refuses_bang gap b k)

theorem separate_number
    (spans : (Pattern.seq .textStart (.many1 (.range '0' '9'))).Spans piece) :
    Separate ⟨true, .seq .textStart (.many1 (.range '0' '9')), .number⟩ piece := by
  obtain ⟨nonempty, digits⟩ := Pattern.spans_many1 (spans_anchored spans)
  obtain ⟨c, cs, rfl⟩ := List.exists_cons_of_ne_nil nonempty
  have first : Text.inRanges [('0'.toNat, '9'.toNat)] c := digits c List.mem_cons_self
  refine separate_of_shuns 2 rfl rfl (CharSet.not_contains_of_misses (by decide) first)
    (fun rest gap => ?_) (all_shuns (by decide) first)
  exact Pattern.takes_many1 digits nonempty (not_contains_of_gap (by decide) gap)

theorem separate_tag
    (spans : (Pattern.seq .textStart
      (.seq (.one (.single '#')) (.many1 (.complement tagEnd)))).Spans piece) :
    Separate ⟨true, .seq .textStart (.seq (.one (.single '#')) (.many1 (.complement tagEnd))), .tag⟩
      piece := by
  obtain ⟨_, name, rfl, ⟨c, rfl, sign⟩, many⟩ := spans_anchored spans
  obtain rfl := CharSet.contains_single.1 sign
  obtain ⟨nonempty, chars⟩ := Pattern.spans_many1 many
  refine separate_of_shuns 14 rfl rfl (by decide) (fun rest gap => ?_) (by decide)
  refine (Pattern.takes_one sign).seq (Pattern.takes_many1 chars nonempty fun d hd => ?_)
  rw [CharSet.contains, tagEnd, CharSet.contains, gap d hd]
  rfl

def identRanges : List (Nat × Nat) := Text.letterRanges ++ [('_'.toNat, '_'.toNat)]

theorem separate_ident
    (spans : (Pattern.seq .textStart (.seq (.one identStart) (.many identPart))).Spans piece) :
    Separate ⟨true, .seq .textStart (.seq (.one identStart) (.many identPart)), .ident⟩ piece := by
  obtain ⟨_, others, rfl, ⟨c, rfl, start⟩, inner, rfl, -, each⟩ := spans_anchored spans
  have first : Text.inRanges identRanges c := by
    rw [identRanges, Text.inRanges, List.any_append]
    exact start
  refine separate_of_shuns 15 rfl rfl (CharSet.not_contains_of_misses (by decide +kernel) first)
    (fun rest gap => ?_) (all_shuns (by decide +kernel) first)
  refine (Pattern.takes_one start).seq (Pattern.takes_many (Pattern.spans_one_flatten each) ?_)
  exact not_contains_of_gap (by decide +kernel) gap

theorem separate_string (spans : (Pattern.seq .textStart stringPattern).Spans piece) :
    Separate ⟨true, .seq .textStart stringPattern, .string⟩ piece := by
  obtain ⟨cs, rfl, takes⟩ := takes_string (spans_anchored spans)
  exact separate_of_shuns 1 rfl rfl (by decide) (fun rest _ => takes rest)
    (by decide)

theorem separate_compare (spans : (Pattern.seq .textStart comparePattern).Spans piece) :
    Separate ⟨true, .seq .textStart comparePattern, .compare⟩ piece := by
  obtain ⟨s, listed, rfl⟩ := mem_comparisons (spans_anchored spans)
  obtain ⟨c, cs, chars, visible, shuns⟩ := comparison_chars listed
  have takes (rest) (gap : Gap rest) := takes_comparison listed (not_equals_of_gap gap)
  rw [chars] at takes ⊢
  exact separate_of_shuns 3 rfl rfl visible takes shuns

theorem separate_of_spans (mem : r ∈ rules) (kept : r.keep = true) (spans : r.pattern.Spans piece) :
    Separate r piece := by
  simp only [rules, List.mem_cons, List.not_mem_nil, or_false] at mem
  rcases mem with rfl | rfl | rfl | rfl | rfl | rfl | rfl | rfl | rfl | rfl | rfl | rfl | rfl | rfl |
    rfl | rfl
  · cases kept
  · exact separate_string spans
  · exact separate_number spans
  · exact separate_compare spans
  · exact separate_bang spans
  · exact separate_symbol 5 '&' rfl (by decide) (by decide) spans
  · exact separate_symbol 6 '|' rfl (by decide) (by decide) spans
  · exact separate_symbol 7 ';' rfl (by decide) (by decide) spans
  · exact separate_symbol 8 ',' rfl (by decide) (by decide) spans
  · exact separate_symbol 9 '(' rfl (by decide) (by decide) spans
  · exact separate_symbol 10 ')' rfl (by decide) (by decide) spans
  · exact separate_symbol 11 ':' rfl (by decide) (by decide) spans
  · exact separate_symbol 12 '*' rfl (by decide) (by decide) spans
  · exact separate_symbol 13 '+' rfl (by decide) (by decide) spans
  · exact separate_tag spans
  · exact separate_ident spans

/-- The texts one after the other, each with blanks behind it, and without any only at the end. -/
inductive Followed : List String → List Char → Prop where
  | nil : Followed [] []
  | cons {text : String} {others : List String} {gap rest : List Char}
      (blank : ∀ c ∈ gap, Text.isBlank c) (apart : others ≠ [] → gap ≠ [])
      (further : Followed others rest) : Followed (text :: others) (text.toList ++ gap ++ rest)

/-- The texts in order, with any blanks around them and at least one between two. -/
def Spaced (texts : List String) (s : List Char) : Prop :=
  ∃ lead rest, s = lead ++ rest ∧ (∀ c ∈ lead, Text.isBlank c) ∧ Followed texts rest

def isKept (k : Cut Kind) : Bool := k.rule.keep

theorem exists_cuts_blank {gap : List Char} {cuts : List (Cut Kind)}
    (blank : ∀ c ∈ gap, Text.isBlank c)
    (visible : ∀ c ∈ rest.head?, CharSet.blank.contains c = false) (others : Cuts rules rest cuts []) :
    ∃ cuts', Cuts rules (gap ++ rest) cuts' [] ∧
      cuts'.filter isKept = cuts.filter isKept := by
  cases gap with
  | nil => exact ⟨cuts, others, rfl⟩
  | cons c cs =>
    have takes : Takes (Pattern.run (.many1 .blank)) (c :: cs) rest :=
      Pattern.takes_many1 blank (List.cons_ne_nil _ _) visible
    have first : Rule.first? rules (c :: cs ++ rest) =
        some (⟨false, .seq .textStart (.many1 .blank), .whitespace⟩, c :: cs, rest) :=
      Rule.first?_of_takes [] (rules.drop 1) rfl takes (List.forall_mem_nil _)
    exact ⟨_, .more (picks_iff.2 first) others, rfl⟩

/-- Pieces that are cut off before every gap are cut off again, and nothing else is kept. -/
theorem exists_cuts_followed {kept : List (Cut Kind)} {s : List Char}
    (separate : ∀ k ∈ kept, isKept k = true ∧ Separate k.rule k.piece)
    (h : Followed (kept.map fun k => String.ofList k.piece) s) :
    (∀ c ∈ s.head?, CharSet.blank.contains c = false) ∧
      ∃ cuts, Cuts rules s cuts [] ∧ cuts.filter isKept = kept := by
  induction kept generalizing s with
  | nil =>
    cases h
    exact ⟨nofun, [], .stop (Rule.first?_eq_none_iff.1 Rule.first?_nil), rfl⟩
  | cons k others ih =>
    obtain ⟨⟨keep, apart⟩, separate⟩ := List.forall_mem_cons.1 separate
    cases h with
    | @cons _ _ gap rest blank between further =>
      obtain ⟨visible, cuts, cut, same⟩ := ih separate further
      obtain ⟨cuts', cut', same'⟩ := exists_cuts_blank blank visible cut
      -- without a blank behind it, the piece is the last one and the text ends there
      have ahead : Gap (gap ++ rest) := by
        cases gap with
        | cons c cs =>
          rintro _ ⟨⟩
          exact blank c List.mem_cons_self
        | nil =>
          cases others with
          | nil =>
            cases further
            exact nofun
          | cons k' others => exact absurd rfl (between (List.cons_ne_nil _ _))
      rw [String.toList_ofList, List.append_assoc]
      refine ⟨apart.visible _, k :: cuts', .more (picks_iff.2 (apart.cut _ ahead)) cut', ?_⟩
      rw [List.filter_cons_of_pos keep, same', same]

theorem spans_of_mem_cuts {s left : List Char} {cuts : List (Cut Kind)} (h : Cuts rules s cuts left) :
    ∀ k ∈ cuts, k.rule ∈ rules ∧ k.rule.pattern.Spans k.piece := by
  induction h with
  | stop _ => exact List.forall_mem_nil _
  | more first _ ih => exact List.forall_mem_cons.2 ⟨Rule.spans_of_first? (picks_iff.1 first), ih⟩

theorem map_kept (before : List Char) (cuts : List (Cut Kind)) :
    (kept before cuts).map (fun t => (t.kind, t.text)) =
      (cuts.filter isKept).map fun k => (k.rule.kind, String.ofList k.piece) := by
  induction cuts generalizing before with
  | nil => rfl
  | cons k cuts ih =>
    unfold kept
    split
    · rename_i keep
      rw [List.filter_cons_of_pos (p := isKept) keep, List.map_cons, List.map_cons, ih]
      rfl
    · rename_i drop
      rw [List.filter_cons_of_neg (p := isKept) drop, ih]

theorem toList?_of_cuts {text : String} {cuts : List (Cut Kind)}
    (h : Cuts rules text.toList cuts []) : (stream text).toList? = .ok (kept [] cuts) := by
  rw [stream, h.toList?_eq, if_pos rfl]

theorem cuts_of_toList? {text : String} {ts : List (Token Kind)}
    (complete : (stream text).toList? = .ok ts) :
    ∃ cuts, Cuts rules text.toList cuts [] ∧ ts = kept [] cuts := by
  obtain ⟨cuts, left, h⟩ := Rule.exists_cuts rules text.toList
  rw [stream, h.toList?_eq] at complete
  split at complete
  · rename_i whole
    obtain rfl := whole
    exact ⟨cuts, h, (Except.ok.inj complete).symm⟩
  · cases complete

theorem tokens_of_spaced {text text' : String} {ts : List (Token Kind)}
    (complete : (stream text).toList? = .ok ts) (spaced : Spaced (ts.map Token.text) text'.toList) :
    ∃ ts', (stream text').toList? = .ok ts' ∧
      ts'.map (fun t => (t.kind, t.text)) = ts.map fun t => (t.kind, t.text) := by
  obtain ⟨cuts, cut, rfl⟩ := cuts_of_toList? complete
  have looks := map_kept [] cuts
  have texts : (kept [] cuts).map Token.text =
      (cuts.filter isKept).map fun k => String.ofList k.piece := by
    simpa only [List.map_map, Function.comp_def] using congrArg (List.map Prod.snd) looks
  have separate : ∀ k ∈ cuts.filter isKept, isKept k = true ∧ Separate k.rule k.piece := by
    intro k hk
    obtain ⟨mem, keep⟩ := List.mem_filter.1 hk
    obtain ⟨listed, spans⟩ := spans_of_mem_cuts cut k mem
    exact ⟨keep, separate_of_spans listed keep spans⟩
  obtain ⟨lead, rest, split, blank, followed⟩ := spaced
  obtain ⟨visible, cuts', cut', same⟩ := exists_cuts_followed separate (texts ▸ followed)
  obtain ⟨cuts'', cut'', same'⟩ := exists_cuts_blank blank visible cut'
  refine ⟨kept [] cuts'', toList?_of_cuts (split ▸ cut''), ?_⟩
  rw [map_kept, map_kept, same', same]

theorem finished_of_toList? {s : Stream Kind} {ts : List (Token Kind)} (h : s.toList? = .ok ts) :
    s.tokens = ts ∧ ∃ p, s.ending = .finished p := by
  unfold Stream.toList? at h
  split at h
  · rename_i p ends
    exact ⟨Except.ok.inj h, p, ends⟩
  · cases h

/-- Spacing does not matter. A text that is cut into tokens to its end, and a text with the same
texts of tokens and any gaps between them, have tokens of the same kinds and texts, and either give
the same query or are refused for the same reason at the same token. -/
theorem parse_spaced {text text' : String} {ts : List (Token Kind)}
    (complete : (stream text).toList? = .ok ts) (spaced : Spaced (ts.map Token.text) text'.toList) :
    ∃ ts', (stream text').toList? = .ok ts' ∧
      ts'.map (fun t => (t.kind, t.text)) = ts.map (fun t => (t.kind, t.text)) ∧
      Agree ((stream text).SamePlace (stream text')) (parse text) (parse text') := by
  obtain ⟨ts', complete', same⟩ := tokens_of_spaced complete spaced
  obtain ⟨rfl, p, ends⟩ := finished_of_toList? complete
  obtain ⟨rfl, p', ends'⟩ := finished_of_toList? complete'
  have order := Stream.keepsOrder_samePlace (Rule.ordered_stream rules text)
    (Rule.ordered_stream rules text')
  exact ⟨_, complete', same, agree_parse order (Stream.moved_of_same ends ends' same)⟩

/-- A misspelled step is refused at the same token, with the same suggestion. -/
theorem parse_spaced_limt :
    Spaced ["!", "#a", "|", "limt", "(", "2", ")"] " ! #a\n|\tlimt ( 2 ) ".toList ∧
      Agree ((stream "!#a|limt(2)").SamePlace (stream " ! #a\n|\tlimt ( 2 ) "))
        (parse "!#a|limt(2)") (parse " ! #a\n|\tlimt ( 2 ) ") := by
  have complete : (stream "!#a|limt(2)").toList? = .ok (stream "!#a|limt(2)").tokens := by
    decide +kernel
  have texts : (stream "!#a|limt(2)").tokens.map Token.text =
      ["!", "#a", "|", "limt", "(", "2", ")"] := by decide +kernel
  have gap {c : Char} (blank : Text.isBlank c) : ∀ d ∈ [c], Text.isBlank d :=
    List.forall_mem_singleton.2 blank
  have space := gap (show Text.isBlank ' ' by decide)
  have newline := gap (show Text.isBlank '\n' by decide)
  have tab := gap (show Text.isBlank '\t' by decide)
  have followed : Followed ["!", "#a", "|", "limt", "(", "2", ")"]
      "! #a\n|\tlimt ( 2 ) ".toList :=
    .cons space nofun <| .cons newline nofun <| .cons tab nofun <| .cons space nofun <|
      .cons space nofun <| .cons space nofun <| .cons space nofun .nil
  have spaced : Spaced ["!", "#a", "|", "limt", "(", "2", ")"]
      " ! #a\n|\tlimt ( 2 ) ".toList := ⟨[' '], _, rfl, space, followed⟩
  obtain ⟨-, -, -, agree⟩ := parse_spaced complete (texts ▸ spaced)
  exact ⟨spaced, agree⟩

end Wordhoard.Query
