import Wordhoard.Proofs.Pattern.Search
import Wordhoard.Proofs.Pattern.Takes
import Wordhoard.Proofs.Text.Position
import Wordhoard.Proofs.Token.Order

/-! The tokens of a text, said without the scanner. Main statement: steps from token to token pass
the kept pieces that are cut by taking, again and again, the first rule that matches at the start of
what is left, and they end where no rule does. -/
namespace Wordhoard

variable {κ : Type}

namespace Rule

/-- The match that the pattern prefers in the text begins at its very start, and is not empty. -/
def Fits (r : Rule κ) (s piece rest : List Char) : Prop :=
  r.pattern.search? s = some ⟨[], piece, rest⟩ ∧ piece ≠ []

/-- The first rule of the table that fits. -/
def Picks (rules : List (Rule κ)) (s : List Char) (r : Rule κ) (piece rest : List Char) : Prop :=
  ∃ before after, rules = before ++ r :: after ∧ r.Fits s piece rest ∧
    ∀ r' ∈ before, ∀ piece rest, ¬ r'.Fits s piece rest

structure Cut (κ : Type) where
  rule : Rule κ
  piece : List Char

/-- The cuts of a text one after the other, and what no rule fits behind them. -/
inductive Cuts (rules : List (Rule κ)) : List Char → List (Cut κ) → List Char → Prop where
  | stop {s : List Char} (none : ∀ r ∈ rules, ∀ piece rest, ¬ r.Fits s piece rest) :
      Cuts rules s [] s
  | more {s piece rest left : List Char} {r : Rule κ} {cuts : List (Cut κ)}
      (first : Picks rules s r piece rest) (others : Cuts rules rest cuts left) :
      Cuts rules s (⟨r, piece⟩ :: cuts) left

def pieces (cuts : List (Cut κ)) : List Char := cuts.flatMap Cut.piece

def Cut.token (c : Cut κ) (before : List Char) : Token κ :=
  ⟨c.rule.kind, String.ofList c.piece, .around before c.piece, c.rule.keep⟩

def kept (before : List Char) : List (Cut κ) → List (Token κ)
  | [] => []
  | c :: cuts =>
    if c.rule.keep then c.token before :: kept (before ++ c.piece) cuts
    else kept (before ++ c.piece) cuts

/-- The end of the text, or the rest that cannot be cut. -/
def endingAfter (before left : List Char) : Ending :=
  if left = [] then .finished (.around before [])
  else .stuck ⟨.around before [], String.ofList left⟩

/-- What comes behind a token, cut from where the token ends as if nothing had been read. -/
def behind? (rules : List (Rule κ)) (text : String) (t : Token κ) : Option (Stream κ) :=
  (Text.splitBytes? t.endIndex text.toList).map fun (_, rest) =>
    scan rules rest.length ⟨t.endIndex, t.position.rowEnd, t.position.columnEnd⟩ rest

inductive Walk (rules : List (Rule κ)) (text : String) :
    Except TokenizeError (Cursor κ) → List (Token κ) → Ending → Prop where
  | finished (p : Text.Position) : Walk rules text (.ok (.finished p)) [] (.finished p)
  | stuck (e : TokenizeError) : Walk rules text (.error e) [] (.stuck e)
  | token {t : Token κ} {s : Stream κ} {ts : List (Token κ)} {e : Ending}
      (next : behind? rules text t = some s) (others : Walk rules text s.enter ts e) :
      Walk rules text (.ok (.token t s)) (t :: ts) e

variable {rules : List (Rule κ)} {s before piece rest left : List Char} {r : Rule κ}
  {cuts : List (Cut κ)}

theorem fits_iff : r.Fits s piece rest ↔ r.cut? s = some (piece, rest) := by
  unfold Fits cut?
  rw [Pattern.search?_eq_start_iff]
  constructor
  · rintro ⟨found, nonempty⟩
    rw [found]
    cases piece with
    | nil => exact absurd rfl nonempty
    | cons c others => rfl
  · intro h
    split at h
    · cases h
    · rename_i nonempty
      refine ⟨h, ?_⟩
      rintro rfl
      exact nonempty _ h

theorem picks_iff : Picks rules s r piece rest ↔ first? rules s = some (r, piece, rest) := by
  unfold Picks first?
  rw [List.findSome?_eq_some_iff]
  constructor
  · rintro ⟨before, after, split, fits, none⟩
    refine ⟨before, r, after, split, by rw [fits_iff.1 fits]; rfl, fun r' hr' => ?_⟩
    cases found : r'.cut? s with
    | none => rfl
    | some p => exact absurd (fits_iff.2 found) (none r' hr' _ _)
  · rintro ⟨before, r', after, split, found, none⟩
    obtain ⟨⟨piece, rest⟩, cut, same⟩ := Option.map_eq_some_iff.1 found
    cases same
    refine ⟨before, after, split, fits_iff.2 cut, fun r' hr' piece rest fits => ?_⟩
    have refused := none r' hr'
    rw [fits_iff.1 fits] at refused
    cases refused

theorem first?_eq_none_iff :
    first? rules s = none ↔ ∀ r ∈ rules, ∀ piece rest, ¬ r.Fits s piece rest := by
  simp only [first?, List.findSome?_eq_none_iff, Option.map_eq_none_iff, fits_iff]
  refine forall₂_congr fun r _ => ⟨fun none piece rest found => ?_, fun none => ?_⟩
  · rw [none] at found
    cases found
  · exact Option.eq_none_iff_forall_ne_some.2 fun p => none p.1 p.2

theorem append_of_first? (h : first? rules s = some (r, piece, rest)) : s = piece ++ rest := by
  obtain ⟨-, -, -, ⟨found, -⟩, -⟩ := picks_iff.2 h
  exact Pattern.append_of_cut? (Pattern.search?_eq_start_iff.1 found)

theorem length_rest_lt (h : first? rules s = some (r, piece, rest)) : rest.length < s.length := by
  have length := List.length_pos_iff.2 (ne_nil_of_first? h)
  rw [append_of_first? h, List.length_append]
  omega

theorem first?_nil : first? rules [] = none := by
  cases h : first? rules [] with
  | none => rfl
  | some found =>
    obtain ⟨r, piece, rest⟩ := found
    exact absurd (length_rest_lt h) (Nat.not_lt_zero _)

theorem exists_cuts (rules : List (Rule κ)) (s : List Char) : ∃ cuts left, Cuts rules s cuts left := by
  cases h : first? rules s with
  | none => exact ⟨[], s, .stop (first?_eq_none_iff.1 h)⟩
  | some found =>
    obtain ⟨r, piece, rest⟩ := found
    have := length_rest_lt h
    obtain ⟨cuts, left, others⟩ := exists_cuts rules rest
    exact ⟨⟨r, piece⟩ :: cuts, left, .more (picks_iff.2 h) others⟩
termination_by s.length

theorem Cuts.unique {cuts' : List (Cut κ)} {left' : List Char} (h : Cuts rules s cuts left)
    (h' : Cuts rules s cuts' left') : cuts' = cuts ∧ left' = left := by
  induction h generalizing cuts' left' with
  | stop none =>
    cases h' with
    | stop _ => exact ⟨rfl, rfl⟩
    | more first _ =>
      have found := picks_iff.1 first
      rw [first?_eq_none_iff.2 none] at found
      cases found
  | more first _ ih =>
    have found := picks_iff.1 first
    cases h' with
    | stop none =>
      rw [first?_eq_none_iff.2 none] at found
      cases found
    | more first' others' =>
      rw [picks_iff.1 first'] at found
      cases found
      obtain ⟨rfl, rfl⟩ := ih others'
      exact ⟨rfl, rfl⟩

theorem Cuts.append (h : Cuts rules s cuts left) : pieces cuts ++ left = s := by
  induction h with
  | stop _ => rfl
  | more first _ ih =>
    rw [append_of_first? (picks_iff.1 first), ← ih]
    exact List.append_assoc _ _ _

theorem Cuts.nonempty (h : Cuts rules s cuts left) : ∀ c ∈ cuts, c.piece ≠ [] := by
  induction h with
  | stop _ => exact List.forall_mem_nil _
  | more first _ ih => exact List.forall_mem_cons.2 ⟨ne_nil_of_first? (picks_iff.1 first), ih⟩

theorem token_eq (r : Rule κ) (before piece : List Char) :
    r.token (.after before) piece = Cut.token ⟨r, piece⟩ before := by
  rw [token, Text.Mark.advance_after]
  rfl

/-- The scanner finds the cuts, whatever number of rounds it is given beyond the text's length. -/
theorem Cuts.scan (h : Cuts rules s cuts left) {n : Nat} (enough : s.length ≤ n) :
    Rule.scan rules n (.after before) s =
      ⟨kept before cuts, endingAfter (before ++ pieces cuts) left⟩ := by
  induction h generalizing before n with
  | @stop s none =>
    have refused := first?_eq_none_iff.2 none
    have ends : before ++ pieces ([] : List (Cut κ)) = before := List.append_nil _
    rw [ends, endingAfter, ← Text.Mark.position_after]
    cases s with
    | nil =>
      rw [if_pos rfl, Rule.scan]
      rfl
    | cons c others =>
      rw [if_neg (List.cons_ne_nil _ _)]
      cases n with
      | zero =>
        simp only [Rule.scan]
        rfl
      | succ n =>
        simp only [Rule.scan, refused]
        rfl
  | @more s piece rest left r cuts first others ih =>
    have found := picks_iff.1 first
    have shorter := length_rest_lt found
    obtain ⟨n, rfl⟩ := Nat.exists_eq_add_one.2 (show 0 < n by omega)
    have further : Rule.scan rules n (.after (before ++ piece)) rest =
        ⟨kept (before ++ piece) cuts, endingAfter (before ++ piece ++ pieces cuts) left⟩ :=
      ih (by omega)
    have nonempty : s ≠ [] := by
      rintro rfl
      cases first?_nil.symm.trans found
    have passed : before ++ pieces (⟨r, piece⟩ :: cuts) = before ++ piece ++ pieces cuts :=
      (List.append_assoc _ _ _).symm
    rw [scan_of_first? found nonempty, Text.Mark.advance_after, further, passed, kept, token_eq]
    split <;> rfl

theorem Cuts.exists_of_mem_kept {t : Token κ} (h : Cuts rules s cuts left)
    (mem : t ∈ kept before cuts) :
    ∃ passed r piece after, s = passed ++ (piece ++ after) ∧
      first? rules (piece ++ after) = some (r, piece, after) ∧ r.keep = true ∧
      t = Cut.token ⟨r, piece⟩ (before ++ passed) := by
  induction h generalizing before with
  | stop _ => cases mem
  | @more s piece rest left r cuts first others ih =>
    have found := picks_iff.1 first
    obtain rfl := append_of_first? found
    have later (mem : t ∈ kept (before ++ piece) cuts) :
        ∃ passed r' piece' after, piece ++ rest = passed ++ (piece' ++ after) ∧
          first? rules (piece' ++ after) = some (r', piece', after) ∧ r'.keep = true ∧
          t = Cut.token ⟨r', piece'⟩ (before ++ passed) := by
      obtain ⟨passed, r', piece', after, split, found', keep, same⟩ := ih mem
      refine ⟨piece ++ passed, r', piece', after, ?_, found', keep, ?_⟩
      · rw [split, List.append_assoc]
      · rw [same, List.append_assoc]
    rw [kept] at mem
    split at mem
    · rename_i keep
      rcases List.mem_cons.1 mem with here | mem
      · exact ⟨[], r, piece, rest, rfl, found, keep, by rw [List.append_nil]; exact here⟩
      · exact later mem
    · exact later mem

theorem Cuts.stream_eq {text : String} (h : Cuts rules text.toList cuts left) :
    stream rules text = ⟨kept [] cuts, endingAfter (pieces cuts) left⟩ := by
  rw [stream, show Text.Mark.start = .after [] from rfl,
    h.scan (Nat.le_of_eq String.length_toList), List.nil_append]

theorem Cuts.toList?_eq {text : String} (h : Cuts rules text.toList cuts left) :
    (stream rules text).toList? =
      if left = [] then .ok (kept [] cuts)
      else .error ⟨.around (pieces cuts) [], String.ofList left⟩ := by
  rw [h.stream_eq, endingAfter]
  split <;> rfl

theorem exists_of_mem_stream {text : String} {t : Token κ} (mem : t ∈ (stream rules text).tokens) :
    ∃ before r piece after, text.toList = before ++ (piece ++ after) ∧
      first? rules (piece ++ after) = some (r, piece, after) ∧ r.keep = true ∧
      t = Cut.token ⟨r, piece⟩ before := by
  obtain ⟨cuts, left, h⟩ := exists_cuts rules text.toList
  rw [h.stream_eq] at mem
  exact h.exists_of_mem_kept mem

theorem exists_of_ending (rules : List (Rule κ)) (text : String) :
    ∃ before after, text.toList = before ++ after ∧
      (stream rules text).ending.position = .around before [] := by
  obtain ⟨cuts, left, h⟩ := exists_cuts rules text.toList
  refine ⟨pieces cuts, left, h.append.symm, ?_⟩
  rw [h.stream_eq, endingAfter]
  split <;> rfl

theorem endIndex_token (c : Cut κ) (before : List Char) :
    (c.token before).endIndex = Text.byteLength (before ++ c.piece) := by
  rw [Token.endIndex, Cut.token, String.toList_ofList, Text.byteLength_append]
  rfl

theorem behind?_token {text : String} {c : Cut κ} (split : text.toList = before ++ c.piece ++ rest) :
    behind? rules text (c.token before) =
      some (Rule.scan rules rest.length (.after (before ++ c.piece)) rest) := by
  rw [behind?, endIndex_token, split, Text.splitBytes?_append]
  rfl

theorem Cuts.walk {text : String} (h : Cuts rules s cuts left) (split : text.toList = before ++ s) :
    Walk rules text (Rule.scan rules s.length (.after before) s).enter (kept before cuts)
      (endingAfter (before ++ pieces cuts) left) := by
  rw [h.scan (Nat.le_refl _)]
  induction h generalizing before with
  | stop none =>
    unfold kept endingAfter
    split
    · exact .finished _
    · exact .stuck _
  | @more s piece rest left r cuts first others ih =>
    have parts : s = piece ++ rest := append_of_first? (picks_iff.1 first)
    have passed : before ++ pieces (⟨r, piece⟩ :: cuts) = before ++ piece ++ pieces cuts :=
      (List.append_assoc _ _ _).symm
    rw [parts, ← List.append_assoc] at split
    have further := ih split
    rw [passed, kept]
    split
    · refine .token ?_ further
      rw [behind?_token split, others.scan (Nat.le_refl _)]
    · exact further

/-- For every table and text there is just one way to cut; the steps from token to token pass the
kept pieces of it and end with it, and so does the list of all tokens. A pattern counts by the match
that it prefers: one found further on, or an empty one, leaves the place to later rules. -/
theorem walk_eq_cuts (rules : List (Rule κ)) (text : String) :
    ∃ cuts left,
      Cuts rules text.toList cuts left ∧
      (∀ cuts' left', Cuts rules text.toList cuts' left' → cuts' = cuts ∧ left' = left) ∧
      (∀ c ∈ cuts, c.piece ≠ []) ∧ pieces cuts ++ left = text.toList ∧
      Walk rules text (stream rules text).enter (kept [] cuts) (endingAfter (pieces cuts) left) ∧
      (stream rules text).toList? =
        if left = [] then .ok (kept [] cuts)
        else .error ⟨.around (pieces cuts) [], String.ofList left⟩ := by
  obtain ⟨cuts, left, h⟩ := exists_cuts rules text.toList
  have start : Text.Mark.start = .after [] := rfl
  have length : text.length = text.toList.length := String.length_toList.symm
  refine ⟨cuts, left, h, fun _ _ => h.unique, h.nonempty, h.append, ?_, ?_⟩
  · rw [stream, start, length]
    exact h.walk rfl
  · exact h.toList?_eq

end Rule

end Wordhoard
