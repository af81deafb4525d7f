import Wordhoard.Proofs.Grammar.Steps
import Wordhoard.Proofs.Markup.Pairing
import Wordhoard.Proofs.Token.Scan

/-! Texts that are no markup. Main statement: reading them fails at the first parenthesis that does not
fit what stands before it, or at the end if one is left open. -/
namespace Wordhoard.Markup

open Grammar (Lacks Mismatch Watched watch watchEnd watchMany)

def Open (s : List Char) : Prop := ∃ a b, s = a ++ '(' :: b ∧ ')' ∉ b

/-- A parenthesis that cannot come next: one that closes where none is open, or opens where one is. -/
def Misfits (before : List Char) (c : Char) : Prop :=
  c = ')' ∧ ¬ Open before ∨ c = '(' ∧ Open before

def Fitting (s : List Char) : Prop := ∀ a c b, s = a ++ c :: b → ¬ Misfits a c

/-- Read from the left, a text goes wrong for the first time between its two parts: at a parenthesis
that does not fit, or at the end where one is left open. -/
structure Offends (before rest : List Char) : Prop where
  fitting : Fitting before
  misfit : ∀ c ∈ rest.head?, Misfits before c
  unclosed : rest = [] → Open before

variable {s t before rest : List Char} {c : Char}

/-- A text goes wrong for the first time at most once. -/
theorem Offends.unique {before' rest' : List Char} (h : Offends before rest)
    (h' : Offends before' rest') (same : before ++ rest = before' ++ rest') :
    before = before' ∧ rest = rest' := by
  rcases List.append_eq_append_iff.1 same with ⟨m, rfl, rfl⟩ | ⟨m, rfl, rfl⟩
  · cases m with
    | nil => simp
    | cons c m => exact absurd (h.misfit c rfl) (h'.fitting before c m rfl)
  · cases m with
    | nil => simp
    | cons c m => exact absurd (h'.misfit c rfl) (h.fitting before' c m rfl)

theorem Offends.not_paired (h : Offends before rest) : ¬ Paired (before ++ rest) := by
  intro paired
  cases rest with
  | nil =>
    obtain ⟨a, b, rfl, unclosed⟩ := h.unclosed rfl
    obtain ⟨c, d, rfl, -⟩ := paired.closed a b (List.append_nil _)
    exact unclosed (by simp)
  | cons c rest =>
    rcases h.misfit c rfl with ⟨rfl, closed⟩ | ⟨rfl, a, b, rfl, unclosed⟩
    · obtain ⟨x, y, rfl, bare⟩ := paired.opened before rest rfl
      exact closed ⟨x, y, rfl, fun mem => (bare _ mem).2 rfl⟩
    · obtain ⟨x, y, split, bare⟩ := paired.closed a (b ++ '(' :: rest) (by simp)
      rcases split_append split with ⟨m, rfl, -⟩ | ⟨m, rfl, inside⟩
      · exact unclosed (by simp)
      · cases m with
        | nil => cases inside
        | cons d m =>
          obtain ⟨rfl, -⟩ := List.cons.inj inside
          exact not_bare_of_open bare

theorem exists_error_of_offends {text : String} (h : Offends before rest)
    (whole : text.toList = before ++ rest) : ∃ e, parse text = .error e := by
  cases read : parse text with
  | error e => exact ⟨e, rfl⟩
  | ok content =>
    obtain ⟨same, bare⟩ := written_of_parse read
    have paired := paired_written bare
    rw [same, whole] at paired
    exact absurd paired h.not_paired

theorem not_open_nil : ¬ Open [] := by
  rintro ⟨a, b, split, -⟩
  cases a <;> cases split

theorem open_opened : Open (s ++ ['(']) := ⟨s, [], rfl, List.not_mem_nil⟩

theorem not_open_closed : ¬ Open (s ++ [')']) := by
  rintro ⟨a, b, split, unclosed⟩
  rcases split_append split with ⟨m, -, rfl⟩ | ⟨m, -, inside⟩
  · exact unclosed (by simp)
  · cases m with
    | nil => cases inside
    | cons d m => exact absurd (List.cons.inj inside).2.symm (by simp)

theorem open_append_iff (bare : Bare t) : Open (s ++ t) ↔ Open s := by
  constructor
  · rintro ⟨a, b, split, unclosed⟩
    rcases split_append split with ⟨m, rfl, rfl⟩ | ⟨m, -, rfl⟩
    · exact ⟨a, m, rfl, fun mem => unclosed (List.mem_append_left _ mem)⟩
    · exact absurd bare not_bare_of_open
  · rintro ⟨a, b, rfl, unclosed⟩
    refine ⟨a, b ++ t, by simp, fun mem => ?_⟩
    rcases List.mem_append.1 mem with inside | behind
    · exact unclosed inside
    · exact (bare ')' behind).2 rfl

theorem fitting_nil : Fitting [] := by
  intro a c b split
  cases a <;> cases split

theorem Fitting.append_bare (h : Fitting s) (bare : Bare t) : Fitting (s ++ t) := by
  intro a c b split misfits
  rcases split_append split with ⟨m, inside, -⟩ | ⟨m, -, rfl⟩
  · exact h a c m inside misfits
  · have outside := bare c (List.mem_append_right m List.mem_cons_self)
    rcases misfits with ⟨closes, -⟩ | ⟨opens, -⟩
    · exact outside.2 closes
    · exact outside.1 opens

theorem Fitting.concat (h : Fitting s) (fits : ¬ Misfits s c) : Fitting (s ++ [c]) := by
  intro a d b split
  rcases split_append split with ⟨m, inside, -⟩ | ⟨m, rfl, last⟩
  · exact h a d m inside
  · cases m with
    | nil =>
      obtain ⟨rfl, -⟩ := List.cons.inj last
      rwa [List.append_nil]
    | cons e m => exact absurd (List.cons.inj last).2.symm (by simp)

theorem Fitting.opened (h : Fitting s) (closed : ¬ Open s) : Fitting (s ++ ['(']) := by
  apply h.concat
  rintro (⟨closes, -⟩ | ⟨-, opened⟩)
  · cases closes
  · exact closed opened

theorem Fitting.closed (h : Fitting s) (opened : Open s) : Fitting (s ++ [')']) := by
  apply h.concat
  rintro (⟨-, closed⟩ | ⟨opens, -⟩)
  · exact closed opened
  · cases opens

section Pieces

variable {call : (n : Empty) → Cursor Kind → Watched Kind Unit} {p : Text.Position}
  {o t u : Token Kind} {ts : List (Token Kind)} {ms : List (Mismatch Kind)}

def onePiece : Reader Piece := .either optionalPiece plainPiece

theorem lacks_cons {kind : Kind} (h : t.kind ≠ kind) : Lacks kind (t :: ts) := by
  rintro _ ⟨⟩
  exact h

theorem watch_optional_lacking (h : Lacks .openParen ts) :
    watch call optionalPiece (.ofTokens p ts) = ⟨.refused, [⟨.ofTokens p ts, "'('"⟩]⟩ :=
  Grammar.watch_map_refused _ (Grammar.watch_seq_refused (Grammar.watch_seq_refused
    (Grammar.watch_token_lacking h)))

theorem watch_plain (h : u.kind = .text) : watch call onePiece (.ofTokens p (u :: ts)) =
    ⟨.accepted (.plain u.text) (.ofTokens p ts), [⟨.ofTokens p (u :: ts), "'('"⟩]⟩ := by
  have other : Lacks .openParen (u :: ts) := lacks_cons (by simp [h])
  rw [onePiece, Grammar.watch_right (watch_optional_lacking other), plainPiece,
    Grammar.watch_map _ (Grammar.watch_token h)]
  rfl

theorem watch_refused (stops : watch call optionalPiece (.ofTokens p ts) = ⟨.refused, ms⟩)
    (other : Lacks .text ts) : watch call onePiece (.ofTokens p ts) =
      ⟨.refused, ms ++ [⟨.ofTokens p ts, "text"⟩]⟩ := by
  rw [onePiece, Grammar.watch_right stops, plainPiece,
    Grammar.watch_map_refused _ (Grammar.watch_token_lacking other)]
  rfl

theorem watch_closed (h : u.kind = .closeParen) : watch call onePiece (.ofTokens p (u :: ts)) =
    ⟨.refused, [⟨.ofTokens p (u :: ts), "'('"⟩, ⟨.ofTokens p (u :: ts), "text"⟩]⟩ := by
  have other : Lacks .openParen (u :: ts) := lacks_cons (by simp [h])
  exact watch_refused (watch_optional_lacking other) (lacks_cons (by simp [h]))

theorem watch_empty (opens : o.kind = .openParen) (closes : u.kind = .closeParen) :
    watch call onePiece (.ofTokens p (o :: u :: ts)) =
      ⟨.accepted (.optional "") (.ofTokens p ts), [⟨.ofTokens p (u :: ts), "text"⟩]⟩ := by
  have unknown : Lacks .text (u :: ts) := lacks_cons (by simp [closes])
  exact Grammar.watch_left (Grammar.watch_map _ (Grammar.watch_seq
    (Grammar.watch_seq (Grammar.watch_token opens) (Grammar.watch_opt_lacking unknown))
    (Grammar.watch_token closes)))

theorem watch_enclosed (opens : o.kind = .openParen) (inner : t.kind = .text)
    (closes : u.kind = .closeParen) : watch call onePiece (.ofTokens p (o :: t :: u :: ts)) =
      ⟨.accepted (.optional t.text) (.ofTokens p ts), []⟩ :=
  Grammar.watch_left (Grammar.watch_map _ (Grammar.watch_seq
    (Grammar.watch_seq (Grammar.watch_token opens) (Grammar.watch_opt inner))
    (Grammar.watch_token closes)))

theorem watch_unclosed (opens : o.kind = .openParen) (bare : Lacks .text ts)
    (unclosed : Lacks .closeParen ts) : watch call onePiece (.ofTokens p (o :: ts)) =
      ⟨.refused, [⟨.ofTokens p ts, "text"⟩, ⟨.ofTokens p ts, "')'"⟩, ⟨.ofTokens p (o :: ts), "text"⟩]⟩ := by
  have stops : watch call optionalPiece (.ofTokens p (o :: ts)) =
      ⟨.refused, [⟨.ofTokens p ts, "text"⟩, ⟨.ofTokens p ts, "')'"⟩]⟩ :=
    Grammar.watch_map_refused _ (Grammar.watch_seq_stopped
      (Grammar.watch_seq (Grammar.watch_token opens) (Grammar.watch_opt_lacking bare))
      (Grammar.watch_token_lacking unclosed))
  exact watch_refused stops (lacks_cons (by simp [opens]))

theorem watch_unclosed_text (opens : o.kind = .openParen) (inner : t.kind = .text)
    (unclosed : Lacks .closeParen ts) : watch call onePiece (.ofTokens p (o :: t :: ts)) =
      ⟨.refused, [⟨.ofTokens p ts, "')'"⟩, ⟨.ofTokens p (o :: t :: ts), "text"⟩]⟩ := by
  have stops : watch call optionalPiece (.ofTokens p (o :: t :: ts)) =
      ⟨.refused, [⟨.ofTokens p ts, "')'"⟩]⟩ :=
    Grammar.watch_map_refused _ (Grammar.watch_seq_stopped
      (Grammar.watch_seq (Grammar.watch_token opens) (Grammar.watch_opt inner))
      (Grammar.watch_token_lacking unclosed))
  exact watch_refused stops (lacks_cons (by simp [opens]))

end Pieces

inductive Behind : List Char → List Char → List (Token Kind) → Prop where
  | nil {before : List Char} : Behind before [] []
  | opening {before s : List Char} {ts : List (Token Kind)} (others : Behind (before ++ ['(']) s ts) :
      Behind before ('(' :: s) (Rule.Cut.token ⟨openRule, ['(']⟩ before :: ts)
  | closing {before s : List Char} {ts : List (Token Kind)} (others : Behind (before ++ [')']) s ts) :
      Behind before (')' :: s) (Rule.Cut.token ⟨closeRule, [')']⟩ before :: ts)
  | text {before t s : List Char} {ts : List (Token Kind)} (nonempty : t ≠ []) (bare : Bare t)
      (ends : ∀ c ∈ s.head?, c = '(' ∨ c = ')') (others : Behind (before ++ t) s ts) :
      Behind before (t ++ s) (Rule.Cut.token ⟨textRule, t⟩ before :: ts)

theorem behind_of_cuts {cuts : List (Rule.Cut Kind)} {left : List Char}
    (h : Rule.Cuts rules s cuts left) (before : List Char) :
    left = [] ∧ Behind before s (Rule.kept before cuts) := by
  induction h generalizing before with
  | @stop s none =>
    have uncut := Rule.first?_eq_none_iff.2 none
    obtain ⟨t, rest, rfl, bare, ends⟩ := exists_bare_prefix s
    by_cases empty : t = []
    · subst empty
      cases rest with
      | nil => exact ⟨rfl, .nil⟩
      | cons c rest =>
        rcases ends c rfl with rfl | rfl
        · cases (cut_open rest).symm.trans uncut
        · cases (cut_close rest).symm.trans uncut
    · cases (cut_text empty bare ends).symm.trans uncut
  | @more s piece rest left r cuts first others ih =>
    have cut := Rule.picks_iff.1 first
    obtain ⟨t, behind, rfl, bare, ends⟩ := exists_bare_prefix s
    by_cases empty : t = []
    · subst empty
      cases behind with
      | nil => cases Rule.first?_nil.symm.trans cut
      | cons c behind =>
        rcases ends c rfl with rfl | rfl
        · cases (cut_open behind).symm.trans cut
          exact ⟨(ih []).1, .opening (ih _).2⟩
        · cases (cut_close behind).symm.trans cut
          exact ⟨(ih []).1, .closing (ih _).2⟩
    · cases (cut_text empty bare ends).symm.trans cut
      exact ⟨(ih []).1, .text empty bare ends (ih _).2⟩

theorem exists_behind (text : String) : ∃ ts, Behind [] text.toList ts ∧
    Rule.stream rules text = ⟨ts, .finished (.around text.toList [])⟩ := by
  obtain ⟨cuts, left, cut⟩ := Rule.exists_cuts rules text.toList
  obtain ⟨rfl, behind⟩ := behind_of_cuts cut []
  have whole := cut.append
  rw [List.append_nil] at whole
  have scanned : Rule.scan rules text.length (.after []) text.toList = _ :=
    cut.scan (Nat.le_of_eq String.length_toList)
  rw [List.nil_append, whole] at scanned
  exact ⟨_, behind, scanned⟩

section Places

variable {text : List Char} {ts : List (Token Kind)}

theorem Behind.index (h : Behind before s ts) (whole : text = before ++ s) :
    (Cursor.ofTokens (.around text []) ts).index = Text.byteLength before := by
  cases h with
  | nil => rw [whole, List.append_nil]; rfl
  | opening _ => rfl
  | closing _ => rfl
  | text _ _ _ _ => rfl

theorem head_of_bare (nonempty : t ≠ []) (bare : Bare t) :
    ¬ ∀ c ∈ (t ++ s).head?, c = '(' ∨ c = ')' := by
  obtain ⟨c, others, rfl⟩ := List.exists_cons_of_ne_nil nonempty
  have outside := bare c List.mem_cons_self
  intro ends
  exact (ends c rfl).elim outside.1 outside.2

theorem Behind.place (h : Behind before s ts) (whole : text = before ++ s)
    (ends : ∀ c ∈ s.head?, c = '(' ∨ c = ')') :
    (Cursor.ofTokens (.around text []) ts).position = .around before (s.take 1) ∧
      (Cursor.ofTokens (.around text []) ts).found = s.head?.map String.singleton := by
  cases h with
  | nil => rw [whole, List.append_nil]; exact ⟨rfl, rfl⟩
  | opening _ => exact ⟨rfl, rfl⟩
  | closing _ => exact ⟨rfl, rfl⟩
  | text nonempty bare _ _ => exact absurd ends (head_of_bare nonempty bare)

theorem Behind.lacks_text (h : Behind before s ts) (ends : ∀ c ∈ s.head?, c = '(' ∨ c = ')') :
    Lacks .text ts := by
  cases h with
  | nil => exact nofun
  | opening _ => exact lacks_cons nofun
  | closing _ => exact lacks_cons nofun
  | text nonempty bare _ _ => exact absurd ends (head_of_bare nonempty bare)

theorem Behind.lacks_close (h : Behind before s ts) (unclosed : ∀ c ∈ s.head?, c ≠ ')') :
    Lacks .closeParen ts := by
  cases h with
  | nil => exact nofun
  | opening _ => exact lacks_cons nofun
  | closing _ => exact absurd rfl (unclosed ')' rfl)
  | text _ _ _ _ => exact lacks_cons nofun

end Places

/-- No mismatch lies behind the place, some lie at it, and of these one asks for a closing parenthesis
just when one is open. -/
structure Blames (ms : List (Mismatch Kind)) (place : Cursor Kind) (opened : Prop) : Prop where
  furthest : ∀ m ∈ ms, m.place = place ∨ m.place.index < place.index
  here : ∃ m ∈ ms, m.place = place
  closing : ⟨place, "')'"⟩ ∈ ms ↔ opened

theorem Blames.mono {ms ns : List (Mismatch Kind)} {place : Cursor Kind} {opened : Prop}
    (h : Blames ms place opened) (more : ∀ m ∈ ms, m ∈ ns)
    (earlier : ∀ m ∈ ns, m ∈ ms ∨ m.place.index < place.index) : Blames ns place opened where
  furthest m mem := (earlier m mem).elim (h.furthest m) .inr
  here := by
    obtain ⟨m, mem, same⟩ := h.here
    exact ⟨m, more m mem, same⟩
  closing := by
    rw [← h.closing]
    exact ⟨fun mem => (earlier _ mem).resolve_right (Nat.lt_irrefl _), more _⟩

/-- A refusal that sums up the mismatches tells of those at the place. -/
theorem Blames.of_sumsUp {ms : List (Mismatch Kind)} {place : Cursor Kind} {opened : Prop}
    {e : Expectation} (h : Blames ms place opened) (sums : e.SumsUp ms) :
    e.position = place.position ∧ e.found = place.found ∧ ("')'" ∈ e.expected ↔ opened) := by
  obtain ⟨m, mem, position, found⟩ := sums.place
  obtain ⟨m', mem', same'⟩ := h.here
  have far : place.index ≤ m.place.index := by
    have := sums.furthest m' mem'
    rwa [same', position] at this
  have same : m.place = place := (h.furthest m mem).resolve_right (Nat.not_lt.2 far)
  rw [same] at position found
  refine ⟨position, found, ?_⟩
  rw [sums.expected, ← h.closing, position]
  constructor
  · rintro ⟨n, mem, level, asked⟩
    have here : n.place = place :=
      (h.furthest n mem).resolve_right (Nat.not_lt.2 (Nat.le_of_eq level.symm))
    rwa [← here, ← asked]
  · intro mem
    exact ⟨_, mem, rfl, rfl⟩

def BlamesOffence (text before : List Char) (w : Watched Kind (List Piece)) : Prop :=
  (∃ content rest, w.verdict = .accepted content rest) ∨ w.verdict = .refused ∧
    ∃ b rest ts, text = b ++ rest ∧ Text.byteLength before ≤ Text.byteLength b ∧
      Offends b rest ∧ Behind b rest ts ∧
      Blames w.mismatches (.ofTokens (.around text []) ts) (Open b)

section Reading

variable {call : (n : Empty) → Cursor Kind → Watched Kind Unit} {p : Text.Position} {n : Nat}
  {values : List Piece} {piece : Piece} {u : Token Kind} {ts us : List (Token Kind)}
  {ms : List (Mismatch Kind)} {text : List Char}

def reading (call : (n : Empty) → Cursor Kind → Watched Kind Unit) (n : Nat) (values : List Piece)
    (c : Cursor Kind) : Watched Kind (List Piece) :=
  watchEnd (watchMany (watch call onePiece) 0 none n values c)

theorem reading_accepted (n : Nat) (values : List Piece)
    (round : watch call onePiece (.ofTokens p ts) = ⟨.accepted piece (.ofTokens p us), ms⟩)
    (fewer : us.length < ts.length) : reading call (n + 1) values (.ofTokens p ts) =
      (reading call n (values ++ [piece]) (.ofTokens p us)).after ms := by
  have moves : (Cursor.ofTokens p us).remaining < (Cursor.ofTokens p ts).remaining := by simpa
  rw [reading, Grammar.watchMany_accepted round moves rfl, Grammar.watchEnd_after, reading]

theorem reading_refused (n : Nat) (values : List Piece)
    (round : watch call onePiece (.ofTokens p (u :: us)) = ⟨.refused, ms⟩) :
    reading call n values (.ofTokens p (u :: us)) =
      ⟨.refused, ms ++ [⟨.ofTokens p (u :: us), "end of input"⟩]⟩ := by
  rw [reading, Grammar.watchMany_refused round (Nat.zero_le _) rfl]
  rfl

theorem reading_end (n : Nat) (values : List Piece) :
    (reading call n values (.ofTokens p [])).verdict = .accepted values (.ofTokens p []) := by
  have round : watch call onePiece (.ofTokens p []) = ⟨.refused, _⟩ := rfl
  rw [reading, Grammar.watchMany_refused round (Nat.zero_le _) rfl]
  rfl

theorem BlamesOffence.after (before' : List Char) {w : Watched Kind (List Piece)}
    (h : BlamesOffence text before' w)
    (further : Text.byteLength before ≤ Text.byteLength before')
    (earlier : ∀ m ∈ ms, m.place.index < Text.byteLength before') :
    BlamesOffence text before (w.after ms) := by
  refine h.imp_right fun ⟨refused, b, rest, ts, whole, behind, offends, tokens, blames⟩ => ?_
  refine ⟨refused, b, rest, ts, whole, Nat.le_trans further behind, offends, tokens, blames.mono ?_ ?_⟩
  · exact fun m mem => List.mem_append_right ms mem
  · intro m mem
    rw [tokens.index whole]
    exact (List.mem_append.1 mem).symm.imp_right fun old => Nat.lt_of_lt_of_le (earlier m old) behind

theorem bytes_lt (before : List Char) (nonempty : t ≠ []) :
    Text.byteLength before < Text.byteLength (before ++ t) := by
  obtain ⟨c, others, rfl⟩ := List.exists_cons_of_ne_nil nonempty
  have := c.utf8Size_pos
  rw [Text.byteLength_append, Text.byteLength_cons]
  omega

theorem Offends.of_opened (fitting : Fitting before) (closed : ¬ Open before) (bare : Bare t)
    (ends : ∀ c ∈ rest.head?, c = '(') :
    Offends (before ++ ['('] ++ t) rest ∧ Open (before ++ ['('] ++ t) := by
  have opened : Open (before ++ ['('] ++ t) := (open_append_iff bare).2 open_opened
  refine ⟨⟨(fitting.opened closed).append_bare bare, fun c mem => ?_, fun _ => opened⟩, opened⟩
  exact .inr ⟨ends c mem, opened⟩

theorem blames_opened {before' : List Char} (n : Nat) (values : List Piece)
    (whole : text = before' ++ rest) (fitting : Fitting before) (closed : ¬ Open before)
    (parts : before' = before ++ ['('] ++ t) (bare : Bare t) (ends : ∀ c ∈ rest.head?, c = '(')
    (start : (Cursor.ofTokens (.around text []) (u :: us)).index = Text.byteLength before)
    (tokens : Behind before' rest ts)
    (round : watch call onePiece (.ofTokens (.around text []) (u :: us)) = ⟨.refused, ms⟩)
    (blames : Blames ms (.ofTokens (.around text []) ts) True) :
    BlamesOffence text before (reading call n values (.ofTokens (.around text []) (u :: us))) := by
  obtain ⟨offends, opened⟩ := Offends.of_opened fitting closed bare ends
  rw [← parts] at offends opened
  have further : Text.byteLength before < Text.byteLength before' := by
    rw [parts, List.append_assoc]
    exact bytes_lt _ (by simp)
  rw [reading_refused n values round]
  refine .inr ⟨rfl, before', rest, ts, whole, Nat.le_of_lt further, offends, tokens, ?_⟩
  rw [iff_true_intro opened]
  refine blames.mono (fun m mem => List.mem_append_left _ mem) fun m mem => ?_
  rcases List.mem_append.1 mem with old | last
  · exact .inl old
  · rw [List.mem_singleton.1 last, start, tokens.index whole]
    exact .inr further

theorem blames_unclosed (n : Nat) (values : List Piece) (others : Behind (before ++ ['(']) s ts)
    (whole : text = before ++ ['('] ++ s) (fitting : Fitting before) (closed : ¬ Open before)
    (ends : ∀ c ∈ s.head?, c = '(') : BlamesOffence text before (reading call n values
      (.ofTokens (.around text []) (Rule.Cut.token ⟨openRule, ['(']⟩ before :: ts))) := by
  have bare := others.lacks_text fun c mem => .inl (ends c mem)
  have unclosed := others.lacks_close fun c mem => by simp [ends c mem]
  refine blames_opened n values whole fitting closed (List.append_nil _).symm nofun ends rfl others
    (watch_unclosed rfl bare unclosed) ?_
  have earlier : Text.byteLength before < Text.byteLength (before ++ ['(']) := bytes_lt _ (by simp)
  constructor
  · simpa [others.index whole] using .inr earlier
  · simp
  · simp

theorem blames_unclosed_text (n : Nat) (values : List Piece) (bare : Bare t)
    (others : Behind (before ++ ['('] ++ t) s ts) (whole : text = before ++ ['('] ++ t ++ s)
    (fitting : Fitting before) (closed : ¬ Open before) (ends : ∀ c ∈ s.head?, c = '(') :
    BlamesOffence text before (reading call n values (.ofTokens (.around text [])
      (Rule.Cut.token ⟨openRule, ['(']⟩ before ::
        Rule.Cut.token ⟨textRule, t⟩ (before ++ ['(']) :: ts))) := by
  have unclosed := others.lacks_close fun c mem => by simp [ends c mem]
  refine blames_opened n values whole fitting closed rfl bare ends rfl others
    (watch_unclosed_text rfl rfl unclosed) ?_
  have earlier : Text.byteLength before < Text.byteLength (before ++ '(' :: t) := bytes_lt _ (by simp)
  constructor
  · simpa [others.index whole] using .inr earlier
  · simp
  · simp

theorem blames_closed (n : Nat) (values : List Piece) (others : Behind (before ++ [')']) s ts)
    (whole : text = before ++ ')' :: s) (fitting : Fitting before) (closed : ¬ Open before) :
    BlamesOffence text before (reading call n values
      (.ofTokens (.around text []) (Rule.Cut.token ⟨closeRule, [')']⟩ before :: ts))) := by
  have offends : Offends before (')' :: s) := by
    refine ⟨fitting, ?_, nofun⟩
    rintro _ ⟨⟩
    exact .inl ⟨rfl, closed⟩
  rw [reading_refused n values (watch_closed rfl)]
  refine .inr ⟨rfl, before, _, _, whole, Nat.le_refl _, offends, .closing others, ?_⟩
  constructor
  · simp
  · simp
  · simp [closed]

theorem blames_reading {before s : List Char} {ts : List (Token Kind)} {n : Nat} {values : List Piece}
    (h : Behind before s ts) (whole : text = before ++ s) (fitting : Fitting before)
    (closed : ¬ Open before) (enough : ts.length ≤ n) :
    BlamesOffence text before (reading call n values (.ofTokens (.around text []) ts)) := by
  -- on the tokens: what is accepted is passed, and the first round that is refused goes wrong
  have start := h.index whole
  cases h with
  | nil => exact .inl ⟨values, _, reading_end n values⟩
  | closing others => exact blames_closed n values others whole fitting closed
  | @text _ t s ts nonempty bare ends others =>
    obtain ⟨n, rfl⟩ := Nat.exists_eq_add_one.2 (Nat.lt_of_lt_of_le (Nat.succ_pos _) enough)
    have further := bytes_lt before nonempty
    rw [reading_accepted n values (watch_plain rfl) (Nat.lt_succ_self _)]
    refine BlamesOffence.after (before ++ t) ?_ (Nat.le_of_lt further) ?_
    · refine blames_reading others ?_ (fitting.append_bare bare) ?_ (Nat.le_of_succ_le_succ enough)
      · rw [whole, List.append_assoc]
      · rwa [open_append_iff bare]
    · simpa [start] using further
  | @opening _ s ts others =>
    have whole : text = before ++ ['('] ++ s := by rw [whole, List.append_assoc]; rfl
    have fitting' := fitting.opened closed
    cases others with
    | nil => exact blames_unclosed n values .nil whole fitting closed nofun
    | opening others =>
      exact blames_unclosed n values (.opening others) whole fitting closed (by rintro _ ⟨⟩; rfl)
    | @closing _ s ts others =>
      obtain ⟨n, rfl⟩ := Nat.exists_eq_add_one.2 (Nat.lt_of_lt_of_le (Nat.succ_pos _) enough)
      have last := bytes_lt (before ++ ['(']) (List.cons_ne_nil ')' [])
      rw [reading_accepted n values (watch_empty rfl rfl) (Nat.lt_succ_of_lt (Nat.lt_succ_self _))]
      refine BlamesOffence.after (before ++ ['('] ++ [')']) ?_ ?_ ?_
      · refine blames_reading others ?_ (fitting'.closed open_opened) not_open_closed ?_
        · rw [whole, List.append_assoc _ [')']]
          rfl
        · exact Nat.le_trans (Nat.le_succ _) (Nat.le_of_succ_le_succ enough)
      · exact Nat.le_of_lt (Nat.lt_trans (bytes_lt _ (by simp)) last)
      · exact List.forall_mem_singleton.2 last
    | @text _ t s ts nonempty bare ends others =>
      have whole : text = before ++ ['('] ++ t ++ s := by rw [whole, List.append_assoc _ t s]
      cases others with
      | nil => exact blames_unclosed_text n values bare .nil whole fitting closed nofun
      | opening others =>
        exact blames_unclosed_text n values bare (.opening others) whole fitting closed
          (by rintro _ ⟨⟩; rfl)
      | @closing _ s ts others =>
        obtain ⟨n, rfl⟩ := Nat.exists_eq_add_one.2 (Nat.lt_of_lt_of_le (Nat.succ_pos _) enough)
        have opened : Open (before ++ ['('] ++ t) := (open_append_iff bare).2 open_opened
        rw [reading_accepted n values (watch_enclosed rfl rfl rfl)
          (Nat.lt_succ_of_lt (Nat.lt_succ_of_lt (Nat.lt_succ_self _)))]
        refine BlamesOffence.after (before ++ ['('] ++ t ++ [')']) ?_ ?_ nofun
        · refine blames_reading others ?_ ((fitting'.append_bare bare).closed opened) not_open_closed ?_
          · rw [whole, List.append_assoc _ [')']]
            rfl
          · simp only [List.length_cons] at enough
            omega
        · rw [List.append_assoc, List.append_assoc]
          exact Nat.le_of_lt (bytes_lt _ (by simp))
      | text nonempty bare _ _ => exact absurd ends (head_of_bare nonempty bare)
termination_by ts.length

end Reading

theorem failure_of_blames {text : List Char} {f : Failure} {w : Watched Kind (List Piece)}
    (blames : BlamesOffence text [] w) (reports : Grammar.ReportsEnd (.error f) w) :
    ∃ before rest expected, text = before ++ rest ∧ Offends before rest ∧
      f = .expected ⟨.around before (rest.take 1), rest.head?.map String.singleton, expected⟩ ∧
      ("')'" ∈ expected ↔ Open before) := by
  rcases blames with ⟨content, rest, accepted⟩ | ⟨refused, before, rest, ts, whole, -, offends, tokens, here⟩
  · cases f with
    | tokenize e => cases accepted.symm.trans reports
    | expected e => cases accepted.symm.trans reports.1
    | endless => cases accepted.symm.trans reports
  · cases f with
    | tokenize e => cases refused.symm.trans reports
    | endless => cases refused.symm.trans reports
    | expected e =>
      have parenthesis : ∀ c ∈ rest.head?, c = '(' ∨ c = ')' :=
        fun c mem => (offends.misfit c mem).symm.imp And.left And.left
      obtain ⟨position, found⟩ := tokens.place whole parenthesis
      obtain ⟨position', found', closing⟩ := here.of_sumsUp reports.2
      refine ⟨before, rest, e.expected, whole, offends, ?_, closing⟩
      rw [← position, ← found, ← position', ← found']

/-- A text that cannot be read is unbalanced, at the place where it goes wrong for the first time: at a
parenthesis that does not fit what stands before it, or at the end where one is left open. A closing
parenthesis is among what is expected just when one is open there. -/
theorem unbalanced_at_first_offence {text : String} {e : Error} (rejected : parse text = .error e) :
    ∃ before rest expected, text.toList = before ++ rest ∧ Offends before rest ∧
      e = .unbalanced (.around before (rest.take 1)) (rest.head?.map String.singleton) expected ∧
      ("')'" ∈ expected ↔ Open before) := by
  obtain ⟨ts, tokens, scanned⟩ := exists_behind text
  let start : Cursor Kind := .ofTokens (.around text.toList []) ts
  have room : ts.length ≤ start.remaining := Nat.le_of_eq (Cursor.remaining_ofTokens _ ts).symm
  have blames : BlamesOffence text.toList []
      (reading (Grammar.noRules.watchCall (Grammar.noRules.depth start)) start.remaining [] start) :=
    blames_reading tokens rfl fitting_nil not_open_nil room
  have reports := Grammar.reports_end
    (Grammar.reports_run Grammar.noRules (Grammar.noRules.depth start) content start)
  rw [parse, scanned, Stream.enter_ofTokens] at rejected
  dsimp only at rejected
  cases run : Grammar.parseAll Grammar.noRules content start with
  | ok value =>
    rw [run] at rejected
    cases rejected
  | error f =>
    rw [run] at rejected
    cases rejected
    rw [Grammar.parseAll, Grammar.run] at run
    rw [run] at reports
    obtain ⟨before, rest, expected, whole, offends, rfl, closing⟩ := failure_of_blames blames reports
    exact ⟨before, rest, expected, whole, offends, rfl, closing⟩

/-- The second parenthesis of the second line opens inside of the first one. -/
theorem unbalanced_at_nested :
    let e : Error := .unbalanced ⟨8, 2, 3, 2, 4⟩ (some "(") ["')'"]
    parse "é(b)\n(c(" = .error e ∧
      ∃ before rest expected, "é(b)\n(c(".toList = before ++ rest ∧ Offends before rest ∧
        e = .unbalanced (.around before (rest.take 1)) (rest.head?.map String.singleton) expected ∧
        ("')'" ∈ expected ↔ Open before) := by
  have rejected : parse "é(b)\n(c(" = .error (.unbalanced ⟨8, 2, 3, 2, 4⟩ (some "(") ["')'"]) := by
    decide +kernel
  exact ⟨rejected, unbalanced_at_first_offence rejected⟩

end Wordhoard.Markup
