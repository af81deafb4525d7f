import Wordhoard.Proofs.Markup.RoundTrip

/-! The markup that can be read. Main statement: reading and writing are inverse to each other
between the texts whose parentheses pair up without nesting and the canonical contents. -/
namespace Wordhoard.Markup

open Grammar (Leaf Row Means means_opt)

def Bare (s : List Char) : Prop := ∀ c ∈ s, c ≠ '(' ∧ c ≠ ')'

/-- Behind each opening parenthesis the next one closes it, and before each closing one the last one
opened it. -/
structure Paired (s : List Char) : Prop where
  closed : ∀ a b, s = a ++ '(' :: b → ∃ c d, b = c ++ ')' :: d ∧ Bare c
  opened : ∀ a b, s = a ++ ')' :: b → ∃ c d, a = c ++ '(' :: d ∧ Bare d

variable {s t : List Char} {content : List Piece}

theorem not_bare_of_close {a b : List Char} : ¬ Bare (a ++ ')' :: b) := fun h =>
  (h ')' (List.mem_append_right a List.mem_cons_self)).2 rfl

theorem not_bare_of_open {a b : List Char} : ¬ Bare (a ++ '(' :: b) := fun h =>
  (h '(' (List.mem_append_right a List.mem_cons_self)).1 rfl

theorem Bare.paired (h : Bare s) : Paired s where
  closed _ _ split := absurd (split ▸ h) not_bare_of_open
  opened _ _ split := absurd (split ▸ h) not_bare_of_close

theorem split_append {a b : List Char} {c : Char} (h : s ++ t = a ++ c :: b) :
    (∃ m, s = a ++ c :: m ∧ b = m ++ t) ∨ ∃ m, a = s ++ m ∧ t = m ++ c :: b := by
  rcases List.append_eq_append_iff.1 h with ⟨m, before, after⟩ | ⟨m, before, after⟩
  · exact .inr ⟨m, before, after⟩
  · cases m with
    | nil => exact .inr ⟨[], by simpa using before.symm, by simpa using after.symm⟩
    | cons d m =>
      obtain ⟨rfl, rest⟩ := List.cons.inj after
      exact .inl ⟨m, before, rest⟩

theorem Paired.append (hs : Paired s) (ht : Paired t) : Paired (s ++ t) where
  closed a b split := by
    rcases split_append split with ⟨m, inside, rfl⟩ | ⟨m, -, inside⟩
    · obtain ⟨c, d, rfl, bare⟩ := hs.closed a m inside
      exact ⟨c, d ++ t, by simp, bare⟩
    · exact ht.closed m b inside
  opened a b split := by
    rcases split_append split with ⟨m, inside, -⟩ | ⟨m, rfl, inside⟩
    · exact hs.opened a m inside
    · obtain ⟨c, d, rfl, bare⟩ := ht.opened m b inside
      exact ⟨s ++ c, d, by simp, bare⟩

theorem Paired.cancel (hs : Paired s) (h : Paired (s ++ t)) : Paired t where
  closed a b split := h.closed (s ++ a) b (by rw [split, List.append_assoc])
  opened a b split := by
    obtain ⟨c, d, before, bare⟩ := h.opened (s ++ a) b (by rw [split, List.append_assoc])
    rcases split_append before with ⟨m, inside, rfl⟩ | ⟨m, -, inside⟩
    · obtain ⟨x, y, rfl, -⟩ := hs.closed c m inside
      rw [List.append_assoc] at bare
      exact absurd bare not_bare_of_close
    · exact ⟨m, d, inside, bare⟩

theorem paired_enclosed (h : Bare s) : Paired ('(' :: (s ++ [')'])) where
  closed a b split := by
    cases a with
    | nil =>
      obtain ⟨-, rfl⟩ := List.cons.inj split
      exact ⟨s, [], rfl, h⟩
    | cons c a =>
      obtain ⟨-, rest⟩ := List.cons.inj split
      rcases split_append rest with ⟨m, rfl, -⟩ | ⟨m, -, inside⟩
      · exact absurd h not_bare_of_open
      · cases m with
        | nil => cases inside
        | cons d m => exact absurd (List.cons.inj inside).2.symm (by simp)
  opened a b split := by
    cases a with
    | nil => cases split
    | cons c a =>
      obtain ⟨rfl, rest⟩ := List.cons.inj split
      rcases split_append rest with ⟨m, rfl, -⟩ | ⟨m, rfl, inside⟩
      · exact absurd h not_bare_of_close
      · cases m with
        | nil => exact ⟨[], s ++ [], rfl, by rwa [List.append_nil]⟩
        | cons d m => exact absurd (List.cons.inj inside).2.symm (by simp)

def written (content : List Piece) : List Char :=
  content.flatMap fun piece => (renderPiece piece).toList

theorem written_optional (text : String) (others : List Piece) :
    written (.optional text :: others) = '(' :: (text.toList ++ [')']) ++ written others := by
  simp [written, renderPiece, String.toList_append]

theorem written_plain (text : String) (others : List Piece) :
    written (.plain text :: others) = text.toList ++ written others :=
  rfl

theorem render_eq_iff {text : String} : render content = text ↔ written content = text.toList := by
  rw [← String.toList_inj, toList_render]
  rfl

theorem paired_written (bare : ∀ piece ∈ content, Bare piece.text.toList) :
    Paired (written content) := by
  induction content with
  | nil => exact Bare.paired (List.forall_mem_nil _)
  | cons piece others ih =>
    obtain ⟨first, further⟩ := List.forall_mem_cons.1 bare
    cases piece with
    | plain text =>
      rw [written_plain]
      exact (Bare.paired first).append (ih further)
    | optional text =>
      rw [written_optional]
      exact (paired_enclosed first).append (ih further)

theorem canonical_nil : Canonical [] := ⟨nofun, nofun, .nil⟩

theorem Canonical.optional {text : String} (bare : Bare text.toList) (h : Canonical content) :
    Canonical (.optional text :: content) where
  bare := List.forall_mem_cons.2 ⟨bare, h.bare⟩
  visible := List.forall_mem_cons.2 ⟨.inl rfl, h.visible⟩
  apart := by
    cases content with
    | nil => exact .singleton _
    | cons next others => exact .cons_cons (.inl rfl) h.apart

theorem Canonical.plain {text : String} (bare : Bare text.toList) (nonempty : text ≠ "")
    (h : Canonical content) (ends : ∀ c ∈ (written content).head?, c = '(' ∨ c = ')') :
    Canonical (.plain text :: content) where
  bare := List.forall_mem_cons.2 ⟨bare, h.bare⟩
  visible := List.forall_mem_cons.2 ⟨.inr nonempty, h.visible⟩
  apart := by
    cases content with
    | nil => exact .singleton _
    | cons next others =>
      refine .cons_cons (.inr ?_) h.apart
      cases next with
      | optional text => rfl
      | plain text =>
        have visible : text ≠ "" := by
          simpa [Piece.isOptional, Piece.text] using h.visible _ List.mem_cons_self
        obtain ⟨c, rest, chars⟩ := List.exists_cons_of_ne_nil (by simpa using visible : text.toList ≠ [])
        have outside := h.bare _ List.mem_cons_self c (by rw [Piece.text, chars]; exact List.mem_cons_self)
        rw [written_plain, chars] at ends
        exact ((ends c rfl).elim outside.1 outside.2).elim

theorem exists_bare_prefix (s : List Char) :
    ∃ t rest, s = t ++ rest ∧ Bare t ∧ ∀ c ∈ rest.head?, c = '(' ∨ c = ')' := by
  induction s with
  | nil => exact ⟨[], [], rfl, nofun, nofun⟩
  | cons c others ih =>
    by_cases parenthesis : c = '(' ∨ c = ')'
    · exact ⟨[], c :: others, rfl, nofun, by rintro _ ⟨⟩; exact parenthesis⟩
    · obtain ⟨t, rest, rfl, bare, ends⟩ := ih
      exact ⟨c :: t, rest, rfl, List.forall_mem_cons.2 ⟨not_or.1 parenthesis, bare⟩, ends⟩

theorem exists_canonical {s : List Char} (h : Paired s) :
    ∃ content, Canonical content ∧ written content = s := by
  obtain ⟨t, rest, split, bare, ends⟩ := exists_bare_prefix s
  cases rest with
  | nil =>
    rw [List.append_nil] at split
    subst split
    by_cases empty : s = []
    · exact ⟨[], canonical_nil, empty.symm⟩
    · refine ⟨[.plain (String.ofList s)], Canonical.plain ?_ ?_ canonical_nil nofun, ?_⟩
      · rwa [String.toList_ofList]
      · simpa using empty
      · rw [written_plain, String.toList_ofList]
        exact List.append_nil s
  | cons c rest =>
    have behind : Paired (c :: rest) := bare.paired.cancel (split ▸ h)
    -- The first parenthesis opens a piece: nothing before it could be closed by it.
    obtain rfl : c = '(' := by
      refine (ends c rfl).resolve_right ?_
      rintro rfl
      obtain ⟨x, y, none, -⟩ := behind.opened [] rest rfl
      cases x <;> cases none
    obtain ⟨inner, further, rfl, inside⟩ := behind.closed [] rest rfl
    have parts : '(' :: (inner ++ ')' :: further) = '(' :: (inner ++ [')']) ++ further := by simp
    rw [parts] at behind split
    have : further.length < s.length := by
      rw [split]
      simp only [List.length_append, List.length_cons]
      omega
    obtain ⟨content, canonical, same⟩ :=
      exists_canonical ((paired_enclosed inside).cancel behind)
    have opened : Canonical (.optional (String.ofList inner) :: content) :=
      canonical.optional (by rwa [String.toList_ofList])
    have text : written (.optional (String.ofList inner) :: content) =
        '(' :: (inner ++ [')']) ++ further := by
      rw [written_optional, String.toList_ofList, same]
    by_cases empty : t = []
    · subst empty
      exact ⟨_, opened, text.trans split.symm⟩
    · refine ⟨.plain (String.ofList t) :: _, opened.plain ?_ ?_ ?_, ?_⟩
      · rwa [String.toList_ofList]
      · simpa using empty
      · rw [text]
        rintro _ ⟨⟩
        exact .inl rfl
      · rw [written_plain, String.toList_ofList, text, split]
termination_by s.length

theorem contentText_of_written (bare : ∀ piece ∈ content, Bare piece.text.toList) :
    (contentText content).toList = (written content).filter fun c => c ≠ '(' ∧ c ≠ ')' := by
  rw [contentText, String.toList_join, List.flatMap_map]
  induction content with
  | nil => rfl
  | cons piece others ih =>
    obtain ⟨first, bare⟩ := List.forall_mem_cons.1 bare
    have whole : piece.text.toList.filter (fun c => c ≠ '(' ∧ c ≠ ')') = piece.text.toList :=
      List.filter_eq_self.2 fun c hc => decide_eq_true (first c hc)
    have further := ih bare
    cases piece with
    | plain text =>
      rw [List.flatMap_cons, written_plain, List.filter_append, further]
      exact congrArg (· ++ _) whole.symm
    | optional text =>
      rw [List.flatMap_cons, written_optional, List.filter_append, further, List.filter_cons,
        List.filter_append]
      simpa [Piece.text] using whole.symm

inductive Lexed : List (Token Kind) → List Char → Prop where
  | nil : Lexed [] []
  | opening {t : Token Kind} {ts : List (Token Kind)} {s : List Char} (kind : t.kind = .openParen)
      (others : Lexed ts s) : Lexed (t :: ts) ('(' :: s)
  | closing {t : Token Kind} {ts : List (Token Kind)} {s : List Char} (kind : t.kind = .closeParen)
      (others : Lexed ts s) : Lexed (t :: ts) (')' :: s)
  | text {t : Token Kind} {ts : List (Token Kind)} {s : List Char} (kind : t.kind = .text)
      (bare : Bare t.text.toList) (others : Lexed ts s) : Lexed (t :: ts) (t.text.toList ++ s)

theorem lexed_scan (n : Nat) (m : Text.Mark) (s : List Char) (enough : s.length ≤ n) :
    ∃ ts p, Rule.scan rules n m s = ⟨ts, .finished p⟩ ∧ Lexed ts s := by
  induction n generalizing m s with
  | zero =>
    obtain rfl := List.length_eq_zero_iff.1 (Nat.le_zero.1 enough)
    exact ⟨[], m.position, rfl, .nil⟩
  | succ n ih =>
    obtain ⟨t, rest, rfl, bare, ends⟩ := exists_bare_prefix s
    rw [List.length_append] at enough
    by_cases empty : t = []
    · subst empty
      cases rest with
      | nil => exact ⟨[], m.position, rfl, .nil⟩
      | cons c rest =>
        rw [List.length_cons] at enough
        rcases ends c rfl with rfl | rfl
        · obtain ⟨ts, p, scanned, lexed⟩ := ih (m.advance ['(']) rest (by omega)
          refine ⟨openRule.token m ['('] :: ts, p, ?_, .opening rfl lexed⟩
          rw [List.nil_append, scan_cut (cut_open rest) rfl (List.cons_ne_nil _ _), scanned]
          rfl
        · obtain ⟨ts, p, scanned, lexed⟩ := ih (m.advance [')']) rest (by omega)
          refine ⟨closeRule.token m [')'] :: ts, p, ?_, .closing rfl lexed⟩
          rw [List.nil_append, scan_cut (cut_close rest) rfl (List.cons_ne_nil _ _), scanned]
          rfl
    · have length := List.length_pos_iff.2 empty
      obtain ⟨ts, p, scanned, lexed⟩ := ih (m.advance t) rest (by omega)
      have same : (textRule.token m t).text.toList = t := String.toList_ofList
      have read : Lexed (textRule.token m t :: ts) (t ++ rest) := by
        rw [← same] at bare
        have := Lexed.text (t := textRule.token m t) rfl bare lexed
        rwa [same] at this
      refine ⟨textRule.token m t :: ts, p, ?_, read⟩
      rw [scan_cut (cut_text empty bare ends) rfl (List.append_ne_nil_of_left_ne_nil empty rest),
        scanned]
      rfl

variable {ls : List (Leaf Kind)} {named : (n : Empty) → List (Leaf Kind) → Unit → Prop}

theorem kind_of_isKind {kind : Kind} {l : Leaf Kind} (h : IsKind kind l) : l.token.kind = kind := by
  have fits := l.fits
  rw [h] at fits
  exact of_decide_eq_true fits

theorem pieceOf_of_means {piece : Piece}
    (h : Means named (.either optionalPiece plainPiece) ls piece) : PieceOf ls piece := by
  rcases h with ⟨⟨⟨t, inner⟩, u⟩, ⟨_, _, rfl, ⟨_, _, rfl, hopen, hinner⟩, hclose⟩, rfl⟩ |
    ⟨t, ⟨l, rfl, text, rfl⟩, rfl⟩
  · obtain ⟨l, rfl, opened, -⟩ := hopen
    obtain ⟨r, rfl, closed, -⟩ := hclose
    rcases means_opt hinner with ⟨rfl, same⟩ | ⟨a, same, k, rfl, text, rfl⟩
    · cases same
      exact .empty opened closed
    · cases same
      exact .optional opened text closed
  · exact .plain text

theorem Lexed.of_opening {t : Token Kind} {ts : List (Token Kind)} (h : Lexed (t :: ts) s)
    (kind : t.kind = .openParen) : ∃ rest, s = '(' :: rest ∧ Lexed ts rest := by
  cases h with
  | opening _ others => exact ⟨_, rfl, others⟩
  | closing other => cases kind.symm.trans other
  | text other => cases kind.symm.trans other

theorem Lexed.of_closing {t : Token Kind} {ts : List (Token Kind)} (h : Lexed (t :: ts) s)
    (kind : t.kind = .closeParen) : ∃ rest, s = ')' :: rest ∧ Lexed ts rest := by
  cases h with
  | opening other => cases kind.symm.trans other
  | closing _ others => exact ⟨_, rfl, others⟩
  | text other => cases kind.symm.trans other

theorem Lexed.of_text {t : Token Kind} {ts : List (Token Kind)} (h : Lexed (t :: ts) s)
    (kind : t.kind = .text) :
    ∃ rest, s = t.text.toList ++ rest ∧ Bare t.text.toList ∧ Lexed ts rest := by
  cases h with
  | opening other => cases kind.symm.trans other
  | closing other => cases kind.symm.trans other
  | text _ bare others => exact ⟨_, rfl, bare, others⟩

/-- The pieces that are read off tokens are written as the text of the tokens. -/
theorem written_of_lexed (h : Row PieceOf ls content) (lexed : Lexed (ls.map Leaf.token) s) :
    written content = s ∧ ∀ piece ∈ content, Bare piece.text.toList := by
  induction h generalizing s with
  | nil => cases lexed; exact ⟨rfl, nofun⟩
  | cons first others ih =>
    cases first with
    | plain text =>
      obtain ⟨rest, rfl, bare, further⟩ := lexed.of_text (kind_of_isKind text)
      obtain ⟨rfl, others⟩ := ih further
      exact ⟨written_plain _ _, List.forall_mem_cons.2 ⟨bare, others⟩⟩
    | empty opened closed =>
      obtain ⟨_, rfl, inner⟩ := lexed.of_opening (kind_of_isKind opened)
      obtain ⟨rest, rfl, further⟩ := inner.of_closing (kind_of_isKind closed)
      obtain ⟨rfl, others⟩ := ih further
      exact ⟨written_optional _ _, List.forall_mem_cons.2 ⟨nofun, others⟩⟩
    | optional opened text closed =>
      obtain ⟨_, rfl, inner⟩ := lexed.of_opening (kind_of_isKind opened)
      obtain ⟨_, rfl, bare, outer⟩ := inner.of_text (kind_of_isKind text)
      obtain ⟨rest, rfl, further⟩ := outer.of_closing (kind_of_isKind closed)
      obtain ⟨rfl, others⟩ := ih further
      refine ⟨?_, List.forall_mem_cons.2 ⟨bare, others⟩⟩
      rw [written_optional]
      simp

theorem plain_content : Grammar.Plain named Markup.content :=
  ⟨⟨⟨⟨trivial, ⟨trivial, rfl⟩, Grammar.productive_opt _⟩, trivial,
    Grammar.productive_token _⟩, trivial⟩, rfl⟩

theorem written_of_parse {text : String} (h : parse text = .ok content) :
    written content = text.toList ∧ ∀ piece ∈ content, Bare piece.text.toList := by
  obtain ⟨ts, p, scanned, lexed⟩ :=
    lexed_scan text.length .start text.toList (Nat.le_of_eq String.length_toList)
  rw [parse, Rule.stream, scanned, Stream.enter_ofTokens] at h
  dsimp only at h
  cases run : Grammar.parseAll Grammar.noRules Markup.content (.ofTokens p ts) with
  | error f => rw [run] at h; cases h
  | ok v =>
    rw [run] at h
    cases h
    obtain ⟨q, accepted⟩ := Grammar.accepted_of_parseAll run
    have follows : Grammar.Follows (Grammar.Means (·.elim) Markup.content) (.ofTokens p ts)
        (Grammar.watch (Grammar.noRules.watchCall (Grammar.noRules.depth (.ofTokens p ts)))
          Markup.content (.ofTokens p ts)) :=
      Grammar.follows_watch (·.elim) Markup.content plain_content (.ofTokens p ts)
    obtain ⟨ls, passes, row, -, -⟩ := follows.accepted _ _ accepted
    obtain ⟨vs, same, pieces⟩ : ∃ vs, content = vs.map id ∧ Grammar.Row PieceOf ls vs :=
      row.imp fun ms v derived => ⟨v, rfl, pieceOf_of_means derived⟩
    rw [List.map_id] at same
    subst same
    have tokens : ts = ls.map Leaf.token := by
      have whole := congrArg Stream.tokens ((Cursor.stream_ofTokens p ts).symm.trans passes)
      simpa [Cursor.stream] using whole
    rw [tokens] at lexed
    exact written_of_lexed pieces lexed

theorem parse_eq_ok_iff {text : String} :
    parse text = .ok content ↔ Canonical content ∧ render content = text := by
  constructor
  · intro h
    obtain ⟨same, bare⟩ := written_of_parse h
    obtain ⟨other, canonical, written⟩ := exists_canonical (paired_written bare)
    have rendered : render other = text := render_eq_iff.2 (written.trans same)
    have read := parse_render canonical
    rw [rendered, h] at read
    cases read
    exact ⟨canonical, rendered⟩
  · rintro ⟨canonical, rfl⟩
    exact parse_render canonical

theorem parse_eq_nil_iff {text : String} : parse text = .ok [] ↔ text = "" := by
  rw [parse_eq_ok_iff]
  constructor
  · rintro ⟨-, rfl⟩
    rfl
  · rintro rfl
    exact ⟨⟨List.forall_mem_nil _, List.forall_mem_nil _, .nil⟩, rfl⟩

/-- Reading and writing are inverse to each other between paired texts and canonical contents; a
text is paired just when it can be read, and its characters outside of parentheses are kept. -/
theorem parse_inverse_render :
    (∀ text, (∃ content, parse text = .ok content) ↔ Paired text.toList) ∧
    (∀ text content, parse text = .ok content ↔ Canonical content ∧ render content = text) ∧
    (∀ text content, parse text = .ok content →
      contentText content = String.ofList (text.toList.filter fun c => c ≠ '(' ∧ c ≠ ')')) ∧
    ∀ content, parse (render content) = .ok content ↔ Canonical content := by
  refine ⟨fun text => ⟨?_, fun h => ?_⟩, fun _ _ => parse_eq_ok_iff, fun text content h => ?_,
    fun content => ?_⟩
  · rintro ⟨content, h⟩
    obtain ⟨same, bare⟩ := written_of_parse h
    exact same ▸ paired_written bare
  · obtain ⟨content, canonical, same⟩ := exists_canonical h
    exact ⟨content, parse_eq_ok_iff.2 ⟨canonical, render_eq_iff.2 same⟩⟩
  · obtain ⟨same, bare⟩ := written_of_parse h
    rw [← same, ← contentText_of_written bare, String.ofList_toList]
  · rw [parse_eq_ok_iff]
    exact and_iff_left rfl

end Wordhoard.Markup
