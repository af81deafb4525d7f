import Mathlib.Data.List.Chain
import Wordhoard.Markup.Basic
import Wordhoard.Proofs.Grammar.Acceptance
import Wordhoard.Proofs.Pattern.Takes

/-! Content that is written as markup and read again. -/
namespace Wordhoard.Markup

open Grammar (Leaf Row Accepts AcceptsRow)
open Pattern (CharSet)

/-- Content that markup can tell: no piece holds a parenthesis, no plain piece is empty, and no two
of them stand side by side. -/
structure Canonical (content : List Piece) : Prop where
  bare : ∀ piece ∈ content, ∀ c ∈ piece.text.toList, c ≠ '(' ∧ c ≠ ')'
  visible : ∀ piece ∈ content, piece.isOptional ∨ piece.text ≠ ""
  apart : content.IsChain fun p q => p.isOptional ∨ q.isOptional

def openRule : Rule Kind := ⟨true, .seq .textStart (.one (.single '(')), .openParen⟩

def closeRule : Rule Kind := ⟨true, .seq .textStart (.one (.single ')')), .closeParen⟩

def textRule : Rule Kind :=
  ⟨true, .seq .textStart (.many1 (.complement (.ofList ['(', ')']))), .text⟩

theorem cut_open (rest : List Char) :
    Rule.first? rules ('(' :: rest) = some (openRule, ['('], rest) := by
  have takes : Pattern.Takes (Pattern.run (.one (.single '('))) ['('] rest :=
    Pattern.takes_one (CharSet.contains_single.2 rfl)
  exact Rule.first?_of_takes (r := openRule) [] [closeRule, textRule] rfl takes
    (List.forall_mem_nil _)

theorem cut_close (rest : List Char) :
    Rule.first? rules (')' :: rest) = some (closeRule, [')'], rest) := by
  have takes : Pattern.Takes (Pattern.run (.one (.single ')'))) [')'] rest :=
    Pattern.takes_one (CharSet.contains_single.2 rfl)
  exact Rule.first?_of_takes (r := closeRule) [openRule] [textRule] rfl takes
    (List.forall_mem_singleton.2 (by decide))

theorem contains_bare {c : Char} :
    (CharSet.complement (.ofList ['(', ')'])).contains c ↔ c ≠ '(' ∧ c ≠ ')' := by
  rw [CharSet.contains, Bool.not_eq_true', ← Bool.not_eq_true, Pattern.CharSet.contains_ofList]
  simp

theorem cut_text {s rest : List Char} (nonempty : s ≠ []) (bare : ∀ c ∈ s, c ≠ '(' ∧ c ≠ ')')
    (ends : ∀ c ∈ rest.head?, c = '(' ∨ c = ')') :
    Rule.first? rules (s ++ rest) = some (textRule, s, rest) := by
  have takes : Pattern.Takes (Pattern.run (.many1 (.complement (.ofList ['(', ')'])))) s rest := by
    apply Pattern.takes_many1
    · exact fun c hc => contains_bare.2 (bare c hc)
    · exact nonempty
    · intro c hc
      rw [← Bool.not_eq_true, contains_bare]
      rintro ⟨opens, closes⟩
      exact (ends c hc).elim opens closes
  cases s with
  | nil => exact absurd rfl nonempty
  | cons c others =>
    obtain ⟨opens, closes⟩ := bare c List.mem_cons_self
    have shuns {d : Char} (other : c ≠ d) : Pattern.shuns (.seq .textStart (.one (.single d))) c := by
      have apart := mt CharSet.contains_single.1 other
      rw [Bool.not_eq_true] at apart
      simp [Pattern.shuns, Pattern.idle, apart]
    exact Rule.first?_of_takes (r := textRule) [openRule, closeRule] [] rfl takes
      (List.forall_mem_cons.2 ⟨shuns opens, List.forall_mem_singleton.2 (shuns closes)⟩)

variable {ls : List (Leaf Kind)} {l r : Leaf Kind} {content : List Piece} {p : Text.Position}
  {rest : List (Token Kind)} {n : Nat} {m : Text.Mark}

def IsKind (kind : Kind) (l : Leaf Kind) : Prop := l.terminal = .kind kind

inductive PieceOf : List (Leaf Kind) → Piece → Prop where
  | plain {l : Leaf Kind} (text : IsKind .text l) : PieceOf [l] (.plain l.token.text)
  | empty {l r : Leaf Kind} (opened : IsKind .openParen l) (closed : IsKind .closeParen r) :
      PieceOf [l, r] (.optional "")
  | optional {l t r : Leaf Kind} (opened : IsKind .openParen l) (text : IsKind .text t)
      (closed : IsKind .closeParen r) : PieceOf [l, t, r] (.optional t.token.text)

theorem accepts_piece {call : (n : Empty) → Cursor Kind → Grammar.Watched Kind Unit} {piece : Piece}
    (h : PieceOf ls piece) : Accepts call p (.either optionalPiece plainPiece) ls rest piece := by
  cases h with
  | plain text =>
    have taken : Accepts call p plainPiece _ rest _ := (Grammar.accepts_token text).map _
    exact taken.right (Grammar.refuses_of_shuns text rfl)
  | @empty l r opened closed =>
    have nothing : Accepts call p (.opt (.token .text)) [] (r.token :: rest) none :=
      Grammar.accepts_opt_none (Grammar.refuses_of_shuns closed rfl)
    exact ((((Grammar.accepts_token opened).seq nothing).seq
      (Grammar.accepts_token closed)).map _).left
  | @optional l t r opened text closed =>
    have something : Accepts call p (.opt (.token .text)) [t] (r.token :: rest) (some t.token) :=
      (Grammar.accepts_token text).opt
    exact ((((Grammar.accepts_token opened).seq something).seq
      (Grammar.accepts_token closed)).map _).left

theorem acceptsRow_pieces {call : (n : Empty) → Cursor Kind → Grammar.Watched Kind Unit}
    (h : Row PieceOf ls content) :
    AcceptsRow call p (.either optionalPiece plainPiece) ls [] content := by
  induction h with
  | nil =>
    apply AcceptsRow.nil
    exact Grammar.refuses_of_avoids rfl nofun
  | cons first others ih =>
    refine .cons (accepts_piece first) ?_ ih
    cases first <;> exact List.cons_ne_nil _ _

def leafOf (r : Rule Kind) (m : Text.Mark) (piece : List Char) : Leaf Kind :=
  ⟨.kind r.kind, r.token m piece, decide_eq_true rfl⟩

theorem scan_cut {r : Rule Kind} {s piece rest : List Char}
    (found : Rule.first? rules s = some (r, piece, rest)) (keep : r.keep = true)
    (nonempty : s ≠ []) :
    Rule.scan rules (n + 1) m s =
      (Rule.scan rules n (m.advance piece) rest).prepend [(leafOf r m piece).token] := by
  rw [Rule.scan_of_first? found nonempty, if_pos keep]
  rfl

theorem scan_opened {text : String} {rest : List Char}
    (bare : ∀ c ∈ text.toList, c ≠ '(' ∧ c ≠ ')')
    (enough : (text.toList ++ ')' :: rest).length ≤ n) :
    ∃ ls k m', Rule.scan rules n m (text.toList ++ ')' :: rest) =
        (Rule.scan rules k m' rest).prepend (ls.map Leaf.token) ∧
      (∀ l, IsKind .openParen l → PieceOf (l :: ls) (.optional text)) ∧ rest.length ≤ k := by
  rw [List.length_append, List.length_cons] at enough
  obtain ⟨n, rfl⟩ := Nat.exists_eq_add_one.2 (show 0 < n by omega)
  by_cases empty : text = ""
  · subst empty
    refine ⟨[leafOf closeRule m [')']], n, m.advance [')'], ?_, ?_, by omega⟩
    · exact scan_cut (cut_close rest) rfl (List.cons_ne_nil _ _)
    · intro l opened
      exact .empty opened rfl
  · have nonempty : text.toList ≠ [] := by simpa using empty
    have length : 0 < text.toList.length := List.length_pos_iff.2 nonempty
    obtain ⟨n, rfl⟩ := Nat.exists_eq_add_one.2 (show 0 < n by omega)
    have found : Rule.first? rules (text.toList ++ ')' :: rest) = _ :=
      cut_text nonempty bare (by rintro c ⟨⟩; exact .inr rfl)
    refine ⟨[leafOf textRule m text.toList, leafOf closeRule (m.advance text.toList) [')']], n,
      (m.advance text.toList).advance [')'], ?_, ?_, by omega⟩
    · rw [scan_cut found rfl (by simp), scan_cut (cut_close rest) rfl (List.cons_ne_nil _ _),
        Stream.prepend_prepend]
      rfl
    · intro l opened
      have spelled := PieceOf.optional (t := leafOf textRule m text.toList) opened rfl
        (r := leafOf closeRule (m.advance text.toList) [')']) rfl
      have same : (leafOf textRule m text.toList).token.text = text := String.ofList_toList
      rwa [same] at spelled

theorem scan_piece {piece : Piece} {rest : List Char}
    (bare : ∀ c ∈ piece.text.toList, c ≠ '(' ∧ c ≠ ')')
    (visible : piece.isOptional ∨ piece.text ≠ "")
    (ends : piece.isOptional ∨ ∀ c ∈ rest.head?, c = '(')
    (enough : ((renderPiece piece).toList ++ rest).length ≤ n) :
    ∃ ls k m', Rule.scan rules n m ((renderPiece piece).toList ++ rest) =
        (Rule.scan rules k m' rest).prepend (ls.map Leaf.token) ∧
      PieceOf ls piece ∧ rest.length ≤ k := by
  cases piece with
  | plain text =>
    have nonempty : text.toList ≠ [] := by simpa [Piece.isOptional, Piece.text] using visible
    have length : 0 < text.toList.length := List.length_pos_iff.2 nonempty
    have opens : ∀ c ∈ rest.head?, c = '(' := by simpa [Piece.isOptional] using ends
    change (text.toList ++ rest).length ≤ n at enough
    rw [List.length_append] at enough
    obtain ⟨n, rfl⟩ := Nat.exists_eq_add_one.2 (show 0 < n by omega)
    have found : Rule.first? rules (text.toList ++ rest) = _ :=
      cut_text nonempty bare fun c hc => .inl (opens c hc)
    refine ⟨[leafOf textRule m text.toList], n, m.advance text.toList, ?_, ?_, by omega⟩
    · exact scan_cut found rfl (List.append_ne_nil_of_left_ne_nil nonempty rest)
    · have spelled := PieceOf.plain (l := leafOf textRule m text.toList) rfl
      have same : (leafOf textRule m text.toList).token.text = text := String.ofList_toList
      rwa [same] at spelled
  | optional text =>
    have chars : (renderPiece (.optional text)).toList ++ rest =
        '(' :: (text.toList ++ ')' :: rest) := by
      simp [renderPiece, String.toList_append]
    rw [chars] at enough ⊢
    rw [List.length_cons] at enough
    change ∀ c ∈ text.toList, c ≠ '(' ∧ c ≠ ')' at bare
    obtain ⟨n, rfl⟩ := Nat.exists_eq_add_one.2 (show 0 < n by omega)
    obtain ⟨ls, k, m', inner, spelled, room⟩ :=
      scan_opened (m := m.advance ['(']) bare (Nat.le_of_succ_le_succ enough)
    refine ⟨leafOf openRule m ['('] :: ls, k, m', ?_, spelled _ rfl, room⟩
    rw [scan_cut (cut_open _) rfl (List.cons_ne_nil _ _), inner, Stream.prepend_prepend]
    rfl

theorem Canonical.tail {piece : Piece} {others : List Piece} (h : Canonical (piece :: others)) :
    Canonical others where
  bare := (List.forall_mem_cons.1 h.bare).2
  visible := (List.forall_mem_cons.1 h.visible).2
  apart := h.apart.of_cons

theorem Canonical.ends {piece : Piece} {others : List Piece} (h : Canonical (piece :: others)) :
    piece.isOptional ∨
      ∀ c ∈ (others.flatMap fun piece => (renderPiece piece).toList).head?, c = '(' := by
  cases others with
  | nil => exact .inr nofun
  | cons next others =>
    refine (List.isChain_cons_cons.1 h.apart).1.imp_right fun opened => ?_
    cases next with
    | plain text => cases opened
    | optional text =>
      intro c hc
      have first : ('(' : Char) ∈ ((Piece.optional text :: others).flatMap
          fun piece => (renderPiece piece).toList).head? := by
        simp [renderPiece, String.toList_append]
      exact Option.mem_unique hc first

theorem scan_content (h : Canonical content)
    (enough : (content.flatMap fun piece => (renderPiece piece).toList).length ≤ n) :
    ∃ ls p, Rule.scan rules n m (content.flatMap fun piece => (renderPiece piece).toList) =
        ⟨ls.map Leaf.token, .finished p⟩ ∧ Row PieceOf ls content := by
  induction content generalizing n m with
  | nil => exact ⟨[], m.position, by cases n <;> rfl, .nil⟩
  | cons piece others ih =>
    rw [List.flatMap_cons] at enough ⊢
    obtain ⟨ls, k, m', scanned, spelled, room⟩ :=
      scan_piece (m := m) (h.bare piece List.mem_cons_self) (h.visible piece List.mem_cons_self)
        h.ends enough
    obtain ⟨ms, p, others, further⟩ := ih (m := m') h.tail room
    refine ⟨ls ++ ms, p, ?_, .cons spelled further⟩
    rw [scanned, others, List.map_append]
    rfl

theorem toList_render (content : List Piece) :
    (render content).toList = content.flatMap fun piece => (renderPiece piece).toList := by
  rw [render, String.toList_join, List.flatMap_map]

theorem parse_render (h : Canonical content) : parse (render content) = .ok content := by
  have length : (render content).length =
      (content.flatMap fun piece => (renderPiece piece).toList).length := by
    rw [← toList_render, String.length_toList]
  obtain ⟨ls, p, scanned, pieces⟩ := scan_content (m := .start) h (Nat.le_of_eq length.symm)
  have stream : Rule.stream rules (render content) = ⟨ls.map Leaf.token, .finished p⟩ := by
    rw [Rule.stream, toList_render, scanned]
  have accepted : Grammar.parseAll Grammar.noRules Markup.content
      (.ofTokens p (ls.map Leaf.token)) = .ok content :=
    Grammar.parseAll_of_accepts (acceptsRow_pieces pieces).many
  rw [parse, stream, Stream.enter_ofTokens]
  dsimp only
  rw [accepted]
  rfl

end Wordhoard.Markup
