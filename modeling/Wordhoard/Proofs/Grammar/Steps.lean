import Wordhoard.Proofs.Grammar.Acceptance

/-! The constructs of a grammar as steps of a watched run: how each of them ends, and what it refuses on
the way, by what its parts do. -/
namespace Wordhoard.Grammar

variable {κ ν : Type} {τ : ν → Type} {α β : Type} {c next rest : Cursor κ} {a : α} {b : β}
  {ms ns : List (Mismatch κ)}

section Rounds

variable {item : Cursor κ → Watched κ α} {least n : Nat} {most : Option Nat} {values : List α}

theorem watchMany_accepted (round : item c = ⟨.accepted a next, ms⟩)
    (moves : next.remaining < c.remaining) (room : most.all (values.length < ·)) :
    watchMany item least most (n + 1) values c =
      (watchMany item least most n (values ++ [a]) next).after ms := by
  have accepted : (item c).verdict = .accepted a next := by rw [round]
  rw [watchMany, if_pos room, Watched.next_accepted accepted, if_pos moves, round]

theorem watchMany_refused (round : item c = ⟨.refused, ms⟩) (enough : least ≤ values.length)
    (room : most.all (values.length < ·)) :
    watchMany item least most n values c = ⟨.accepted values c, ms⟩ := by
  have refused : (item c).verdict = .refused := by rw [round]
  rw [watchMany, if_pos room, Watched.next_refused refused, if_neg (Nat.not_lt.2 enough), round]
  simp [Watched.after, Watched.accept]

theorem watchMany_full (full : ¬ most.all (values.length < ·)) (enough : least ≤ values.length) :
    watchMany item least most n values c = ⟨.accepted values c, []⟩ := by
  rw [watchMany, if_neg full, watchClose, if_neg (Nat.not_lt.2 enough)]
  rfl

end Rounds

theorem watchEnd_after (w : Watched κ α) : watchEnd (w.after ms) = (watchEnd w).after ms := by
  obtain ⟨verdict, ns⟩ := w
  cases verdict with
  | accepted a rest => cases rest <;> simp [watchEnd, Watched.next, Watched.after]
  | refused => simp [watchEnd, Watched.next, Watched.after]
  | tokenize e => rfl
  | endless => rfl

variable [DecidableEq κ] [TokenKind κ] {call : (n : ν) → Cursor κ → Watched κ (τ n)}
  {g g' : Grammar κ τ α} {h : Grammar κ τ β}

theorem watch_seq (first : watch call g c = ⟨.accepted a next, ms⟩)
    (second : watch call h next = ⟨.accepted b rest, ns⟩) :
    watch call (.seq g h) c = ⟨.accepted (a, b) rest, ms ++ ns⟩ := by
  simp [watch, Watched.next, Watched.after, Watched.accept, first, second]

theorem watch_seq_refused (first : watch call g c = ⟨.refused, ms⟩) :
    watch call (.seq g h) c = ⟨.refused, ms⟩ := by
  simp [watch, Watched.next, Watched.after, Watched.refuse, first]

theorem watch_seq_stopped (first : watch call g c = ⟨.accepted a next, ms⟩)
    (second : watch call h next = ⟨.refused, ns⟩) :
    watch call (.seq g h) c = ⟨.refused, ms ++ ns⟩ := by
  simp [watch, Watched.next, Watched.after, Watched.refuse, first, second]

theorem watch_map (f : α → β) (inner : watch call g c = ⟨.accepted a rest, ms⟩) :
    watch call (.map f g) c = ⟨.accepted (f a) rest, ms⟩ := by
  simp [watch, Watched.next, Watched.after, Watched.accept, inner]

theorem watch_map_refused (f : α → β) (inner : watch call g c = ⟨.refused, ms⟩) :
    watch call (.map f g) c = ⟨.refused, ms⟩ := by
  simp [watch, Watched.next, Watched.after, Watched.refuse, inner]

theorem watch_left (first : watch call g c = ⟨.accepted a rest, ms⟩) :
    watch call (.either g g') c = ⟨.accepted a rest, ms⟩ := by
  simp [watch, Watched.next, Watched.after, Watched.accept, first]

theorem watch_right (first : watch call g c = ⟨.refused, ms⟩) :
    watch call (.either g g') c = (watch call g' c).after ms := by
  simp [watch, Watched.next, first]

variable {p : Text.Position} {t : Token κ} {ts : List (Token κ)} {kind : κ}

def Lacks (kind : κ) (ts : List (Token κ)) : Prop := ∀ t ∈ ts.head?, t.kind ≠ kind

theorem watch_token (same : t.kind = kind) :
    watch call (.token kind) (.ofTokens p (t :: ts)) = ⟨.accepted t (.ofTokens p ts), []⟩ := by
  simp [watch, watchToken, Watched.accept, Cursor.ofTokens, Stream.enter_ofTokens, same]

theorem watch_token_lacking (lacks : Lacks kind ts) :
    watch call (.token kind) (.ofTokens p ts) =
      ⟨.refused, [⟨.ofTokens p ts, TokenKind.describe kind⟩]⟩ := by
  cases ts with
  | nil => rfl
  | cons t ts =>
    have other : t.kind ≠ kind := lacks t rfl
    simp [watch, watchToken, Watched.mismatch, Cursor.ofTokens, other]

theorem watch_opt (same : t.kind = kind) :
    watch call (.opt (.token kind)) (.ofTokens p (t :: ts)) =
      ⟨.accepted (some t) (.ofTokens p ts), []⟩ := by
  have moves : (Cursor.ofTokens p ts).remaining < (Cursor.ofTokens p (t :: ts)).remaining := by simp
  apply watch_map List.head? (a := [t])
  rw [watch, Cursor.remaining_ofTokens, List.length_cons,
    watchMany_accepted (watch_token same) moves rfl, watchMany_full (by simp) (Nat.zero_le _)]
  rfl

theorem watch_opt_lacking (lacks : Lacks kind ts) :
    watch call (.opt (.token kind)) (.ofTokens p ts) =
      ⟨.accepted none (.ofTokens p ts), [⟨.ofTokens p ts, TokenKind.describe kind⟩]⟩ := by
  apply watch_map List.head? (a := [])
  rw [watch, watchMany_refused (watch_token_lacking lacks) (Nat.zero_le _) rfl]

end Wordhoard.Grammar
