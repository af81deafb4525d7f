import Wordhoard.Proofs.Grammar.Heads
import Wordhoard.Proofs.Grammar.Summary

/-! How a run finds a derivation: what each construct of a grammar asks for to accept just the
leaves of a derivation, when certain tokens come after them. -/
namespace Wordhoard

def Cursor.ofTokens {κ : Type} (p : Text.Position) : List (Token κ) → Cursor κ
  | [] => .finished p
  | t :: ts => .token t ⟨ts, .finished p⟩

theorem Stream.enter_ofTokens {κ : Type} (p : Text.Position) (ts : List (Token κ)) :
    (⟨ts, .finished p⟩ : Stream κ).enter = .ok (.ofTokens p ts) := by
  cases ts <;> rfl

@[simp] theorem Cursor.stream_ofTokens {κ : Type} (p : Text.Position) (ts : List (Token κ)) :
    (Cursor.ofTokens p ts).stream = ⟨ts, .finished p⟩ := by
  cases ts <;> rfl

@[simp] theorem Cursor.remaining_ofTokens {κ : Type} (p : Text.Position) (ts : List (Token κ)) :
    (Cursor.ofTokens p ts).remaining = ts.length := by
  rw [← Cursor.length_tokens, Cursor.stream_ofTokens]

namespace Grammar

variable {κ ν : Type} {τ : ν → Type} {α β γ : Type} [DecidableEq κ] [TokenKind κ]

/-- The grammar takes just these leaves for the value, when the other tokens come after them. -/
def Accepts (call : (n : ν) → Cursor κ → Watched κ (τ n)) (p : Text.Position)
    (g : Grammar κ τ α) (ls : List (Leaf κ)) (rest : List (Token κ)) (v : α) : Prop :=
  (watch call g (.ofTokens p (ls.map Leaf.token ++ rest))).verdict =
    .accepted v (.ofTokens p rest)

def Refuses (call : (n : ν) → Cursor κ → Watched κ (τ n)) (p : Text.Position)
    (g : Grammar κ τ α) (rest : List (Token κ)) : Prop :=
  (watch call g (.ofTokens p rest)).verdict = .refused

variable {call : (n : ν) → Cursor κ → Watched κ (τ n)} {p : Text.Position}
  {rest : List (Token κ)}

theorem accepts_terminal {l : Leaf κ} {T : Terminal κ} (h : l.terminal = T) :
    (watchToken T.fits T.description (.ofTokens p (l.token :: rest))).verdict =
      .accepted l.token (.ofTokens p rest) := by
  subst h
  simp only [Cursor.ofTokens, watchToken, l.fits, if_true, Stream.enter_ofTokens]
  rfl

theorem accepts_token {l : Leaf κ} {k : κ} (h : l.terminal = .kind k) :
    Accepts call p (.token k) [l] rest l.token :=
  accepts_terminal h

theorem accepts_keyword {l : Leaf κ} {k : κ} {text : String} (h : l.terminal = .word k text) :
    Accepts call p (.keyword k text) [l] rest l.token :=
  accepts_terminal h

theorem Accepts.seq {g : Grammar κ τ α} {g' : Grammar κ τ β} {ls ms : List (Leaf κ)} {a : α}
    {b : β} (first : Accepts call p g ls (ms.map Leaf.token ++ rest) a)
    (second : Accepts call p g' ms rest b) :
    Accepts call p (.seq g g') (ls ++ ms) rest (a, b) := by
  unfold Accepts at *
  rw [List.map_append, List.append_assoc]
  exact (Watched.verdict_next_accepted first _ _).trans
    (Watched.verdict_next_accepted second _ _)

theorem Accepts.left {g g' : Grammar κ τ α} {ls : List (Leaf κ)} {v : α}
    (h : Accepts call p g ls rest v) : Accepts call p (.either g g') ls rest v :=
  Watched.verdict_next_accepted h _ _

theorem Accepts.right {g g' : Grammar κ τ α} {ls : List (Leaf κ)} {v : α}
    (h : Accepts call p g' ls rest v) (refused : Refuses call p g (ls.map Leaf.token ++ rest)) :
    Accepts call p (.either g g') ls rest v :=
  (Watched.verdict_next_refused refused _ _).trans h

theorem Accepts.map {g : Grammar κ τ α} {ls : List (Leaf κ)} {v : α}
    (h : Accepts call p g ls rest v) (f : α → β) : Accepts call p (.map f g) ls rest (f v) :=
  Watched.verdict_next_accepted h _ _

theorem Accepts.filterMap {g : Grammar κ τ α} {ls : List (Leaf κ)} {v : α} {f : α → Option β}
    {b : β} (h : Accepts call p g ls rest v) (description : String) (hf : f v = some b) :
    Accepts call p (.filterMap description f g) ls rest b := by
  unfold Accepts
  rw [watch, Watched.verdict_next_accepted h, hf]
  rfl

theorem Accepts.preceded {g : Grammar κ τ α} {g' : Grammar κ τ β} {ls ms : List (Leaf κ)} {a : α}
    {b : β} (first : Accepts call p g ls (ms.map Leaf.token ++ rest) a)
    (second : Accepts call p g' ms rest b) : Accepts call p (.preceded g g') (ls ++ ms) rest b :=
  (first.seq second).map Prod.snd

theorem accepts_many_nil {g : Grammar κ τ α} (most : Option Nat) (h : Refuses call p g rest)
    (room : most.all (0 < ·)) : Accepts call p (.many g 0 most) [] rest [] := by
  unfold Accepts watch watchMany
  split
  · exact Watched.verdict_next_refused h _ _
  · rename_i full
    exact absurd room full

theorem accepts_opt_none {g : Grammar κ τ α} (h : Refuses call p g rest) :
    Accepts call p (.opt g) [] rest none :=
  (accepts_many_nil (some 1) h rfl).map List.head?

theorem Accepts.opt {g : Grammar κ τ α} {ls : List (Leaf κ)} {v : α}
    (h : Accepts call p g ls rest v) : Accepts call p (.opt g) ls rest (some v) := by
  have turn : Accepts call p (.many g 0 (some 1)) ls rest [v] := by
    unfold Accepts watch watchMany
    split
    · rw [Watched.verdict_next_accepted h]
      split
      · split
        · unfold watchMany
          rfl
        · rfl
      · rfl
    · rename_i full
      exact absurd rfl full
  exact turn.map List.head?

def AcceptsRow (call : (n : ν) → Cursor κ → Watched κ (τ n)) (p : Text.Position)
    (g : Grammar κ τ α) (ls : List (Leaf κ)) (rest : List (Token κ)) (vs : List α) : Prop :=
  ∀ rounds values, ls.length + rest.length ≤ rounds →
    (watchMany (watch call g) 0 none rounds values
      (.ofTokens p (ls.map Leaf.token ++ rest))).verdict =
      .accepted (values ++ vs) (.ofTokens p rest)

theorem AcceptsRow.nil {g : Grammar κ τ α} (h : Refuses call p g rest) :
    AcceptsRow call p g [] rest [] := by
  intro rounds values _
  unfold watchMany
  simp only [Option.all_none, if_true, List.append_nil]
  exact Watched.verdict_next_refused h _ _

theorem AcceptsRow.cons {g : Grammar κ τ α} {ls ms : List (Leaf κ)} {v : α} {vs : List α}
    (first : Accepts call p g ls (ms.map Leaf.token ++ rest) v) (nonempty : ls ≠ [])
    (others : AcceptsRow call p g ms rest vs) :
    AcceptsRow call p g (ls ++ ms) rest (v :: vs) := by
  intro rounds values enough
  have length := List.length_pos_iff.2 nonempty
  rw [List.length_append] at enough
  unfold watchMany
  rw [List.map_append, List.append_assoc]
  simp only [Option.all_none, if_true]
  rw [Watched.verdict_next_accepted first, if_pos]
  · cases rounds with
    | zero => omega
    | succ n => simpa [List.append_assoc] using others n (values ++ [v]) (by omega)
  · simp only [Cursor.remaining_ofTokens, List.length_append, List.length_map]
    omega

theorem AcceptsRow.many {g : Grammar κ τ α} {ls : List (Leaf κ)} {vs : List α}
    (h : AcceptsRow call p g ls rest vs) : Accepts call p (.many g 0 none) ls rest vs :=
  h _ [] (by simp)

def AcceptsSeparated (call : (n : ν) → Cursor κ → Watched κ (τ n)) (p : Text.Position)
    (g : Grammar κ τ α) (s : Grammar κ τ β) (ls : List (Leaf κ)) (rest : List (Token κ))
    (vs : List α) : Prop :=
  ∀ rounds values, ls.length + rest.length ≤ rounds →
    (watchSeparated (watch call g) (watch call s) rounds values
      (.ofTokens p (ls.map Leaf.token ++ rest))).verdict =
      .accepted (values ++ vs) (.ofTokens p rest)

theorem AcceptsSeparated.nil {g : Grammar κ τ α} {s : Grammar κ τ β}
    (h : Refuses call p s rest) : AcceptsSeparated call p g s [] rest [] := by
  intro rounds values _
  unfold watchSeparated
  rw [List.append_nil]
  exact Watched.verdict_next_refused h _ _

theorem AcceptsSeparated.given_back {g : Grammar κ τ α} {s : Grammar κ τ β} {l : Leaf κ} {w : β}
    (separator : Accepts call p s [l] rest w) (h : Refuses call p g rest) :
    AcceptsSeparated call p g s [] (l.token :: rest) [] := by
  intro rounds values _
  unfold watchSeparated
  rw [List.append_nil]
  exact (Watched.verdict_next_accepted separator _ _).trans (Watched.verdict_next_refused h _ _)

theorem AcceptsSeparated.cons {g : Grammar κ τ α} {s : Grammar κ τ β} {l : Leaf κ}
    {ls ms : List (Leaf κ)} {w : β} {v : α} {vs : List α}
    (separator : Accepts call p s [l] (ls.map Leaf.token ++ (ms.map Leaf.token ++ rest)) w)
    (item : Accepts call p g ls (ms.map Leaf.token ++ rest) v)
    (others : AcceptsSeparated call p g s ms rest vs) :
    AcceptsSeparated call p g s (l :: ls ++ ms) rest (v :: vs) := by
  intro rounds values enough
  simp only [List.length_append, List.length_cons] at enough
  unfold watchSeparated
  have cursor : (l :: ls ++ ms).map Leaf.token ++ rest =
      [l].map Leaf.token ++ (ls.map Leaf.token ++ (ms.map Leaf.token ++ rest)) := by simp
  rw [cursor, Watched.verdict_next_accepted separator, Watched.verdict_next_accepted item, if_pos]
  · cases rounds with
    | zero => omega
    | succ n => simpa [List.append_assoc] using others n (values ++ [v]) (by omega)
  · simp only [Cursor.remaining_ofTokens, List.length_append, List.length_map, List.length_cons]
    omega

theorem Accepts.sepBy1 {g : Grammar κ τ α} {s : Grammar κ τ β} {ls ms : List (Leaf κ)} {v : α}
    {vs : List α} (first : Accepts call p g ls (ms.map Leaf.token ++ rest) v)
    (others : AcceptsSeparated call p g s ms rest vs) :
    Accepts call p (.sepBy1 g s) (ls ++ ms) rest (v :: vs) := by
  unfold Accepts watch
  rw [List.map_append, List.append_assoc, Watched.verdict_next_accepted first]
  exact others _ [v] (by simp)

theorem parseAll_of_accepts {rules : Rules κ τ} {g : Grammar κ τ α} {ls : List (Leaf κ)} {v : α}
    (h : Accepts (rules.watchCall (rules.depth (.ofTokens p (ls.map Leaf.token)))) p g ls [] v) :
    parseAll rules g (.ofTokens p (ls.map Leaf.token)) = .ok v := by
  rw [Accepts, List.append_nil] at h
  obtain ⟨furthest, run⟩ := (reports_run rules _ g _).eq_ok h
  rw [parseAll, Grammar.run, run]
  rfl

omit [DecidableEq κ] [TokenKind κ] in
theorem requireEnd_eq_ok {o : Outcome κ α} {v : α} (h : requireEnd o = .ok v) :
    ∃ p furthest, o = .ok ⟨v, .finished p, furthest⟩ := by
  cases o with
  | error f => cases h
  | ok parsed =>
    obtain ⟨w, rest, furthest⟩ := parsed
    cases rest with
    | token t next => cases h
    | finished p => cases h; exact ⟨p, furthest, rfl⟩

theorem accepted_of_parseAll {rules : Rules κ τ} {g : Grammar κ τ α} {c : Cursor κ} {v : α}
    (h : parseAll rules g c = .ok v) :
    ∃ p, (watch (rules.watchCall (rules.depth c)) g c).verdict = .accepted v (.finished p) := by
  obtain ⟨p, furthest, run⟩ := requireEnd_eq_ok h
  have reports := reports_run rules (rules.depth c) g c
  rw [Grammar.run] at run
  rw [run] at reports
  exact ⟨p, reports.1⟩

theorem refuses_of_avoids {g : Grammar κ τ α} {ts : List (Terminal κ)}
    (begins : heads (fun _ => none) g = some ts) (avoids : Avoids (.ofTokens p rest) ts) :
    Refuses call p g rest :=
  refused_of_avoids (fun _ _ h => by cases h) g begins avoids

def shuns (g : Grammar κ τ α) (T : Terminal κ) : Bool :=
  (heads (fun _ => none) g).any fun ts => ts.all T.apart

theorem refuses_of_shuns {g : Grammar κ τ α} {l : Leaf κ} {T : Terminal κ} (h : l.terminal = T)
    (shuns : g.shuns T) : Refuses call p g (l.token :: rest) := by
  obtain ⟨ts, begins, apart⟩ := (Option.any_eq_true _ _).1 shuns
  refine refuses_of_avoids begins fun t ht S hS => ?_
  cases ht
  subst h
  exact Terminal.fits_of_apart (List.all_eq_true.1 apart S hS) l.fits

end Grammar

end Wordhoard
