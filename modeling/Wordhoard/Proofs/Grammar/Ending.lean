import Wordhoard.Proofs.Grammar.Heads

/-! A run ends when the calls that take no token can be ranked. Main statement: as many calls inside
each other as `Rules.depth` allows are enough. -/
namespace Wordhoard.Grammar

variable {κ ν : Type} {τ : ν → Type} {α β γ : Type}

def Moves [DecidableEq κ] (first : ν → Option (List (Terminal κ))) :
    {α : Type} → Grammar κ τ α → Prop
  | _, token _ => True
  | _, keyword _ _ => True
  | _, finish => True
  | _, seq p q => Moves first p ∧ Moves first q
  | _, either p q => Moves first p ∧ Moves first q
  | _, many p _ _ => Moves first p
  | _, sepBy1 p s => Moves first p ∧ Moves first s ∧ (heads first p).isSome
  | _, map _ p => Moves first p
  | _, filterMap _ _ p => Moves first p
  | _, .named _ => True

theorem accepted_ne_endless (v : α) (rest : Cursor κ) : Verdict.accepted v rest ≠ .endless := nofun

theorem refused_ne_endless : (Verdict.refused : Verdict κ α) ≠ .endless := nofun

theorem tokenize_ne_endless (e : TokenizeError) : (Verdict.tokenize e : Verdict κ α) ≠ .endless :=
  nofun

theorem Watched.verdict_next_ne_endless {w : Watched κ α} (h : w.verdict ≠ .endless)
    {k : α → Cursor κ → Watched κ β} {r : Watched κ β}
    (accepted : ∀ v rest, w.verdict = .accepted v rest → (k v rest).verdict ≠ .endless)
    (refused : r.verdict ≠ .endless) : (w.next k r).verdict ≠ .endless := by
  cases verdict : w.verdict with
  | accepted v rest =>
    rw [Watched.next_accepted verdict]
    exact accepted v rest verdict
  | refused =>
    rw [Watched.next_refused verdict]
    exact refused
  | tokenize e =>
    rw [Watched.next_tokenize verdict]
    exact tokenize_ne_endless e
  | endless => exact absurd verdict h

theorem watchToken_ne_endless (fits : Token κ → Bool) (description : String) (c : Cursor κ) :
    (watchToken fits description c).verdict ≠ .endless := by
  cases c with
  | finished p => exact refused_ne_endless
  | token t next =>
    unfold watchToken
    dsimp only
    split
    · split
      · exact accepted_ne_endless _ _
      · exact tokenize_ne_endless _
    · exact refused_ne_endless

theorem watchClose_ne_endless (least : Nat) (values : List α) (rest : Cursor κ) :
    (watchClose least values rest).verdict ≠ .endless := by
  unfold watchClose
  split
  · exact refused_ne_endless
  · exact accepted_ne_endless _ _

theorem watchMany_ne_endless {item : Cursor κ → Watched κ α} (least : Nat) (most : Option Nat)
    (rounds : Nat) (values : List α) {rest : Cursor κ}
    (h : ∀ c, c.remaining ≤ rest.remaining → (item c).verdict ≠ .endless) :
    (watchMany item least most rounds values rest).verdict ≠ .endless := by
  unfold watchMany
  split
  · refine Watched.verdict_next_ne_endless (h rest (Nat.le_refl _)) (fun v rest' _ => ?_) ?_
    · split
      · rename_i moved
        cases rounds with
        | zero => exact watchClose_ne_endless _ _ _
        | succ n =>
          exact watchMany_ne_endless least most n _ fun c hc =>
            h c (Nat.le_trans hc (Nat.le_of_lt moved))
      · exact watchClose_ne_endless _ _ _
    · split
      · exact refused_ne_endless
      · exact accepted_ne_endless _ _
  · exact watchClose_ne_endless _ _ _
termination_by rounds

theorem watchSeparated_ne_endless {item : Cursor κ → Watched κ α}
    {separator : Cursor κ → Watched κ β} (rounds : Nat) (values : List α) {rest : Cursor κ}
    (enough : rest.remaining ≤ rounds)
    (h : ∀ c, c.remaining ≤ rest.remaining → (item c).verdict ≠ .endless)
    (hs : ∀ c, c.remaining ≤ rest.remaining → (separator c).verdict ≠ .endless)
    (moves : ∀ c v c', (item c).verdict = .accepted v c' → c'.remaining < c.remaining)
    (stays : ∀ c v c', (separator c).verdict = .accepted v c' → c'.remaining ≤ c.remaining) :
    (watchSeparated item separator rounds values rest).verdict ≠ .endless := by
  unfold watchSeparated
  refine Watched.verdict_next_ne_endless (hs rest (Nat.le_refl _)) (fun b between sep => ?_)
    (accepted_ne_endless _ _)
  have near := stays rest b between sep
  refine Watched.verdict_next_ne_endless (h between near) (fun v rest' one => ?_)
    (accepted_ne_endless _ _)
  have moved : rest'.remaining < rest.remaining := Nat.lt_of_lt_of_le (moves _ _ _ one) near
  rw [if_pos moved]
  cases rounds with
  | zero => omega
  | succ n =>
    exact watchSeparated_ne_endless n _ (by omega) (fun c hc => h c (by omega))
      (fun c hc => hs c (by omega)) moves stays
termination_by rounds

variable [DecidableEq κ] [TokenKind κ] {first : ν → Option (List (Terminal κ))}
  {named : (n : ν) → List (Leaf κ) → τ n → Prop} {call : (n : ν) → Cursor κ → Watched κ (τ n)}

structure Calm (first : ν → Option (List (Terminal κ))) (call : (n : ν) → Cursor κ → Watched κ (τ n))
    (g : Grammar κ τ α) (c : Cursor κ) : Prop where
  near : ∀ n c', Opens first n g → c'.remaining ≤ c.remaining → (call n c').verdict ≠ .endless
  far : ∀ n c', c'.remaining < c.remaining → (call n c').verdict ≠ .endless

omit [DecidableEq κ] [TokenKind κ] in
theorem Calm.back {g : Grammar κ τ α} {g' : Grammar κ τ β} {c c' : Cursor κ}
    (h : Calm first call g c) (le : c'.remaining ≤ c.remaining)
    (opens : ∀ n, Opens first n g' → Opens first n g) : Calm first call g' c' where
  near n d o hd := h.near n d (opens n o) (Nat.le_trans hd le)
  far n d hd := h.far n d (Nat.lt_of_lt_of_le hd le)

omit [DecidableEq κ] [TokenKind κ] in
theorem Calm.further {g : Grammar κ τ α} {g' : Grammar κ τ β} {c c' : Cursor κ}
    (h : Calm first call g c) (lt : c'.remaining < c.remaining) : Calm first call g' c' where
  near n d _ hd := h.far n d (Nat.lt_of_le_of_lt hd lt)
  far n d hd := h.far n d (Nat.lt_trans hd lt)

theorem remaining_le {S : List (Leaf κ) → α → Prop} {w : Watched κ α} {c rest : Cursor κ} {v : α}
    (h : Follows S c w) (accepted : w.verdict = .accepted v rest) :
    rest.remaining ≤ c.remaining := by
  obtain ⟨ls, passes, -⟩ := h.accepted v rest accepted
  have := passes.remaining
  omega

theorem remaining_lt {S : List (Leaf κ) → α → Prop} {w : Watched κ α} {c rest : Cursor κ} {v : α}
    (h : Follows S c w) (nonempty : ∀ ls v, S ls v → ls ≠ [])
    (accepted : w.verdict = .accepted v rest) : rest.remaining < c.remaining := by
  obtain ⟨ls, passes, derived⟩ := h.accepted v rest accepted
  have := List.length_pos_iff.2 (nonempty ls v derived)
  have := passes.remaining
  omega

theorem watch_ne_endless (follows : ∀ n c, Follows (named n) c (call n c))
    (nonempty : ∀ n ls v, named n ls v → ls ≠ []) (g : Grammar κ τ α) (plain : Plain named g)
    (moves : Moves first g) {c : Cursor κ} (calm : Calm first call g c) :
    (watch call g c).verdict ≠ .endless := by
  induction g generalizing c with
  | token k => exact watchToken_ne_endless _ _ c
  | keyword k text => exact watchToken_ne_endless _ _ c
  | finish => exact plain.elim
  | seq p q ihp ihq =>
    have followed := follows_watch follows p plain.1 c
    refine Watched.verdict_next_ne_endless
      (ihp plain.1 moves.1 (calm.back (Nat.le_refl _) fun n => .inl)) (fun a rest taken => ?_)
      refused_ne_endless
    refine Watched.verdict_next_ne_endless (ihq plain.2.1 moves.2 ?_) (fun b rest' _ => ?_)
      refused_ne_endless
    -- behind a part that takes a token all is calm, and the rest opens no more than the whole
    · by_cases head : heads first p = none
      · exact calm.back (remaining_le followed taken) fun n opens => .inr ⟨head, opens⟩
      · have begins : (heads first p).isSome := Option.isSome_iff_ne_none.2 head
        exact calm.further (remaining_lt followed
          (fun ls v => ne_nil_of_means nonempty begins) taken)
    · exact accepted_ne_endless _ _
  | either p q ihp ihq =>
    exact Watched.verdict_next_ne_endless
      (ihp plain.1 moves.1 (calm.back (Nat.le_refl _) fun n => .inl))
      (fun a rest _ => accepted_ne_endless _ _)
      (ihq plain.2 moves.2 (calm.back (Nat.le_refl _) fun n => .inr))
  | many p least most ih =>
    exact watchMany_ne_endless least most _ [] fun c' hc =>
      ih plain.1 moves (calm.back hc fun n => id)
  | sepBy1 p s ihp ihs =>
    obtain ⟨movesp, movess, begins⟩ := moves
    have moved : ∀ c v c', (watch call p c).verdict = .accepted v c' →
        c'.remaining < c.remaining := fun c v c' =>
      remaining_lt (follows_watch follows p plain.1 c) fun ls v => ne_nil_of_means nonempty begins
    refine Watched.verdict_next_ne_endless
      (ihp plain.1 movesp (calm.back (Nat.le_refl _) fun n => id)) (fun a rest taken => ?_)
      refused_ne_endless
    have behind := moved _ _ _ taken
    exact watchSeparated_ne_endless _ _ (Nat.le_refl _)
      (fun c' hc => ihp plain.1 movesp (calm.further (Nat.lt_of_le_of_lt hc behind)))
      (fun c' hc => ihs plain.2.1 movess (calm.further (Nat.lt_of_le_of_lt hc behind)))
      moved (fun c v c' => remaining_le (follows_watch follows s plain.2.1 c))
  | map f p ih =>
    exact Watched.verdict_next_ne_endless (ih plain moves (calm.back (Nat.le_refl _) fun n => id))
      (fun a rest _ => accepted_ne_endless _ _) refused_ne_endless
  | filterMap description f p ih =>
    cases p with
    | token k =>
      refine Watched.verdict_next_ne_endless
        (ih trivial trivial (calm.back (Nat.le_refl _) fun n => id))
        (fun a rest _ => ?_) refused_ne_endless
      split
      · exact accepted_ne_endless _ _
      · exact refused_ne_endless
    | _ => exact plain.elim
  | named n => exact calm.near n c rfl (Nat.le_refl _)

variable {rules : Rules κ τ} {rank : ν → Nat}

/-- A call within a body either stands behind a token or has a lower rank. -/
theorem watchCall_ne_endless
    (closed : ∀ n ls v, Means named (rules.body n) ls v → named n ls v)
    (plain : ∀ n, Plain named (rules.body n)) (moves : ∀ n, Moves first (rules.body n))
    (nonempty : ∀ n ls v, named n ls v → ls ≠ [])
    (ranked : ∀ n m, Opens first m (rules.body n) → rank m < rank n)
    (bounded : ∀ n, rank n < rules.count) (depth : Nat) (n : ν) (c : Cursor κ)
    (enough : rules.count * c.remaining + rank n < depth) :
    (rules.watchCall depth n c).verdict ≠ .endless := by
  induction depth generalizing n c with
  | zero => omega
  | succ depth ih =>
    refine watch_ne_endless (follows_call closed plain depth) nonempty (rules.body n) (plain n)
      (moves n) ⟨fun m c' opens hc => ih m c' ?_, fun m c' hc => ih m c' ?_⟩
    · have := Nat.mul_le_mul_left rules.count hc
      have := ranked n m opens
      omega
    · have := Nat.mul_le_mul_left rules.count (Nat.succ_le_of_lt hc)
      have := bounded m
      rw [Nat.mul_succ] at *
      omega

theorem watch_call_ne_endless
    (closed : ∀ n ls v, Means named (rules.body n) ls v → named n ls v)
    (plain : ∀ n, Plain named (rules.body n)) (moves : ∀ n, Moves first (rules.body n))
    (nonempty : ∀ n ls v, named n ls v → ls ≠ [])
    (ranked : ∀ n m, Opens first m (rules.body n) → rank m < rank n)
    (bounded : ∀ n, rank n < rules.count) (g : Grammar κ τ α) (plain_g : Plain named g)
    (moves_g : Moves first g) (c : Cursor κ) :
    (watch (rules.watchCall (rules.depth c)) g c).verdict ≠ .endless := by
  have calls : ∀ n c', c'.remaining ≤ c.remaining →
      (rules.watchCall (rules.depth c) n c').verdict ≠ .endless := fun n c' hc => by
    refine watchCall_ne_endless closed plain moves nonempty ranked bounded _ n c' ?_
    have := Nat.mul_le_mul_left rules.count hc
    have := bounded n
    rw [Rules.depth, Nat.mul_succ]
    omega
  exact watch_ne_endless (follows_call closed plain _) nonempty g plain_g moves_g
    ⟨fun n c' _ hc => calls n c' hc, fun n c' hc => calls n c' (Nat.le_of_lt hc)⟩

end Wordhoard.Grammar
