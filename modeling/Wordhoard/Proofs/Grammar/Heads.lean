import Wordhoard.Proofs.Grammar.Language

/-! The terminals that a grammar can begin with, if it always takes a token. A grammar refuses a
cursor where none of them fits, and a chain of calls that takes no token is no longer than the names
can be ranked. -/
namespace Wordhoard.Grammar

variable {κ ν : Type} {τ : ν → Type} {α β γ : Type} [DecidableEq κ]

/-- The first terminals of a grammar that takes a token before it accepts, where `named` says them
for the named ones. -/
def heads (named : ν → Option (List (Terminal κ))) :
    {α : Type} → Grammar κ τ α → Option (List (Terminal κ))
  | _, token k => some [.kind k]
  | _, keyword k text => some [.word k text]
  | _, finish => none
  | _, seq p _ => heads named p
  | _, either p q =>
    match heads named p, heads named q with
    | some a, some b => some (a ++ b)
    | _, _ => none
  | _, many _ _ _ => none
  | _, sepBy1 p _ => heads named p
  | _, map _ p => heads named p
  | _, filterMap _ _ p => heads named p
  | _, .named n => named n

def Opens (first : ν → Option (List (Terminal κ))) (n : ν) :
    {α : Type} → Grammar κ τ α → Prop
  | _, token _ => False
  | _, keyword _ _ => False
  | _, finish => False
  | _, seq p q => Opens first n p ∨ heads first p = none ∧ Opens first n q
  | _, either p q => Opens first n p ∨ Opens first n q
  | _, many p _ _ => Opens first n p
  | _, sepBy1 p _ => Opens first n p
  | _, map _ p => Opens first n p
  | _, filterMap _ _ p => Opens first n p
  | _, .named m => m = n

def Avoids (c : Cursor κ) (ts : List (Terminal κ)) : Prop :=
  ∀ t ∈ c.stream.tokens.head?, ∀ T ∈ ts, T.fits t = false

def Terminal.apart : Terminal κ → Terminal κ → Bool
  | kind k, kind l => k ≠ l
  | kind k, word l _ => k ≠ l
  | word k _, kind l => k ≠ l
  | word k a, word l b => k ≠ l || !sameIgnoringCase a b

theorem sameIgnoringCase_trans {a b t : String} (ha : sameIgnoringCase t a)
    (hb : sameIgnoringCase t b) : sameIgnoringCase a b := by
  simp only [sameIgnoringCase, beq_iff_eq] at *
  rw [← ha, hb]

theorem Terminal.fits_of_apart {S T : Terminal κ} (h : S.apart T) {t : Token κ}
    (fits : S.fits t) : T.fits t = false := by
  cases S with
  | kind k => cases T <;> simp_all [Terminal.apart, Terminal.fits]
  | word k a =>
    cases T with
    | kind l => simp_all [Terminal.apart, Terminal.fits]
    | word l b =>
      simp only [Terminal.fits, Bool.and_eq_true, decide_eq_true_eq] at fits
      cases other : (Terminal.word l b).fits t with
      | false => rfl
      | true =>
        simp only [Terminal.fits, Bool.and_eq_true, decide_eq_true_eq] at other
        have same := sameIgnoringCase_trans fits.2 other.2
        simp_all [Terminal.apart]

variable [TokenKind κ]

theorem watchToken_refused {T : Terminal κ} {c : Cursor κ} (avoids : Avoids c [T]) :
    (watchToken T.fits T.description c).verdict = .refused := by
  cases c with
  | finished p => rfl
  | token t next =>
    have misfit : T.fits t = false := avoids t rfl T (List.mem_singleton.2 rfl)
    simp only [watchToken, misfit, Bool.false_eq_true, if_false]
    rfl

theorem refused_of_avoids {first : ν → Option (List (Terminal κ))}
    {call : (n : ν) → Cursor κ → Watched κ (τ n)} {c : Cursor κ}
    (calls : ∀ n ts, first n = some ts → Avoids c ts → (call n c).verdict = .refused)
    (g : Grammar κ τ α) {ts : List (Terminal κ)} (begins : heads first g = some ts) (avoids : Avoids c ts) :
    (watch call g c).verdict = .refused := by
  induction g generalizing ts with
  | token k => cases begins; exact watchToken_refused (T := .kind k) avoids
  | keyword k text => cases begins; exact watchToken_refused (T := .word k text) avoids
  | finish => cases begins
  | seq p q ihp ihq => exact Watched.verdict_next_refused (ihp begins avoids) _ _
  | either p q ihp ihq =>
    simp only [heads] at begins
    split at begins
    · rename_i a b ha hb
      cases begins
      have left := ihp ha fun t ht T hT => avoids t ht T (List.mem_append_left _ hT)
      have right := ihq hb fun t ht T hT => avoids t ht T (List.mem_append_right _ hT)
      exact (Watched.verdict_next_refused left _ _).trans right
    · cases begins
  | many p least most ih => cases begins
  | sepBy1 p s ihp ihs => exact Watched.verdict_next_refused (ihp begins avoids) _ _
  | map f p ih => exact Watched.verdict_next_refused (ih begins avoids) _ _
  | filterMap description f p ih => exact Watched.verdict_next_refused (ih begins avoids) _ _
  | named n => exact calls n ts begins avoids

omit [TokenKind κ] in
theorem ne_nil_of_means {named : (n : ν) → List (Leaf κ) → τ n → Prop}
    {first : ν → Option (List (Terminal κ))} (h : ∀ n ls v, named n ls v → ls ≠ []) {g : Grammar κ τ α}
    (begins : (heads first g).isSome) {ls : List (Leaf κ)} {v : α} (derived : Means named g ls v) :
    ls ≠ [] := by
  induction g generalizing ls with
  | token k => obtain ⟨l, rfl, -⟩ := derived; exact List.cons_ne_nil _ _
  | keyword k text => obtain ⟨l, rfl, -⟩ := derived; exact List.cons_ne_nil _ _
  | finish => cases begins
  | seq p q ihp ihq =>
    obtain ⟨ms, ns, rfl, first, -⟩ := derived
    exact List.append_ne_nil_of_left_ne_nil (ihp begins first) _
  | either p q ihp ihq =>
    simp only [heads] at begins
    split at begins
    · rename_i a b ha hb
      rcases derived with left | right
      · exact ihp (by rw [ha]; rfl) left
      · exact ihq (by rw [hb]; rfl) right
    · cases begins
  | many p least most ih => cases begins
  | sepBy1 p s ihp ihs =>
    obtain ⟨ms, ns, v, ws, rfl, -, first, -⟩ := derived
    exact List.append_ne_nil_of_left_ne_nil (ihp begins first) _
  | map f p ih => obtain ⟨a, derived, -⟩ := derived; exact ih begins derived
  | filterMap description f p ih => obtain ⟨a, derived, -⟩ := derived; exact ih begins derived
  | named n => exact h n _ _ derived

end Wordhoard.Grammar
