import Mathlib.Data.List.Chain
import Wordhoard.Proofs.Grammar.Parallel
import Wordhoard.Proofs.Query.Shape

/-! Which terminals of a query stand side by side. A bare word only stands behind a colon, where no
keyword stands, so one token is never read as both. -/
namespace Wordhoard.Query

open Grammar (Leaf Terminal Row Uses)

variable {ls ms : List (Leaf Kind)} {l : Leaf Kind}

def Known : Terminal Kind → Prop
  | .kind _ => True
  | .word kind word => kind = .ident ∧ word ∈ keywords

def Adjoins (a b : Leaf Kind) : Prop :=
  (IsKind .ident b → IsKind .colon a) ∧ (IsKind .colon a → ∀ k word, b.terminal ≠ .word k word)

structure Neat (ls : List (Leaf Kind)) : Prop where
  known : ∀ l ∈ ls, Known l.terminal
  chain : ls.IsChain Adjoins
  first : ∀ l ∈ ls.head?, ¬ IsKind .ident l
  last : ∀ l ∈ ls.getLast?, ¬ IsKind .colon l

theorem Neat.nil : Neat [] where
  known l hl := by cases hl
  chain := .nil
  first l hl := by cases hl
  last l hl := by cases hl

theorem Neat.append (h : Neat ls) (h' : Neat ms) : Neat (ls ++ ms) where
  known l hl := (List.mem_append.1 hl).elim (h.known l) (h'.known l)
  chain := by
    refine List.isChain_append.2 ⟨h.chain, h'.chain, fun a ha b hb => ⟨fun ident => ?_, fun colon => ?_⟩⟩
    · exact absurd ident (h'.first b hb)
    · exact absurd colon (h.last a ha)
  first l hl := by
    cases ls with
    | nil => exact h'.first l hl
    | cons a others => exact h.first l hl
  last l hl := by
    rw [List.getLast?_append, Option.mem_def, Option.or_eq_some_iff] at hl
    rcases hl with later | ⟨-, earlier⟩
    · exact h'.last l later
    · exact h.last l earlier

theorem neat_leaf (known : Known l.terminal) (ident : ¬ IsKind .ident l) (colon : ¬ IsKind .colon l) :
    Neat [l] where
  known := List.forall_mem_singleton.2 known
  chain := .singleton l
  first := by rintro _ ⟨⟩; exact ident
  last := by rintro _ ⟨⟩; exact colon

theorem neat_word {word : String} (h : IsWord word l) (listed : word ∈ keywords) : Neat [l] := by
  refine neat_leaf ?_ ?_ ?_
  · rw [h]; exact ⟨rfl, listed⟩
  · rw [IsKind, h]; exact nofun
  · rw [IsKind, h]; exact nofun

theorem neat_kind {kind : Kind} (h : IsKind kind l) (ident : kind ≠ .ident) (colon : kind ≠ .colon) :
    Neat [l] := by
  refine neat_leaf ?_ ?_ ?_
  · rw [h]; trivial
  · rw [IsKind, h]; rintro ⟨⟩; exact ident rfl
  · rw [IsKind, h]; rintro ⟨⟩; exact colon rfl

theorem neat_listed {β : Type} {table : List (String × β)} {word : String} {v : β}
    (listed : (word, v) ∈ table) (named : IsWord word l)
    (all : table.all fun entry => entry.1 ∈ keywords) : Neat [l] :=
  neat_word named (of_decide_eq_true (List.all_eq_true.1 all _ listed))

theorem neat_word_or_kind {word : String} {kind : Kind} (h : IsWord word l ∨ IsKind kind l)
    (listed : word ∈ keywords) (ident : kind ≠ .ident) (colon : kind ≠ .colon) : Neat [l] :=
  h.elim (neat_word · listed) (neat_kind · ident colon)

theorem neat_predicate {c : Condition} (h : Predicate ls c) : Neat ls := by
  cases h with
  | all every =>
    rcases every with star | word
    · exact neat_kind star nofun nofun
    · exact neat_word word (by decide)
  | reviewed word => exact neat_word word (by decide)
  | tag tag => exact neat_kind tag nofun nofun
  | @field name colon value word text make listed named separated sought =>
    have name : Neat [name] := neat_listed listed named (by decide)
    have valued : Known value.terminal ∧ ¬ IsKind .colon value ∧
        ∀ k word, value.terminal ≠ .word k word := by
      cases sought with
      | string h => rw [IsKind, h]; exact ⟨trivial, nofun, nofun⟩
      | ident h => rw [IsKind, h]; exact ⟨trivial, nofun, nofun⟩
      | number h => rw [IsKind, h]; exact ⟨trivial, nofun, nofun⟩
    obtain ⟨known, last, wordless⟩ := valued
    have ident : ¬ IsKind .ident colon := by rw [IsKind, separated]; exact nofun
    have fieldname : ¬ IsKind .colon _ := name.last _ rfl
    refine ⟨?_, ?_, name.first, ?_⟩
    · have colon : Known colon.terminal := by rw [separated]; trivial
      exact List.forall_mem_cons.2 ⟨name.known _ List.mem_cons_self,
        List.forall_mem_cons.2 ⟨colon, List.forall_mem_singleton.2 known⟩⟩
    · exact .cons_cons ⟨fun h => absurd h ident, fun h => absurd h fieldname⟩
        (.cons_cons ⟨fun _ => separated, fun _ => wordless⟩ (.singleton _))
    · rintro _ ⟨⟩
      exact last
  | compare listed named compared known bound =>
    exact (neat_listed listed named (by decide)).append
      ((neat_kind compared nofun nofun).append (neat_kind bound.digits nofun nofun))

theorem neat_links {links : List Link} (operators : ∀ k ∈ links, Neat [k.operator])
    (operands : ∀ k ∈ links, Neat k.operand) : Neat (links.flatMap Link.leaves) := by
  induction links with
  | nil => exact .nil
  | cons k others ih =>
    obtain ⟨operator, operators⟩ := List.forall_mem_cons.1 operators
    obtain ⟨operand, operands⟩ := List.forall_mem_cons.1 operands
    exact (operator.append operand).append (ih operators operands)

theorem neat_derives {level : Level} {c : Condition} (h : Derives level ls c) : Neat ls := by
  induction h with
  | expr _ operators _ first operands =>
    exact first.append (neat_links (fun k hk => neat_word (operators k hk) (by decide)) operands)
  | conjunction _ operators _ first operands =>
    exact first.append (neat_links
      (fun k hk => neat_word_or_kind (operators k hk) (by decide) nofun nofun) operands)
  | not negation _ ih => exact (neat_word_or_kind negation (by decide) nofun nofun).append ih
  | primary _ ih => exact ih
  | group opened _ closed ih =>
    exact ((neat_kind opened nofun nofun).append ih).append (neat_kind closed nofun nofun)
  | predicate simple => exact neat_predicate simple

theorem neat_step {s : Step} (h : StepOf ls s) : Neat ls := by
  cases h with
  | counted listed named opened count closed =>
    exact (neat_listed listed named (by decide)).append ((neat_kind opened nofun nofun).append
      ((neat_kind count.digits nofun nofun).append (neat_kind closed nofun nofun)))
  | @sort name l key r order word k d named opened listed keyed directed closed =>
    have ordered : Neat order := by
      cases directed with
      | none => exact .nil
      | some separated listed named =>
        exact (neat_kind separated nofun nofun).append (neat_listed listed named (by decide))
    exact ((neat_word named (by decide)).append ((neat_kind opened nofun nofun).append
      ((neat_listed listed keyed (by decide)).append ordered))).append
      (neat_kind closed nofun nofun)
  | bare listed named empty =>
    refine (neat_listed listed named (by decide)).append ?_
    cases empty with
    | none => exact .nil
    | some opened closed => exact (neat_kind opened nofun nofun).append (neat_kind closed nofun nofun)

theorem neat_row {α : Type} {S : List (Leaf Kind) → α → Prop} {vs : List α}
    (each : ∀ ls v, S ls v → Neat ls) (h : Row S ls vs) : Neat ls := by
  induction h with
  | nil => exact .nil
  | cons first _ ih => exact (each _ _ first).append ih

theorem neat_entry {e : Entry} (h : e.Proper) : Neat e.leaves := by
  obtain ⟨content, description, tags⟩ := e
  have kinds (kind : Kind) (ident : kind ≠ .ident) (colon : kind ≠ .colon) (ls : List (Leaf Kind))
      (all : ∀ l ∈ ls, IsKind kind l) : Neat ls := by
    induction ls with
    | nil => exact .nil
    | cons l others ih =>
      obtain ⟨first, others⟩ := List.forall_mem_cons.1 all
      exact (neat_kind first ident colon).append (ih others)
  have described : Neat description.toList :=
    kinds .string nofun nofun _ fun l hl => h.description l (Option.mem_toList.1 hl)
  exact ((neat_kind h.content nofun nofun).append described).append (kinds .tag nofun nofun _ h.tags)

theorem neat_sentence {w : Written} (h : Sentence ls w) : Neat ls := by
  cases h with
  | @insert start first others entries finish begun proper further finished =>
    have further : Neat others := by
      refine neat_row (fun ls e one => ?_) further
      obtain ⟨separator, rfl, separated, proper⟩ := one
      exact (neat_kind separated nofun nofun).append (neat_entry proper)
    have finish : Neat finish.toList := by
      cases finish with
      | none => exact .nil
      | some l => exact neat_kind (finished l rfl) nofun nofun
    exact (neat_word_or_kind begun (by decide) nofun nofun).append
      (((neat_entry proper).append further).append finish)
  | session word => exact neat_word word (by decide)
  | dump word => exact word.elim (neat_word · (by decide)) (neat_word · (by decide))
  | filter selected piped =>
    refine Neat.append ?_ (neat_row (fun ls s one => ?_) piped)
    · cases selected with
      | none => exact .nil
      | some condition => exact neat_derives condition
    · obtain ⟨bar, ms, rfl, isBar, step⟩ := one
      exact (neat_kind isBar nofun nofun).append (neat_step step)

/-- Leaf by leaf a sentence begins with the same tokens as another one, and goes on with a leaf. -/
def GoesOn (before : List (Token Kind)) (l : Leaf Kind) : Prop :=
  ∃ ls ms w, ls.map Leaf.token = before ∧ Sentence (ls ++ l :: ms) w

theorem GoesOn.known {before : List (Token Kind)} (h : GoesOn before l) : Known l.terminal := by
  obtain ⟨ls, ms, w, -, sentence⟩ := h
  exact (neat_sentence sentence).known l (List.mem_append_right _ List.mem_cons_self)

theorem isKind_colon {a b : Leaf Kind} (same : a.token = b.token) (ha : IsKind .colon a)
    (known : Known b.terminal) : IsKind .colon b := by
  have fit := a.fits
  have fit' := b.fits
  rw [ha, same] at fit
  have colon : b.token.kind = .colon := of_decide_eq_true fit
  cases terminal : b.terminal with
  | kind k =>
    rw [terminal] at fit'
    have kind : b.token.kind = k := of_decide_eq_true fit'
    rw [IsKind, terminal, ← kind, colon]
  | word k word =>
    rw [terminal] at fit' known
    obtain ⟨rfl, -⟩ := known
    simp [Terminal.fits, colon] at fit'

theorem not_ident_and_word {before : List (Token Kind)} {a b : Leaf Kind} (ha : GoesOn before a)
    (hb : GoesOn before b) (ident : IsKind .ident a) {k : Kind} {word : String}
    (keyword : b.terminal = .word k word) : False := by
  obtain ⟨ls, ms, w, rfl, sentence⟩ := ha
  obtain ⟨ls', ms', w', same, sentence'⟩ := hb
  have neat := neat_sentence sentence
  have neat' := neat_sentence sentence'
  rcases List.eq_nil_or_concat ls with rfl | ⟨us, u, rfl⟩
  · exact neat.first a rfl ident
  rcases List.eq_nil_or_concat ls' with rfl | ⟨us', u', rfl⟩
  · simp at same
  have tokens : u.token = u'.token := by
    rw [List.concat_eq_append, List.concat_eq_append, List.map_append, List.map_append] at same
    exact (List.cons.inj (List.append_inj_right' same rfl)).1.symm
  have before : Adjoins u a := by
    have := List.isChain_append.1 neat.chain
    exact this.2.2 u (by simp) a rfl
  have before' : Adjoins u' b := by
    have := List.isChain_append.1 neat'.chain
    exact this.2.2 u' (by simp) b rfl
  have known : Known u'.terminal := neat'.known u' (by simp)
  exact before'.2 (isKind_colon tokens (before.1 ident) known) k word keyword

theorem describe_ne_word (kind : Kind) {word : String} (h : word ∈ keywords) :
    TokenKind.describe kind ≠ "'" ++ word ++ "'" := by
  have all : ∀ word ∈ keywords, TokenKind.describe kind ≠ "'" ++ word ++ "'" := by
    cases kind <;> decide +kernel
  exact all word h

theorem eq_of_sameIgnoringCase {a b : String} (ha : a ∈ keywords) (hb : b ∈ keywords)
    (same : sameIgnoringCase a b) : a = b := by
  have all : ∀ a ∈ keywords, ∀ b ∈ keywords, sameIgnoringCase a b → a = b := by decide +kernel
  exact all a ha b hb same

/-- Two terminals that a token fits have one description, when both can stand at one place. -/
theorem description_eq {before : List (Token Kind)} {a b : Leaf Kind} {T : Terminal Kind}
    (ha : GoesOn before a) (hb : GoesOn before b) (known : Known T)
    (described : b.terminal.description = T.description) (fits : T.fits a.token) :
    a.terminal.description = T.description := by
  have fit := a.fits
  have knowna := ha.known
  have knownb := hb.known
  cases ta : a.terminal with
  | kind k =>
    rw [ta] at fit
    have kind : a.token.kind = k := of_decide_eq_true fit
    cases T with
    | kind k' =>
      have kind' : a.token.kind = k' := of_decide_eq_true fits
      rw [← kind, kind']
    | word k' word =>
      obtain ⟨rfl, listed⟩ := known
      simp only [Terminal.fits, Bool.and_eq_true, decide_eq_true_eq] at fits
      have ident : IsKind .ident a := by rw [IsKind, ta, ← kind, fits.1]
      cases tb : b.terminal with
      | kind l => exact absurd (by rwa [tb] at described) (describe_ne_word l listed)
      | word l text => exact (not_ident_and_word ha hb ident tb).elim
  | word k text =>
    rw [ta] at fit knowna
    obtain ⟨rfl, listed⟩ := knowna
    simp only [Terminal.fits, Bool.and_eq_true, decide_eq_true_eq] at fit
    cases T with
    | kind k' =>
      have kind' : a.token.kind = k' := of_decide_eq_true fits
      rw [fit.1] at kind'
      subst kind'
      cases tb : b.terminal with
      | kind l =>
        rw [tb] at described
        have ident : IsKind .ident b := by
          rw [IsKind, tb]
          cases l <;> first | rfl | exact absurd described (by decide)
        exact (not_ident_and_word hb ha ident ta).elim
      | word l word =>
        rw [tb] at described knownb
        exact absurd described.symm (describe_ne_word _ knownb.2)
    | word k' word =>
      obtain ⟨rfl, listed'⟩ := known
      simp only [Terminal.fits, Bool.and_eq_true, decide_eq_true_eq] at fits
      have same := Grammar.sameIgnoringCase_trans fit.2 fits.2
      rw [eq_of_sameIgnoringCase listed listed' same]

end Wordhoard.Query
