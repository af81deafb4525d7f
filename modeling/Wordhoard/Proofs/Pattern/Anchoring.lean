import Wordhoard.Proofs.Pattern.Body
import Wordhoard.Proofs.Pattern.Search
import Wordhoard.Token.Rule

/-! Patterns that match at the start of a text only. Main statement: so does every pattern that the
scan for outer alternatives lets pass, if the scan can read it and no anchor is made optional. -/
namespace Wordhoard

namespace Pattern

variable {f : Flags} {left : Option Pattern} {items : List (Option Pattern)} {p q : Pattern}
  {cs rest : List Char}

def Anchored (p : Pattern) : Prop := ∀ s k, s.before ≠ none → p.run s k = none

theorem anchored_textStart : Anchored .textStart := by
  intro s k behind
  cases before : s.before with
  | none => exact absurd before behind
  | some c => simp [run, guarded, before]

theorem Anchored.seq (h : Anchored p) (q : Pattern) : Anchored (.seq p q) := fun s _ behind =>
  h s _ behind

theorem Anchored.either (h : Anchored p) (h' : Anchored q) : Anchored (.either p q) := by
  intro s k behind
  simp only [run, h s k behind, h' s k behind]

theorem Anchored.loop (h : Anchored p) {least : Nat} (asked : 0 < least) (greedy : Bool)
    (most : Option Nat) : Anchored (.loop p greedy least most) := by
  obtain ⟨n, rfl⟩ := Nat.exists_eq_add_one.2 asked
  exact fun s k behind => h s _ behind

theorem searchFrom_of_anchored (h : Anchored p) (passed : List Char) (c : Char) (s : List Char) :
    p.searchFrom passed (some c) s = none := by
  induction s generalizing passed c with
  | nil =>
    unfold searchFrom
    rw [h _ _ (by simp)]
  | cons d others ih =>
    unfold searchFrom
    rw [h _ _ (by simp)]
    exact ih _ d

theorem Anchored.before_eq_nil (h : Anchored p) {s : List Char} {m : Found}
    (found : p.search? s = some m) : m.before = [] := by
  unfold search? searchFrom at found
  split at found
  · cases found
    rfl
  · split at found
    · cases found
    · rw [searchFrom_of_anchored h] at found
      cases found

def isAnchor : Pattern → Bool
  | textStart => true
  | loop p _ _ _ => isAnchor p
  | _ => false

/-- No alternative begins with an anchor that a repetition makes optional. -/
def isFirm : Pattern → Bool
  | either p q => isFirm p && isFirm q
  | seq p _ => isFirm p
  | loop p _ least _ => isFirm p && (!isAnchor p || 0 < least)
  | _ => true

/-- The item read first is an anchor, unless a repetition made it optional. -/
def Headed (items : List (Option Pattern)) : Prop :=
  ∃ others q, items = others ++ [some q] ∧ (q.isFirm = true → Anchored q) ∧
    (others = [] → q.isAnchor = true)

theorem Headed.cons (h : Headed items) (item : Option Pattern) : Headed (item :: items) := by
  obtain ⟨others, q, rfl, anchored, -⟩ := h
  exact ⟨item :: others, q, rfl, anchored, nofun⟩

theorem headed_anchor : Headed [some .textStart] :=
  ⟨[], .textStart, rfl, fun _ => anchored_textStart, fun _ => rfl⟩

theorem Headed.again (h : Headed (some q :: items)) (greedy : Bool) (least : Nat)
    (most : Option Nat) : Headed (some (.loop q greedy least most) :: items) := by
  obtain ⟨others, first, split, anchored, anchor⟩ := h
  cases others with
  | nil =>
    cases split
    refine ⟨[], _, rfl, fun firm => ?_, fun _ => anchor rfl⟩
    simp only [isFirm, anchor rfl, Bool.not_true, Bool.false_or, Bool.and_eq_true,
      decide_eq_true_eq] at firm
    exact (anchored firm.1).loop firm.2 greedy most
  | cons item others =>
    cases split
    exact ⟨_ :: others, first, rfl, anchored, nofun⟩

theorem joinItems_append (others : List (Option Pattern)) (q : Pattern) :
    joinItems (others ++ [some q]) = q ∨ ∃ p, joinItems (others ++ [some q]) = .seq q p := by
  rw [joinItems, List.foldl_append, List.foldl_cons, List.foldl_nil]
  dsimp only
  split
  · exact .inl rfl
  · exact .inr ⟨_, rfl⟩

theorem Headed.anchored_joinItems (h : Headed items) (firm : (joinItems items).isFirm = true) :
    Anchored (joinItems items) := by
  obtain ⟨others, q, rfl, anchored, -⟩ := h
  rcases joinItems_append others q with same | ⟨p, same⟩
  · rw [same] at firm ⊢
    exact anchored firm
  · rw [same] at firm ⊢
    exact (anchored firm).seq p

theorem anchored_joinAlternatives {last : Pattern}
    (before : ∀ p ∈ left, p.isFirm = true → Anchored p) (here : last.isFirm = true → Anchored last)
    (firm : (joinAlternatives left last).isFirm = true) : Anchored (joinAlternatives left last) := by
  cases left with
  | none => exact here firm
  | some p =>
    simp only [joinAlternatives, isFirm, Bool.and_eq_true] at firm
    exact (before p rfl firm.1).either (here firm.2)

/-- Where the scan begins an alternative no item was read, and behind that an anchor was first. -/
def Begun (current : List Char) (items : List (Option Pattern)) : Prop :=
  current = [] ∧ items = [] ∨ current ≠ [] ∧ Headed items

/-- A derivation goes on as the scan does: where the scan begins an alternative the derivation does,
with the anchor that the scan asks for. -/
theorem Body.anchored (h : Body f left items cs p rest) (whole : rest = []) {current : List Char}
    {alternatives : List (List Char)} (accepted : outline false 0 current cs = some alternatives)
    (starts : ∀ a ∈ alternatives, startsAnchored a = true) (off : f.multiLine = false)
    (begun : Begun current items) (before : ∀ p ∈ left, p.isFirm = true → Anchored p)
    (firm : p.isFirm = true) : Anchored p := by
  induction h generalizing current alternatives with
  | finish ends =>
    subst whole
    rcases begun with ⟨rfl, rfl⟩ | ⟨-, headed⟩
    · cases startsAnchored_of_outline accepted starts
    · exact anchored_joinAlternatives before headed.anchored_joinItems firm
  | bar others ih =>
    rcases begun with ⟨rfl, rfl⟩ | ⟨-, headed⟩
    · cases startsAnchored_of_outline accepted starts
    · rw [outline_bar] at accepted
      obtain ⟨further, scanned, rfl⟩ := Option.map_eq_some_iff.1 accepted
      refine ih whole scanned (fun a mem => starts a (List.mem_cons_of_mem _ mem)) off (.inl ⟨rfl, rfl⟩)
        ?_ firm
      rintro _ ⟨⟩
      exact anchored_joinAlternatives before headed.anchored_joinItems
  | flags calm multiLine others ih =>
    rcases begun with ⟨rfl, rfl⟩ | ⟨-, headed⟩
    · cases startsAnchored_of_outline accepted starts
    · obtain ⟨names, inside⟩ := outline_parenthesis accepted
      rw [calm.outline_append, outline_close] at inside
      exact ih whole inside starts (multiLine off names) (.inr ⟨List.cons_ne_nil _ _, headed.cons _⟩)
        before firm
  | group calm inside others _ ih =>
    rcases begun with ⟨rfl, rfl⟩ | ⟨-, headed⟩
    · cases startsAnchored_of_outline accepted starts
    · have opened := (outline_parenthesis accepted).2
      rw [calm.outline_append] at opened
      obtain ⟨current', closing⟩ := inside.exists_outline opened
      rw [outline_close] at closing
      exact ih whole closing starts off (.inr ⟨List.cons_ne_nil _ _, headed.cons _⟩) before firm
  | @item f left items piece s rest p q nonempty calm anchor others ih =>
    have further := calm.outline_append current ▸ accepted
    have moved : piece.reverse ++ current ≠ [] := by simp [nonempty]
    rcases begun with ⟨rfl, rfl⟩ | ⟨-, headed⟩
    · obtain rfl := anchor (startsAnchored_of_outline accepted starts) off
      exact ih whole further starts off (.inr ⟨moved, headed_anchor⟩) before firm
    · exact ih whole further starts off (.inr ⟨moved, headed.cons _⟩) before firm
  | @again f left items piece s rest p q greedy least most calm others ih =>
    have further := calm.outline_append current ▸ accepted
    rcases begun with ⟨rfl, none⟩ | ⟨going, headed⟩
    · cases none
    · have moved : piece.reverse ++ current ≠ [] := by simp [going]
      exact ih whole further starts off (.inr ⟨moved, headed.again _ _ _⟩) before firm

theorem anchored_of_read? [Properties] (accepted : isAnchored cs = true) (read : read? cs = some p)
    (legible : Legible cs) (firm : p.isFirm = true) : Anchored p := by
  unfold read? at read
  split at read
  · rename_i names body
    cases read
    obtain ⟨derivation, -⟩ := body_of_readBody rfl legible body
    unfold isAnchored at accepted
    split at accepted
    · cases accepted
    · rename_i alternatives scanned
      exact derivation.anchored rfl scanned (List.all_eq_true.1 accepted) rfl (.inl ⟨rfl, rfl⟩) nofun
        firm
  · cases read

end Pattern

namespace Rule

open Pattern

variable {κ : Type}

/-- A rule that is accepted matches at the start of a text only, if the scan can tell the parts of its
pattern apart and no repetition makes an anchor optional. -/
theorem before_eq_nil_of_read [Properties] {keep : Bool} {pattern : String} {kind : κ} {r : Rule κ}
    (accepted : read keep pattern kind = .ok r) (legible : Legible pattern.toList)
    (firm : r.pattern.isFirm = true) (s : List Char) (m : Found) (found : r.pattern.search? s = some m) :
    m.before = [] := by
  unfold read at accepted
  split at accepted
  · cases accepted
  · rename_i anchored
    split at accepted
    · cases accepted
    · rename_i p parsed
      split at accepted
      · cases accepted
      · cases accepted
        have starts : isAnchored pattern.toList = true := by simpa using anchored
        exact (anchored_of_read? starts parsed legible firm).before_eq_nil found

theorem exists_of_leftmost {pattern : String} {text before matched : List Char} {firm : Bool}
    (h : ((read true pattern ()).toOption.bind fun r => (r.pattern.search? text).map fun m =>
      (r.pattern.isFirm, m.before, m.matched)) = some (firm, before, matched)) :
    ∃ r m, read true pattern () = .ok r ∧ r.pattern.isFirm = firm ∧
      r.pattern.search? text = some m ∧ m.before = before ∧ m.matched = matched := by
  obtain ⟨r, some_, inner⟩ := Option.bind_eq_some_iff.1 h
  obtain ⟨m, found, same⟩ := Option.map_eq_some_iff.1 inner
  cases accepted : read true pattern () with
  | error e =>
    rw [accepted] at some_
    cases some_
  | ok r' =>
    rw [accepted] at some_
    cases some_
    cases same
    exact ⟨r, m, rfl, rfl, found, rfl, rfl⟩

theorem legible_digits : Legible "^[[:digit:]]|\\A(x|y)".toList := by
  have chars : "^[[:digit:]]|\\A(x|y)".toList =
      '^' :: '[' :: (['[', ':', 'd', 'i', 'g', 'i', 't', ':', ']', ']'] ++
        ['|', '\\', 'A', '(', 'x', '|', 'y', ')']) := by
    decide
  have class_ : (readClass 3 {} (['[', ':', 'd', 'i', 'g', 'i', 't', ':', ']', ']'] ++
      ['|', '\\', 'A', '(', 'x', '|', 'y', ')'])).map Prod.snd =
        some ['|', '\\', 'A', '(', 'x', '|', 'y', ')'] := by
    decide +kernel
  obtain ⟨⟨set, rest⟩, read, rfl⟩ := Option.map_eq_some_iff.1 class_
  have name : Calm true ['[', ':', 'd', 'i', 'g', 'i', 't', ':', ']', ']'] := by
    iterate 8 refine .member (by decide) (by decide) ?_
    exact .close (.quiet (by decide) .nil)
  have group : Legible ['x', '|', 'y', ')'] := by
    iterate 4 refine .plain (by decide) ?_
    exact .nil
  rw [chars]
  refine .plain (by decide) (.bracket rfl read name (.plain (by decide) (.escape ?_)))
  exact .parenthesis (by decide) (by decide) group

/-- A class that holds another, and a group with a bar of its own. -/
theorem before_eq_nil_of_digits :
    ∃ r m, read true "^[[:digit:]]|\\A(x|y)" () = .ok r ∧
      Legible "^[[:digit:]]|\\A(x|y)".toList ∧ r.pattern.isFirm = true ∧
      r.pattern.search? ['7', 'x'] = some m ∧ m.matched = ['7'] ∧ m.before = [] := by
  obtain ⟨r, m, accepted, firm, found, -, matched⟩ :
      ∃ r m, read true "^[[:digit:]]|\\A(x|y)" () = .ok r ∧ r.pattern.isFirm = true ∧
        r.pattern.search? ['7', 'x'] = some m ∧ m.before = [] ∧ m.matched = ['7'] :=
    exists_of_leftmost (by decide +kernel)
  exact ⟨r, m, accepted, legible_digits, firm, found, matched,
    before_eq_nil_of_read accepted legible_digits firm _ _ found⟩

/-- The scan takes the bracket that begins a class for its end, and then a parenthesis in the class for
one outside, behind which it overlooks the bar. -/
theorem later_match_of_bracket :
    ∃ r m, read true "^[](]|b" () = .ok r ∧ r.pattern.isFirm = true ∧
      r.pattern.search? ['a', 'b'] = some m ∧ m.before = ['a'] ∧ m.matched = ['b'] :=
  exists_of_leftmost (by decide +kernel)

theorem later_match_of_optional :
    ∃ r m, read true "^?b" () = .ok r ∧ r.pattern.isFirm = false ∧
      r.pattern.search? ['a', 'b'] = some m ∧ m.before = ['a'] ∧ m.matched = ['b'] :=
  exists_of_leftmost (by decide +kernel)

end Rule

end Wordhoard
