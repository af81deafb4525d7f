import Wordhoard.Json.Reader

/-! How a JSON value may be written: with any space between its tokens. Both the compact and the
pretty text are such spellings. -/
namespace Wordhoard.Json

inductive Plain : Nat → Json → Prop where
  | null (d : Nat) : Plain d .null
  | bool (d : Nat) (value : Bool) : Plain d (.bool value)
  | integer (d : Nat) (value : Int) : Plain d (.integer value)
  | string (d : Nat) (value : String) : Plain d (.string value)
  | array {d : Nat} {items : List Json} (each : ∀ v ∈ items, Plain d v) : Plain (d + 1) (.array items)
  | object {d : Nat} {members : List (String × Json)} (each : ∀ p ∈ members, Plain d p.2) :
      Plain (d + 1) (.object members)

theorem Plain.mono {d d' : Nat} {v : Json} (h : Plain d v) (more : d ≤ d') : Plain d' v := by
  induction h generalizing d' with
  | null => exact .null d'
  | bool _ value => exact .bool d' value
  | integer _ value => exact .integer d' value
  | string _ value => exact .string d' value
  | array each ih =>
    obtain ⟨d', rfl⟩ := Nat.exists_eq_add_of_le' (Nat.le_trans (Nat.le_add_left 1 _) more)
    exact .array fun v hv => ih v hv (by omega)
  | object each ih =>
    obtain ⟨d', rfl⟩ := Nat.exists_eq_add_of_le' (Nat.le_trans (Nat.le_add_left 1 _) more)
    exact .object fun p hp => ih p hp (by omega)

def isSpace (c : Char) : Bool := c = ' ' || c = '\n' || c = '\t' || c = '\r'

def Gap (s : List Char) : Prop := ∀ c ∈ s, isSpace c

def quoted (s : String) : List Char := '"' :: s.toList.flatMap escapeChar ++ ['"']

theorem toList_quote (s : String) : (quote s).toList = quoted s := String.toList_ofList

/-- What a text spells: a value, or the items or members between a pair of brackets. -/
inductive Form where
  | value (v : Json)
  | items (items : List Json)
  | members (members : List (String × Json))

inductive Spelled : Nat → Form → List Char → Prop where
  | null (d : Nat) : Spelled d (.value .null) "null".toList
  | yes (d : Nat) : Spelled d (.value (.bool true)) "true".toList
  | no (d : Nat) : Spelled d (.value (.bool false)) "false".toList
  | integer (d : Nat) (n : Int) : Spelled d (.value (.integer n)) (toString n).toList
  | string (d : Nat) (s : String) : Spelled d (.value (.string s)) (quoted s)
  | emptyArray (d : Nat) {gap : List Char} (hgap : Gap gap) :
      Spelled (d + 1) (.value (.array [])) ('[' :: (gap ++ [']']))
  | array {d : Nat} {items : List Json} {s : List Char} (inner : Spelled d (.items items) s) :
      Spelled (d + 1) (.value (.array items)) ('[' :: (s ++ [']']))
  | emptyObject (d : Nat) {gap : List Char} (hgap : Gap gap) :
      Spelled (d + 1) (.value (.object [])) ('\x7b' :: (gap ++ ['\x7d']))
  | object {d : Nat} {members : List (String × Json)} {s : List Char}
      (inner : Spelled d (.members members) s) :
      Spelled (d + 1) (.value (.object members)) ('\x7b' :: (s ++ ['\x7d']))
  | lastItem {d : Nat} {v : Json} {gap s gap' : List Char} (hgap : Gap gap)
      (value : Spelled d (.value v) s) (hgap' : Gap gap') :
      Spelled d (.items [v]) (gap ++ s ++ gap')
  | item {d : Nat} {v : Json} {items : List Json} {gap s gap' t : List Char} (hgap : Gap gap)
      (value : Spelled d (.value v) s) (hgap' : Gap gap') (others : Spelled d (.items items) t) :
      Spelled d (.items (v :: items)) (gap ++ s ++ gap' ++ ',' :: t)
  | lastMember {d : Nat} (name : String) {v : Json} {gap colonGap valueGap s gap' : List Char}
      (hgap : Gap gap) (hcolon : Gap colonGap) (hvalue : Gap valueGap)
      (value : Spelled d (.value v) s) (hgap' : Gap gap') :
      Spelled d (.members [(name, v)])
        (gap ++ quoted name ++ colonGap ++ ':' :: (valueGap ++ s ++ gap'))
  | member {d : Nat} (name : String) {v : Json} {members : List (String × Json)}
      {gap colonGap valueGap s gap' t : List Char} (hgap : Gap gap) (hcolon : Gap colonGap)
      (hvalue : Gap valueGap) (value : Spelled d (.value v) s) (hgap' : Gap gap')
      (others : Spelled d (.members members) t) :
      Spelled d (.members ((name, v) :: members))
        (gap ++ quoted name ++ colonGap ++ ':' :: (valueGap ++ s ++ gap' ++ ',' :: t))

variable {d : Nat} {v : Json} {items : List Json} {members : List (String × Json)}

theorem gap_nil : Gap [] := List.forall_mem_nil _

theorem gap_lineBreak (level : Nat) : Gap (lineBreak level).toList := by
  rw [lineBreak, String.toList_ofList]
  refine List.forall_mem_cons.2 ⟨rfl, fun c hc => ?_⟩
  rw [(List.mem_replicate.1 hc).2]
  rfl

theorem spelled_compactItems (each : ∀ v ∈ items, Spelled d (.value v) v.compact.toList)
    (nonempty : items ≠ []) : Spelled d (.items items) (compactItems items).toList := by
  induction items with
  | nil => exact absurd rfl nonempty
  | cons v others ih =>
    obtain ⟨first, further⟩ := List.forall_mem_cons.1 each
    cases others with
    | nil => simpa [compactItems] using Spelled.lastItem gap_nil first gap_nil
    | cons w others =>
      have rest := ih further (List.cons_ne_nil _ _)
      simpa [compactItems, String.toList_append] using Spelled.item gap_nil first gap_nil rest

theorem spelled_compactMembers (each : ∀ p ∈ members, Spelled d (.value p.2) p.2.compact.toList)
    (nonempty : members ≠ []) : Spelled d (.members members) (compactMembers members).toList := by
  induction members with
  | nil => exact absurd rfl nonempty
  | cons p others ih =>
    obtain ⟨name, v⟩ := p
    obtain ⟨first, further⟩ := List.forall_mem_cons.1 each
    cases others with
    | nil =>
      simpa [compactMembers, String.toList_append, toList_quote] using
        Spelled.lastMember name gap_nil gap_nil gap_nil first gap_nil
    | cons q others =>
      have rest := ih further (List.cons_ne_nil _ _)
      simpa [compactMembers, String.toList_append, toList_quote] using
        Spelled.member name gap_nil gap_nil gap_nil first gap_nil rest

theorem spelled_compact (h : Plain d v) : Spelled d (.value v) v.compact.toList := by
  induction h with
  | null d => exact .null d
  | bool d value =>
    cases value with
    | true => exact .yes d
    | false => exact .no d
  | integer d n => exact .integer d n
  | string d s =>
    have := Spelled.string d s
    rwa [← toList_quote] at this
  | @array d items each ih =>
    by_cases empty : items = []
    · subst empty
      exact .emptyArray d gap_nil
    · simpa [compact, String.toList_append] using (spelled_compactItems ih empty).array
  | @object d members each ih =>
    by_cases empty : members = []
    · subst empty
      exact .emptyObject d gap_nil
    · simpa [compact, String.toList_append] using (spelled_compactMembers ih empty).object

theorem spelled_prettyItems {level : Nat} {gap : List Char} (hgap : Gap gap)
    (each : ∀ v ∈ items, Spelled d (.value v) (v.prettyAt level).toList) (nonempty : items ≠ []) :
    Spelled d (.items items) ((prettyItems level items).toList ++ gap) := by
  induction items with
  | nil => exact absurd rfl nonempty
  | cons v others ih =>
    obtain ⟨first, further⟩ := List.forall_mem_cons.1 each
    have line := gap_lineBreak level
    cases others with
    | nil =>
      simpa [prettyItems, String.toList_append] using Spelled.lastItem line first hgap
    | cons w others =>
      have rest := ih further (List.cons_ne_nil _ _)
      simpa [prettyItems, String.toList_append] using Spelled.item line first gap_nil rest

theorem spelled_prettyMembers {level : Nat} {gap : List Char} (hgap : Gap gap)
    (each : ∀ p ∈ members, Spelled d (.value p.2) (p.2.prettyAt level).toList)
    (nonempty : members ≠ []) :
    Spelled d (.members members) ((prettyMembers level members).toList ++ gap) := by
  induction members with
  | nil => exact absurd rfl nonempty
  | cons p others ih =>
    obtain ⟨name, v⟩ := p
    obtain ⟨first, further⟩ := List.forall_mem_cons.1 each
    have line := gap_lineBreak level
    have blank : Gap [' '] := List.forall_mem_singleton.2 rfl
    cases others with
    | nil =>
      simpa [prettyMembers, String.toList_append, toList_quote] using
        Spelled.lastMember name line gap_nil blank first hgap
    | cons q others =>
      have rest := ih further (List.cons_ne_nil _ _)
      simpa [prettyMembers, String.toList_append, toList_quote] using
        Spelled.member name line gap_nil blank first gap_nil rest

theorem spelled_prettyAt (h : Plain d v) (level : Nat) :
    Spelled d (.value v) (v.prettyAt level).toList := by
  induction h generalizing level with
  | null d => exact .null d
  | bool d value =>
    cases value with
    | true => exact .yes d
    | false => exact .no d
  | integer d n => exact .integer d n
  | string d s =>
    have := Spelled.string d s
    rwa [← toList_quote] at this
  | @array d items each ih =>
    cases items with
    | nil => simpa [prettyAt] using Spelled.emptyArray d gap_nil
    | cons v others =>
      have inner := spelled_prettyItems (gap_lineBreak level) (fun v hv => ih v hv (level + 1))
        (List.cons_ne_nil _ _)
      simpa [prettyAt, String.toList_append] using inner.array
  | @object d members each ih =>
    cases members with
    | nil => simpa [prettyAt] using Spelled.emptyObject d gap_nil
    | cons p others =>
      have inner := spelled_prettyMembers (gap_lineBreak level) (fun p hp => ih p hp (level + 1))
        (List.cons_ne_nil _ _)
      simpa [prettyAt, String.toList_append] using inner.object

end Wordhoard.Json
