import Mathlib.Data.List.TakeDrop
import Mathlib.Data.List.TakeWhile
import Wordhoard.Pattern.Reader
import Wordhoard.Proofs.Pattern.Outline

/-! What the parts of a pattern look like in its text. -/
namespace Wordhoard.Pattern

variable {cs rest : List Char} {f f' : Flags}

/-- From one place of a pattern to the other the scan for outer alternatives finds nothing. -/
def Skims (cs rest : List Char) : Prop := ∃ piece, cs = piece ++ rest ∧ ∀ c ∈ piece, c ∉ marks

theorem Skims.refl (cs : List Char) : Skims cs cs := ⟨[], rfl, List.forall_mem_nil _⟩

theorem Skims.trans {ds : List Char} (h : Skims cs ds) (h' : Skims ds rest) : Skims cs rest := by
  obtain ⟨first, rfl, quiet⟩ := h
  obtain ⟨second, rfl, quiet'⟩ := h'
  exact ⟨first ++ second, (List.append_assoc _ _ _).symm, List.forall_mem_append.2 ⟨quiet, quiet'⟩⟩

theorem skims_cons {c : Char} (quiet : c ∉ marks) : Skims (c :: rest) rest :=
  ⟨[c], rfl, by simpa using quiet⟩

theorem Skims.cons {c : Char} (quiet : c ∉ marks) (h : Skims cs rest) : Skims (c :: cs) rest :=
  (skims_cons quiet).trans h

theorem skims_dropWhile {p : Char → Bool} (quiet : ∀ c, p c = true → c ∉ marks) (cs : List Char) :
    Skims cs (cs.dropWhile p) :=
  ⟨cs.takeWhile p, List.takeWhile_append_dropWhile.symm, fun c mem =>
    quiet c (List.mem_takeWhile_imp mem)⟩

theorem not_mem_marks_of_test {p : Char → Bool} (refuses : marks.all fun c => !p c) :
    ∀ c, p c = true → c ∉ marks := by
  intro c passes mem
  have refused := List.all_eq_true.1 refuses c mem
  rw [passes] at refused
  cases refused

theorem skims_until {s piece : List Char} {c d : Char}
    (split : s.span (· ≠ d) = (piece, c :: rest)) (quiet : ∀ c ∈ piece, c ∉ marks)
    (last : d ∉ marks) : Skims s rest := by
  rw [List.span_eq_takeWhile_dropWhile] at split
  obtain ⟨rfl, behind⟩ := Prod.mk.inj split
  have stops := List.head?_dropWhile_not (· ≠ d) s
  rw [behind] at stops
  obtain rfl : c = d := by simpa using stops
  have whole : s = s.takeWhile (· ≠ c) ++ c :: rest := by
    rw [← behind, List.takeWhile_append_dropWhile]
  exact .trans ⟨_, whole, quiet⟩ (skims_cons last)

theorem not_mem_marks_of_digit {base n : Nat} {digits : List Char}
    (h : Text.number? base digits = some n) : ∀ c ∈ digits, c ∉ marks := by
  unfold Text.number? at h
  split at h
  · rename_i all
    rw [Bool.and_eq_true, List.all_eq_true] at all
    intro c mem
    refine not_mem_marks_of_test (p := fun c => (Text.digitValue? c).any (· < base)) ?_ c (all.2 c mem)
    simp [marks, Text.digitValue?]
  · cases h

theorem skims_readHex {width : Nat} {c : Char} (h : readHex width cs = some (c, rest)) :
    Skims cs rest := by
  have quiet {digits : List Char} {c : Char} (h : hexChar? digits = some c) :
      ∀ d ∈ digits, d ∉ marks := by
    obtain ⟨n, number, -⟩ := Option.bind_eq_some_iff.1 h
    exact not_mem_marks_of_digit number
  unfold readHex at h
  split at h
  · rename_i more
    split at h
    · rename_i digits last behind split
      obtain ⟨d, hex, same⟩ := Option.map_eq_some_iff.1 h
      cases same
      exact .cons (by decide) (skims_until split (quiet hex) (by decide))
    · cases h
  · split at h
    · cases h
    · obtain ⟨d, hex, same⟩ := Option.map_eq_some_iff.1 h
      cases same
      exact ⟨cs.take width, (List.take_append_drop _ _).symm, quiet hex⟩

theorem not_mem_marks_of_word {name : List Char} {word : String} (same : String.ofList name = word)
    (quiet : marks.all fun c => !word.toList.contains c) : ∀ c ∈ name, c ∉ marks := by
  intro c mem mark
  have none := List.all_eq_true.1 quiet c mark
  rw [← same, String.toList_ofList, List.contains_iff_mem.2 mem] at none
  cases none

theorem skims_readProperty {name : List Char} (h : readProperty cs = some (name, rest)) :
    Skims cs rest := by
  have quiet : ∀ c, isNameChar c = true → c ∉ marks := not_mem_marks_of_test (by decide)
  unfold readProperty at h
  split at h
  · split at h
    · rename_i name last behind split
      split at h
      · rename_i named
        cases h
        exact .cons (by decide) (skims_until split
          (fun c mem => quiet c (List.all_eq_true.1 named c mem)) (by decide))
      · cases h
    · cases h
  · rename_i c more _
    split at h
    · rename_i named
      cases h
      exact skims_cons (quiet c named)
    · cases h
  · cases h

theorem not_mem_marks_of_boundary {name : List Char} {b : Boundary}
    (h : namedBoundary? name = some b) : ∀ c ∈ name, c ∉ marks := by
  unfold namedBoundary? at h
  split at h
  all_goals first
    | exact not_mem_marks_of_word ‹_› (by decide)
    | cases h

theorem skims_readEscape {c : Char} {e : Escape} (h : readEscape (c :: cs) = some (e, rest)) :
    Skims cs rest := by
  unfold readEscape at h
  dsimp only at h
  split at h
  case h_7 | h_8 =>
    obtain ⟨⟨s, r⟩, inner, same⟩ := Option.map_eq_some_iff.1 h
    cases same
    exact skims_readProperty inner
  case h_9 | h_10 | h_11 =>
    obtain ⟨⟨s, r⟩, inner, same⟩ := Option.map_eq_some_iff.1 h
    cases same
    exact skims_readHex inner
  case h_23 =>
    split at h
    · rename_i named
      split at h
      · rename_i name last behind split
        obtain ⟨b, known, same⟩ := Option.map_eq_some_iff.1 h
        cases same
        exact .cons (by decide) (skims_until split (not_mem_marks_of_boundary known) (by decide))
      · cases h
    · cases h
      exact .refl _
  case h_24 =>
    split at h
    · cases h
      exact .refl _
    · cases h
  all_goals
    cases h
    exact .refl _

theorem skims_blank (cs : List Char) : Skims cs (cs.dropWhile Text.isBlank) :=
  skims_dropWhile (not_mem_marks_of_test (by decide)) cs

theorem skims_readCount {n : Nat} (h : readCount cs = some (n, rest)) : Skims cs rest := by
  unfold readCount at h
  rw [List.span_eq_takeWhile_dropWhile] at h
  dsimp only at h
  split at h
  · cases h
  · cases h
    have digits := skims_dropWhile (p := Char.isDigit) (not_mem_marks_of_test (by decide))
      (cs.dropWhile Text.isBlank)
    exact ((skims_blank cs).trans digits).trans (skims_blank _)

theorem skims_readBounds {bounds : Nat × Option Nat} (h : readBounds cs = some (bounds, rest)) :
    Skims cs rest := by
  unfold readBounds at h
  obtain ⟨⟨n, more⟩, count, h⟩ := Option.bind_eq_some_iff.1 h
  have first := skims_readCount count
  split at h
  · rename_i same
    cases same
    cases h
    exact first.trans (skims_cons (by decide))
  · rename_i behind same
    cases same
    have blank := first.trans (.cons (by decide) (skims_blank behind))
    split at h
    · rename_i same
      cases h
      rw [same] at blank
      exact blank.trans (skims_cons (by decide))
    · obtain ⟨⟨m, more⟩, count, h⟩ := Option.bind_eq_some_iff.1 h
      have second := blank.trans (skims_readCount count)
      split at h
      · rename_i same
        cases same
        split at h
        · cases h
          exact second.trans (skims_cons (by decide))
        · cases h
      · cases h
  · cases h

theorem skims_readRepetition {bounds : Nat × Option Nat}
    (h : readRepetition cs = some (bounds, rest)) : Skims cs rest := by
  unfold readRepetition at h
  split at h
  · cases h
    exact skims_cons (by decide)
  · cases h
    exact skims_cons (by decide)
  · cases h
    exact skims_cons (by decide)
  · exact .cons (by decide) (skims_readBounds h)
  · cases h

theorem skims_readGreed (f : Flags) (cs : List Char) : Skims cs (readGreed f cs).2 := by
  unfold readGreed
  split
  · exact skims_cons (by decide)
  · exact .refl _

def turnsOn (flag : Char) : List Char → Bool
  | '?' :: flags => (flags.takeWhile Char.isAlpha).any (· == flag)
  | _ => false

def groupName? : List Char → Option (List Char)
  | '?' :: 'P' :: '<' :: rest => (readName rest).map Prod.fst
  | '?' :: '<' :: rest => (readName rest).map Prod.fst
  | _ => none

theorem skims_readName {name : List Char} (h : readName cs = some (name, rest))
    (brackets : '[' ∉ name) : Skims cs rest := by
  unfold readName at h
  split at h
  · rename_i c others last behind split
    split at h
    · rename_i allowed
      cases h
      refine skims_until split (fun d mem mark => ?_) (by decide)
      have bare : d ≠ '[' := fun same => brackets (same ▸ mem)
      rw [Bool.and_eq_true, List.all_eq_true] at allowed
      have first : marks.all fun d => !(d = '_' || Text.isLetter d) := by decide +kernel
      have later : marks.all fun d => d = '[' ||
          !(d ∈ ['_', '.', '[', ']'] || Text.isLetter d || Text.isNumeral d) := by decide +kernel
      rcases List.mem_cons.1 mem with rfl | other
      · have refused := List.all_eq_true.1 first d mark
        rw [allowed.1] at refused
        cases refused
      · have refused := List.all_eq_true.1 later d mark
        rw [allowed.2 d other, decide_eq_false bare] at refused
        cases refused
    · cases h
  · cases h

theorem isAlpha_of_set? {c : Char} {on : Bool} (h : f.set? c on = some f') : c.isAlpha = true := by
  unfold Flags.set? at h
  split at h
  all_goals first
    | decide
    | cases h

theorem skims_readFlags {on : Bool} {seen : List Char}
    (h : readFlags f on seen cs = some (f', rest)) : Skims cs rest := by
  fun_induction readFlags f on seen cs with
  | case1 => cases h
  | case2 => cases h
  | case3 =>
    cases h
    exact .refl _
  | case4 => cases h
  | case5 f on seen others ends new ih => exact .cons (by decide) (ih h)
  | case6 f on seen c others ends new hyphen f'' set ih =>
    have letters : marks.all fun c => !c.isAlpha := by decide
    refine .cons (fun mark => ?_) (ih h)
    have refused := List.all_eq_true.1 letters c mark
    rw [isAlpha_of_set? set] at refused
    cases refused
  | case7 => cases h

theorem flag_of_readFlags {get : Flags → Bool} {flag : Char}
    (sets : ∀ f c on f', Flags.set? f c on = some f' → get f' = if c = flag then on else get f)
    {on : Bool} {seen : List Char} (h : readFlags f on seen cs = some (f', rest))
    (off : get f = false) (names : on = true → (cs.takeWhile Char.isAlpha).any (· == flag) = false) :
    get f' = false := by
  fun_induction readFlags f on seen cs with
  | case1 => cases h
  | case2 => cases h
  | case3 =>
    cases h
    exact off
  | case4 => cases h
  | case5 f on seen others ends new ih => exact ih h off nofun
  | case6 f on seen c others ends new hyphen f'' set ih =>
    have here (taken : on = true) :
        c ≠ flag ∧ (others.takeWhile Char.isAlpha).any (· == flag) = false := by
      have none := names taken
      rw [List.takeWhile_cons_of_pos (isAlpha_of_set? set), List.any_cons, Bool.or_eq_false_iff] at none
      exact ⟨by simpa using none.1, none.2⟩
    refine ih h ?_ fun taken => (here taken).2
    rw [sets f c on f'' set]
    split
    · rename_i same
      cases on with
      | false => rfl
      | true => exact absurd same (here rfl).1
    · exact off
  | case7 => cases h

theorem flags_of_set? (f : Flags) (c : Char) (on : Bool) (f' : Flags) (h : f.set? c on = some f') :
    (f'.multiLine = if c = 'm' then on else f.multiLine) ∧
      f'.verbose = if c = 'x' then on else f.verbose := by
  unfold Flags.set? at h
  split at h
  case h_8 => cases h
  all_goals
    cases h
    exact ⟨rfl, rfl⟩

theorem multiLine_of_readFlags (h : readFlags f true [] cs = some (f', rest))
    (off : f.multiLine = false) (names : turnsOn 'm' ('?' :: cs) = false) : f'.multiLine = false :=
  flag_of_readFlags (fun f c on f' h => (flags_of_set? f c on f' h).1) h off fun _ => names

theorem verbose_of_readFlags (h : readFlags f true [] cs = some (f', rest))
    (off : f.verbose = false) (names : turnsOn 'x' ('?' :: cs) = false) : f'.verbose = false :=
  flag_of_readFlags (fun f c on f' h => (flags_of_set? f c on f' h).2) h off fun _ => names

theorem skip_eq (plain : f.verbose = false) (cs : List Char) : f.skip cs = cs := by
  unfold Flags.skip
  rw [plain]
  cases cs with
  | nil => rfl
  | cons c others => simp [skipVerbose]

def Opening.flags : Opening → Flags
  | group f _ => f
  | setFlags f => f

structure Opens (f : Flags) (o : Opening) (cs rest : List Char) : Prop where
  skims : match o with
    | .group _ _ => Skims cs rest
    | .setFlags _ => Skims cs (')' :: rest)
  multiLine : f.multiLine = false → turnsOn 'm' cs = false → o.flags.multiLine = false
  verbose : f.verbose = false → turnsOn 'x' cs = false → o.flags.verbose = false

theorem opens_of_readOpening {o : Opening} (plain : f.verbose = false)
    (h : readOpening f cs = some (o, rest)) (brackets : ∀ name ∈ groupName? cs, '[' ∉ name) :
    Opens f o cs rest := by
  unfold readOpening at h
  rw [skip_eq plain] at h
  dsimp only at h
  split at h
  · rename_i more
    obtain ⟨⟨name, behind⟩, read, same⟩ := Option.map_eq_some_iff.1 h
    cases same
    have bare : '[' ∉ name := brackets name (by simp [groupName?, read])
    exact ⟨.cons (by decide) (.cons (by decide) (.cons (by decide) (skims_readName read bare))),
      fun off _ => off, fun off _ => off⟩
  · rename_i more
    obtain ⟨⟨name, behind⟩, read, same⟩ := Option.map_eq_some_iff.1 h
    cases same
    have bare : '[' ∉ name := brackets name (by simp [groupName?, read])
    exact ⟨.cons (by decide) (.cons (by decide) (skims_readName read bare)),
      fun off _ => off, fun off _ => off⟩
  · rename_i more _ _
    split at h
    · rename_i f' behind read
      cases h
      exact ⟨.cons (by decide) ((skims_readFlags read).trans (skims_cons (by decide))),
        multiLine_of_readFlags read, verbose_of_readFlags read⟩
    · rename_i f' behind read
      split at h
      · cases h
      · cases h
        exact ⟨.cons (by decide) (skims_readFlags read), multiLine_of_readFlags read,
          verbose_of_readFlags read⟩
    · cases h
  · cases h
    exact ⟨.refl _, fun off _ => off, fun off _ => off⟩

theorem readItem_eq (plain : f.verbose = false) (cs : List Char) :
    readItem f cs = readItem {} cs := by
  simp only [readItem, skip_eq plain, skip_eq (f := {}) rfl]

theorem classHead_eq (plain : f.verbose = false) (cs : List Char) :
    classHead f cs = classHead {} cs := by
  simp only [classHead, skip_eq plain, skip_eq (f := {}) rfl]

variable [Properties]

/-- Where a class ends depends on nothing but its text: not on the flags, nor on how far the reader may
still go. -/
def ClassesEnd (n : Nat) : Prop :=
  ∀ ⦃m f f' cs s s' rest rest'⦄, f.verbose = false → f'.verbose = false →
    readClass n f cs = some (s, rest) → readClass m f' cs = some (s', rest') → rest = rest'

/-- Nor does it depend on what was read of the class before. -/
def MembersEnd (n : Nat) : Prop :=
  ∀ ⦃m f f' left left' sofar sofar' cs s s' rest rest'⦄, f.verbose = false → f'.verbose = false →
    readMembers n f left sofar cs = some (s, rest) →
    readMembers m f' left' sofar' cs = some (s', rest') → rest = rest'

theorem MembersEnd.classes {n : Nat} (members : MembersEnd n) : ClassesEnd (n + 1) := by
  intro m f f' cs s s' rest rest' plain plain' h h'
  cases m with
  | zero => cases h'
  | succ m =>
    rw [readClass, classHead_eq plain] at h
    rw [readClass, classHead_eq plain'] at h'
    obtain ⟨⟨t, behind⟩, read, same⟩ := Option.bind_eq_some_iff.1 h
    obtain ⟨⟨t', behind'⟩, read', same'⟩ := Option.bind_eq_some_iff.1 h'
    obtain ⟨set, -, same⟩ := Option.bind_eq_some_iff.1 same
    obtain ⟨set', -, same'⟩ := Option.bind_eq_some_iff.1 same'
    cases same
    cases same'
    exact members plain plain' read read'

theorem MembersEnd.succ {n : Nat} (members : MembersEnd n) (classes : ClassesEnd n) :
    MembersEnd (n + 1) := by
  intro m f f' left left' sofar sofar' cs s s' rest rest' plain plain' h h'
  cases m with
  | zero => cases h'
  | succ m =>
    unfold readMembers at h h'
    rw [skip_eq plain] at h
    rw [skip_eq plain'] at h'
    dsimp only at h h'
    split at h
    · cases h
    · cases h
      cases h'
      rfl
    · exact members plain plain' h h'
    · exact members plain plain' h h'
    · exact members plain plain' h h'
    · rename_i more
      cases ascii : readAsciiClass more with
      | some p =>
        rw [ascii] at h
        simp only [ascii] at h'
        obtain ⟨set, -, others⟩ := Option.bind_eq_some_iff.1 h
        obtain ⟨set', -, others'⟩ := Option.bind_eq_some_iff.1 h'
        exact members plain plain' others others'
      | none =>
        rw [ascii] at h
        simp only [ascii] at h'
        obtain ⟨⟨t, behind⟩, nested, others⟩ := Option.bind_eq_some_iff.1 h
        obtain ⟨⟨t', behind'⟩, nested', others'⟩ := Option.bind_eq_some_iff.1 h'
        obtain rfl := classes plain plain' nested nested'
        exact members plain plain' others others'
    · rename_i nothing close inter diff symm opening
      rw [readItem_eq plain] at h
      -- the second reading is at the same place, so it is in this case as well
      split at h'
      · exact (nothing rfl).elim
      · exact (close _ rfl).elim
      · exact (inter _ rfl).elim
      · exact (diff _ rfl).elim
      · exact (symm _ rfl).elim
      · exact (opening _ rfl).elim
      · rw [readItem_eq plain'] at h'
        obtain ⟨⟨item, behind⟩, read, h⟩ := Option.bind_eq_some_iff.1 h
        obtain ⟨⟨item', behind'⟩, read', h'⟩ := Option.bind_eq_some_iff.1 h'
        cases read.symm.trans read'
        obtain ⟨set, -, others⟩ := Option.bind_eq_some_iff.1 h
        obtain ⟨set', -, others'⟩ := Option.bind_eq_some_iff.1 h'
        exact members plain plain' others others'

theorem rest_unique (n : Nat) : ClassesEnd n ∧ MembersEnd n := by
  induction n with
  | zero =>
    constructor
    · intro m f f' cs s s' rest rest' _ _ h
      cases h
    · intro m f f' left left' sofar sofar' cs s s' rest rest' _ _ h
      cases h
  | succ n ih => exact ⟨ih.2.classes, ih.2.succ ih.1⟩

end Wordhoard.Pattern
