import Mathlib.Data.Set.Card
import Wordhoard.Collection.FreshKey
import Wordhoard.Collection.Key
import Wordhoard.Proofs.Text.Position

/-! Which key a fragment stands for, among keys of ASCII characters and of one length, as new keys
are. Main statement: a fragment stands for the key that it is, or for the only one that starts or ends
with it. So the short form of a key never leads to another word, nor does a fragment once more words
are added. -/
namespace Wordhoard

variable {c : Collection} {fragment key : String} {n : Nat}

theorem eq_of_fits (fits : fragment.toList <+: key.toList ∨ fragment.toList <:+ key.toList)
    (same : fragment.utf8ByteSize = key.utf8ByteSize) : fragment = key := by
  rw [← Text.byteLength_toList, ← Text.byteLength_toList] at same
  have nothing (rest : List Char) (empty : Text.byteLength rest = 0) : rest = [] := by
    by_contra visible
    exact absurd empty (Nat.ne_of_gt (Text.byteLength_pos visible))
  apply String.toList_injective
  rcases fits with ⟨rest, whole⟩ | ⟨rest, whole⟩
  · rw [← whole, Text.byteLength_append] at same
    rw [← whole, nothing rest (by omega), List.append_nil]
  · rw [← whole, Text.byteLength_append] at same
    rw [← whole, nothing rest (by omega), List.nil_append]

/-- Keys of ASCII characters, all of one length that leaves room for a short key. -/
structure Collection.Uniform (n : Nat) (c : Collection) : Prop where
  ascii : ∀ key ∈ c.records.keys, ∀ ch ∈ key.toList, ch.val ≤ 127
  length : ∀ key ∈ c.records.keys, key.utf8ByteSize = n
  enough : 8 ≤ n

theorem length_hexDigits (width n : Nat) : (hexDigits width n).length = width := by
  induction width generalizing n with
  | zero => rfl
  | succ width ih => rw [hexDigits, List.length_append, ih, List.length_singleton]

theorem ascii_hexDigits (width n : Nat) : ∀ ch ∈ hexDigits width n, ch.val ≤ 127 := by
  induction width generalizing n with
  | zero => exact nofun
  | succ width ih =>
    have digits : ∀ i : Fin 16, (Text.digitChar i).val ≤ 127 := by decide
    have last := digits ⟨n % 16, Nat.mod_lt n (by decide)⟩
    exact List.forall_mem_append.2 ⟨ih (n / 16), List.forall_mem_singleton.2 last⟩

theorem uniform_of_fresh
    (fresh : ∀ key ∈ c.records.keys, ∃ milliseconds r n, key = freshKey milliseconds r n) :
    c.Uniform 32 := by
  have ascii : ∀ key ∈ c.records.keys, ∀ ch ∈ key.toList, ch.val ≤ 127 := by
    intro key mem
    obtain ⟨milliseconds, r, n, rfl⟩ := fresh key mem
    have marks : '7'.val ≤ 127 ∧ '8'.val ≤ 127 := by decide
    simp only [freshKey, String.toList_ofList, List.forall_mem_append, List.forall_mem_cons]
    exact ⟨⟨⟨ascii_hexDigits _ _, marks.1, ascii_hexDigits _ _⟩, marks.2, ascii_hexDigits _ _⟩,
      ascii_hexDigits _ _⟩
  refine ⟨ascii, fun key mem => ?_, by decide⟩
  rw [← Text.byteLength_toList, Text.byteLength_of_ascii (ascii key mem)]
  obtain ⟨milliseconds, r, n, rfl⟩ := fresh key mem
  simp [freshKey, length_hexDigits]

def Collection.candidates (c : Collection) (fragment : String) : Set String :=
  {key | key ∈ c.records.keys ∧ (fragment.toList <+: key.toList ∨ fragment.toList <:+ key.toList)}

/-- The fragment is the key, or is not empty and no other key starts or ends with it. -/
def Collection.StandsFor (c : Collection) (fragment key : String) : Prop :=
  fragment ∈ c.records.keys ∧ key = fragment ∨ fragment ≠ "" ∧ c.candidates fragment = {key}

theorem nodup_keys (c : Collection) : c.records.keys.Nodup := by
  refine List.Pairwise.imp ?_ c.records.ascending
  rintro key _ less rfl
  exact String.lt_irrefl key less

theorem mem_filter_fits : key ∈ c.records.keys.filter (fits fragment) ↔ key ∈ c.candidates fragment := by
  simp [Collection.candidates, fits]

theorem ncard_candidates :
    (c.candidates fragment).ncard = (c.records.keys.filter (fits fragment)).length := by
  have same : c.candidates fragment = (c.records.keys.filter (fits fragment)).toFinset := by
    ext key
    rw [List.coe_toFinset, Set.mem_ofPred_eq, mem_filter_fits]
  rw [same, Set.ncard_coe_finset, List.toFinset_card_of_nodup ((nodup_keys c).filter _)]

theorem resolve_of_stored (stored : fragment ∈ c.records.keys) : c.resolve fragment = .ok fragment :=
  if_pos (List.contains_iff_mem.2 stored)

theorem resolve_empty (absent : "" ∉ c.records.keys) : c.resolve "" = .error (.notFound "") := by
  rw [Collection.resolve, resolveAmong, if_neg (mt List.contains_iff_mem.1 absent), if_pos rfl]

theorem resolve_cases (absent : fragment ∉ c.records.keys) (nonempty : fragment ≠ "") :
    c.candidates fragment = ∅ ∧ c.resolve fragment = .error (.notFound fragment) ∨
      (∃ key, c.candidates fragment = {key} ∧ c.resolve fragment = .ok key) ∨
      2 ≤ (c.candidates fragment).ncard ∧
        c.resolve fragment = .error (.ambiguous fragment (c.candidates fragment).ncard) := by
  have among (key : String) : key ∈ c.records.keys.filter (fits fragment) ↔
      key ∈ c.candidates fragment := mem_filter_fits
  rw [Collection.resolve, resolveAmong, if_neg (mt List.contains_iff_mem.1 absent), if_neg nonempty,
    ncard_candidates]
  cases found : c.records.keys.filter (fits fragment) with
  | nil =>
    rw [found] at among
    refine .inl ⟨Set.eq_empty_iff_forall_notMem.2 fun key mem => ?_, rfl⟩
    exact List.not_mem_nil ((among key).2 mem)
  | cons key others =>
    rw [found] at among
    cases others with
    | nil =>
      refine .inr (.inl ⟨key, Set.ext fun k => ?_, rfl⟩)
      rw [← among, List.mem_singleton, Set.mem_singleton_iff]
    | cons next others =>
      refine .inr (.inr ⟨?_, rfl⟩)
      simp

theorem resolve_of_unmatched (none : ∀ key, ¬ c.StandsFor fragment key)
    (few : ¬ (fragment ≠ "" ∧ 2 ≤ (c.candidates fragment).ncard)) :
    c.resolve fragment = .error (.notFound fragment) := by
  have stored : fragment ∉ c.records.keys := fun stored => none fragment (.inl ⟨stored, rfl⟩)
  by_cases empty : fragment = ""
  · subst empty
    exact resolve_empty stored
  · rcases resolve_cases stored empty with ⟨-, answer⟩ | ⟨k, only, -⟩ | ⟨several, -⟩
    · exact answer
    · exact absurd (.inr ⟨empty, only⟩) (none k)
    · exact absurd ⟨empty, several⟩ few

section Lengths

variable (same : ∀ key ∈ c.records.keys, key.utf8ByteSize = n)
include same

theorem candidates_of_stored (stored : fragment ∈ c.records.keys) :
    c.candidates fragment = {fragment} := by
  ext key
  constructor
  · rintro ⟨mem, fits⟩
    exact (eq_of_fits fits ((same _ stored).trans (same _ mem).symm)).symm
  · rintro rfl
    exact ⟨stored, .inl (List.prefix_refl _)⟩

theorem resolve_of_candidate (nonempty : fragment ≠ "") (mem : key ∈ c.candidates fragment) :
    c.resolve fragment = .ok key ∨ ∃ count, c.resolve fragment = .error (.ambiguous fragment count) := by
  by_cases stored : fragment ∈ c.records.keys
  · rw [candidates_of_stored same stored] at mem
    obtain rfl := Set.mem_singleton_iff.1 mem
    exact .inl (resolve_of_stored stored)
  · rcases resolve_cases stored nonempty with ⟨none, -⟩ | ⟨k, only, found⟩ | ⟨-, several⟩
    · rw [none] at mem
      cases mem
    · rw [only] at mem
      obtain rfl := Set.mem_singleton_iff.1 mem
      exact .inl found
    · exact .inr ⟨_, several⟩

end Lengths

namespace Collection.Uniform

variable (uniform : c.Uniform n)
include uniform

theorem ne_empty (stored : key ∈ c.records.keys) : key ≠ "" := by
  rintro rfl
  have long := uniform.enough
  rw [← uniform.length _ stored] at long
  exact absurd long (by decide)

theorem candidate (h : c.StandsFor fragment key) : fragment ≠ "" ∧ key ∈ c.candidates fragment := by
  rcases h with ⟨stored, rfl⟩ | ⟨nonempty, only⟩
  · rw [candidates_of_stored uniform.length stored]
    exact ⟨uniform.ne_empty stored, rfl⟩
  · rw [only]
    exact ⟨nonempty, rfl⟩

theorem resolve_eq_ok_iff : c.resolve fragment = .ok key ↔ c.StandsFor fragment key := by
  by_cases stored : fragment ∈ c.records.keys
  · have only := candidates_of_stored uniform.length stored
    have nonempty := uniform.ne_empty stored
    simp [resolve_of_stored stored, StandsFor, stored, only, nonempty, eq_comm]
  · by_cases empty : fragment = ""
    · subst empty
      simp [resolve_empty stored, StandsFor, stored]
    · rcases resolve_cases stored empty with ⟨none, answer⟩ | ⟨k, only, answer⟩ | ⟨several, answer⟩
      · simp [answer, StandsFor, stored, none, eq_comm]
      · simp [answer, StandsFor, stored, only, empty]
      · simp only [answer, StandsFor, stored, false_and, false_or]
        refine ⟨nofun, ?_⟩
        rintro ⟨-, only⟩
        rw [only, Set.ncard_singleton] at several
        exact absurd several (by decide)

theorem resolve_of_several (nonempty : fragment ≠ "") (several : 2 ≤ (c.candidates fragment).ncard) :
    c.resolve fragment = .error (.ambiguous fragment (c.candidates fragment).ncard) := by
  by_cases stored : fragment ∈ c.records.keys
  · rw [candidates_of_stored uniform.length stored, Set.ncard_singleton] at several
    exact absurd several (by decide)
  · rcases resolve_cases stored nonempty with ⟨none, -⟩ | ⟨k, only, -⟩ | ⟨-, answer⟩
    · rw [none, Set.ncard_empty] at several
      exact absurd several (by decide)
    · rw [only, Set.ncard_singleton] at several
      exact absurd several (by decide)
    · exact answer

theorem candidate_shortKey (stored : key ∈ c.records.keys) :
    shortKey key ≠ "" ∧ key ∈ c.candidates (shortKey key) := by
  have length : key.toList.length = n := by
    rw [← Text.byteLength_of_ascii (uniform.ascii key stored), Text.byteLength_toList,
      uniform.length key stored]
  have enough := uniform.enough
  have before : Text.byteLength (key.toList.take (n - 8)) = n - 8 := by
    rw [Text.byteLength_of_ascii fun ch mem => uniform.ascii key stored ch (List.mem_of_mem_take mem),
      List.length_take, length]
    omega
  have short : shortKey key = String.ofList (key.toList.drop (n - 8)) := by
    have split : Text.splitBytes? _ (key.toList.take (n - 8) ++ key.toList.drop (n - 8)) = _ :=
      Text.splitBytes?_append
    rw [before, List.take_append_drop] at split
    rw [shortKey, uniform.length key stored, split]
  rw [short]
  refine ⟨fun empty => ?_, stored, .inr ?_⟩
  · have nothing := String.ofList_eq_empty_iff.1 empty
    have := congrArg List.length nothing
    rw [List.length_drop, length, List.length_nil] at this
    omega
  · rw [String.toList_ofList]
    exact List.drop_suffix _ _

end Collection.Uniform

theorem mem_keys_add {more : List Entry} : key ∈ (c.add more).records.keys ↔
    key ∈ c.records.keys ∨ key ∈ more.map Entry.key := by
  induction more generalizing c with
  | nil => simp [Collection.add]
  | cons e others ih =>
    have first : key ∈ (c.put e.key e.word).records.keys ↔ key = e.key ∨ key ∈ c.records.keys :=
      mem_keys_putOrdered
    rw [Collection.add, List.foldl_cons, ← Collection.add, ih, first, List.map_cons, List.mem_cons]
    tauto

theorem length_of_mem_add {more : List Entry} (same : ∀ key ∈ c.records.keys, key.utf8ByteSize = n)
    (added : ∀ e ∈ more, e.key.utf8ByteSize = n) :
    ∀ key ∈ (c.add more).records.keys, key.utf8ByteSize = n := by
  intro key mem
  rcases mem_keys_add.1 mem with old | new
  · exact same key old
  · obtain ⟨e, given, rfl⟩ := List.mem_map.1 new
    exact added e given

/-- Among keys of ASCII characters and of one length, a fragment stands for the key that it is, or for
the only one that starts or ends with it. If several do it is ambiguous, and in all other cases there
is no such key. So the short form of a key never stands for another one, and what a fragment stands
for does not change to another key when words are added. -/
theorem resolves_by_start_or_end (uniform : c.Uniform n) :
    (∀ fragment key, c.resolve fragment = .ok key ↔ c.StandsFor fragment key) ∧
    (∀ fragment, fragment ≠ "" → 2 ≤ (c.candidates fragment).ncard →
      c.resolve fragment = .error (.ambiguous fragment (c.candidates fragment).ncard)) ∧
    (∀ fragment, (∀ key, ¬ c.StandsFor fragment key) →
      ¬ (fragment ≠ "" ∧ 2 ≤ (c.candidates fragment).ncard) →
      c.resolve fragment = .error (.notFound fragment)) ∧
    (∀ e ∈ c.entries, c.resolve (shortKey e.key) = .ok e.key ∨
      ∃ count, c.resolve (shortKey e.key) = .error (.ambiguous (shortKey e.key) count)) ∧
    ∀ fragment key more, c.resolve fragment = .ok key → (∀ e ∈ more, e.key.utf8ByteSize = n) →
      (c.add more).resolve fragment = .ok key ∨
        ∃ count, (c.add more).resolve fragment = .error (.ambiguous fragment count) := by
  refine ⟨fun _ _ => uniform.resolve_eq_ok_iff, fun _ => uniform.resolve_of_several,
    fun _ => resolve_of_unmatched, fun e mem => ?_, fun fragment key more resolved added => ?_⟩
  · obtain ⟨p, given, rfl⟩ := List.mem_map.1 mem
    obtain ⟨nonempty, candidate⟩ := uniform.candidate_shortKey (List.mem_map_of_mem given)
    exact resolve_of_candidate uniform.length nonempty candidate
  · obtain ⟨nonempty, stored, fits⟩ := uniform.candidate (uniform.resolve_eq_ok_iff.1 resolved)
    have candidate : key ∈ (c.add more).candidates fragment := ⟨mem_keys_add.2 (.inl stored), fits⟩
    exact resolve_of_candidate (length_of_mem_add uniform.length added) nonempty candidate

def crossing : Collection :=
  (({} : Collection).put "0190aaaa1111" { content := [] }).put "aaaa11112222" { content := [] }

theorem uniform_crossing : crossing.Uniform 12 where
  ascii := by
    have all : crossing.records.keys.all fun key => key.toList.all (·.val ≤ 127) := by decide
    simpa using all
  length := by decide
  enough := by decide

theorem resolves_crossing : crossing.Uniform 12 ∧ crossing.StandsFor "2222" "aaaa11112222" ∧
    2 ≤ (crossing.candidates "aaaa1111").ncard ∧
    crossing.resolve "aaaa1111" =
      .error (.ambiguous "aaaa1111" (crossing.candidates "aaaa1111").ncard) ∧
    ∃ count, (crossing.add [⟨"222211110190", { content := [] }⟩]).resolve "2222" =
      .error (.ambiguous "2222" count) := by
  obtain ⟨stands, several, -, -, added⟩ := resolves_by_start_or_end uniform_crossing
  have two : 2 ≤ (crossing.candidates "aaaa1111").ncard := by
    rw [ncard_candidates]
    decide
  have found : crossing.resolve "2222" = .ok "aaaa11112222" := by decide
  refine ⟨uniform_crossing, (stands _ _).1 found, two, several _ (by decide) two, ?_⟩
  exact (added _ _ _ found (by decide)).resolve_left (by decide)

end Wordhoard
