import Wordhoard.Proofs.Store.History

/-! What is stored after any operations, one after the other. Main statement: it is what their history
tells of the words that were created and not removed. -/
namespace Wordhoard.Store

open Files (Disk Program outcome)

def Operation.newKeys : Operation → List String
  | create newKey definitions => (List.range definitions.length).map newKey
  | _ => []

def play (path : String) : List Operation → Disk → History × Disk
  | [], d => ([], d)
  | op :: others, d =>
    let (result, d₁) := outcome (op.run path) d
    let (h, d₂) := play path others d₁
    (⟨op, result⟩ :: h, d₂)

variable {path key : String} {c c' : Collection} {d d' : Disk} {op : Operation} {x : Event}
  {h : History}

def Event.applied (x : Event) (records : List (String × Word)) : List (String × Word) :=
  (records.filter fun p => x.removed? ≠ some p.1).map (fun p => (p.1, x.act p.1 p.2)) ++
    x.made.map fun m => (m.1, .ofDefinition m.2)

theorem Event.applied_of_keeps {records : List (String × Word)} (stays : x.removed? = none)
    (adds : x.made = []) : x.applied records = records.map fun p => (p.1, x.act p.1 p.2) := by
  have all : (records.filter fun p => x.removed? ≠ some p.1) = records := by
    simp [stays]
  rw [Event.applied, all, adds, List.map_nil, List.append_nil]

theorem Event.applied_idle {records : List (String × Word)} (stays : x.removed? = none)
    (adds : x.made = []) (same : ∀ p ∈ records, x.act p.1 p.2 = p.2) :
    x.applied records = records := by
  rw [applied_of_keeps stays adds]
  refine (List.map_congr_left fun p mem => ?_).trans (List.map_id _)
  rw [same p mem]
  rfl

theorem toList_put {w : Word} (mem : key ∈ c.records.keys) :
    (c.put key w).records.toList = withValue key w c.records.toList :=
  KeyMap.toList_insert_of_mem mem

theorem toList_add {entries : List Entry} {pairs : List (String × Word)}
    (same : entries.map (fun e => (e.key, e.word)) = pairs)
    (ascending : ((c.records.toList ++ pairs).map Prod.fst).Pairwise (· < ·)) :
    (c.add entries).records.toList = c.records.toList ++ pairs := by
  have records (entries : List Entry) (c : Collection) : (c.add entries).records =
      (entries.map fun e => (e.key, e.word)).foldl (fun m p => m.insert p.1 p.2) c.records := by
    induction entries generalizing c with
    | nil => rfl
    | cons e others ih => exact ih (c.put e.key e.word)
  rw [records, same, KeyMap.toList_foldl_insert ascending]

theorem value_of_key {w w' : Word} (h : (key, w) ∈ c.records.toList)
    (h' : (key, w') ∈ c.records.toList) : w = w' :=
  Option.some.inj ((KeyMap.get?_eq_some_iff.2 h).symm.trans (KeyMap.get?_eq_some_iff.2 h'))

theorem snd_review_of_not_counted {w : Word} {now : Time.Instant} (h : (w.review now).1 = false) :
    (w.review now).2 = w := by
  unfold Word.review at h ⊢
  split at h
  · rename_i reviewed
    rw [if_pos reviewed]
  · cases h

theorem mem_keys_of_entryOf {e : Entry} (found : entryOf c key = .ok e) : key ∈ c.records.keys :=
  List.mem_map_of_mem (Operation.mem_of_entryOf found)

theorem withValue_eq_map {e : Entry} (found : entryOf c key = .ok e) (f : Word → Word) :
    withValue key (f e.word) c.records.toList =
      c.records.toList.map fun p => (p.1, if key = p.1 then f p.2 else p.2) := by
  refine List.map_congr_left fun p mem => ?_
  obtain ⟨k, w⟩ := p
  by_cases same : k = key
  · subst same
    rw [if_pos rfl, if_pos rfl, value_of_key mem (Operation.mem_of_entryOf found)]
  · rw [if_neg same, if_neg (Ne.symm same)]

theorem keys_made (op : Operation) : (⟨op, .ok ()⟩ : Event).made.map Prod.fst = op.newKeys := by
  cases op with
  | create newKey definitions =>
    refine List.ext_getElem ?_ fun n _ _ => ?_
    · simp [Event.made, Operation.newKeys]
    · simp [Event.made, Operation.newKeys]
  | _ => rfl

theorem toList_create {newKey : Nat → String} {definitions : List Definition}
    (ascending : (c.records.keys ++ (Operation.create newKey definitions).newKeys).Pairwise (· < ·)) :
    (c.add ((definitions.map Word.ofDefinition).mapIdx fun n w => ⟨newKey n, w⟩)).records.toList =
      (⟨.create newKey definitions, .ok ()⟩ : Event).applied c.records.toList := by
  have adds : (⟨.create newKey definitions, .ok ()⟩ : Event).applied c.records.toList =
      c.records.toList ++ (definitions.mapIdx fun n d => (newKey n, d)).map fun m =>
        (m.1, .ofDefinition m.2) := by
    simp [Event.applied, Event.removed?, Event.made, Event.act, Event.reviewed?,
      Event.redefined?, Event.isReset]
  rw [adds]
  refine toList_add (List.ext_getElem (by simp) fun n _ _ => by simp) ?_
  have keys := keys_made (.create newKey definitions)
  rw [Event.made] at keys
  rw [List.map_append, List.map_map]
  exact keys ▸ ascending

/-- A review that does not count makes no difference to the word, so it may be taken for one that
does. -/
theorem toList_review {e : Entry} (found : entryOf c key = .ok e) (now : Time.Instant)
    (valid : now.isValid) :
    (if (e.word.review now).1 then c.put key (e.word.review now).2 else c).records.toList =
      (⟨.review key now valid, .ok ()⟩ : Event).applied c.records.toList := by
  cases counted : (e.word.review now).1 with
  | true =>
    rw [if_pos rfl, toList_put (mem_keys_of_entryOf found),
      withValue_eq_map found fun w => (w.review now).2, Event.applied_of_keeps rfl rfl]
    exact List.map_congr_left fun p _ => by rw [Event.act_review]
  | false =>
    rw [if_neg Bool.false_ne_true]
    refine (Event.applied_idle rfl rfl fun p mem => ?_).symm
    obtain ⟨k, w⟩ := p
    rw [Event.act_review]
    split
    · rename_i same
      subst same
      rw [← value_of_key mem (Operation.mem_of_entryOf found)] at counted
      exact snd_review_of_not_counted counted
    · rfl

theorem toList_effect (changes : op.effect c = .ok c')
    (ascending : (c.records.keys ++ op.newKeys).Pairwise (· < ·)) :
    c'.records.toList = (⟨op, .ok ()⟩ : Event).applied c.records.toList := by
  cases op with
  | create newKey definitions =>
    cases changes
    exact toList_create ascending
  | review key now valid =>
    obtain ⟨e, found, rfl⟩ := Operation.exists_of_map_eq_ok changes
    exact toList_review found now valid
  | update key definition =>
    obtain ⟨e, found, rfl⟩ := Operation.exists_of_map_eq_ok changes
    rw [toList_put (mem_keys_of_entryOf found), withValue_eq_map found fun w => w.redefine definition,
      Event.applied_of_keeps rfl rfl]
    exact List.map_congr_left fun p _ => by rw [Event.act_update]
  | remove key =>
    obtain ⟨e, found, rfl⟩ := Operation.exists_of_map_eq_ok changes
    have kept : (⟨.remove key, .ok ()⟩ : Event).applied c.records.toList =
        (c.records.toList.filter fun p => some key ≠ some p.1).map id ++ [] := rfl
    rw [kept, List.map_id, List.append_nil]
    refine List.filter_congr fun p _ => ?_
    simp [eq_comm]
  | resetSession now valid =>
    cases changes
    rw [Event.applied_of_keeps rfl rfl]
    rfl
  | list keep =>
    cases changes
    exact (Event.applied_idle rfl rfl fun _ _ => rfl).symm
  | get key =>
    obtain ⟨e, -, rfl⟩ := Operation.exists_of_map_eq_ok changes
    exact (Event.applied_idle rfl rfl fun _ _ => rfl).symm
  | size =>
    cases changes
    exact (Event.applied_idle rfl rfl fun _ _ => rfl).symm
  | resolve fragment =>
    obtain ⟨key, -, rfl⟩ := Operation.exists_of_map_eq_ok changes
    exact (Event.applied_idle rfl rfl fun _ _ => rfl).symm
  | exportText =>
    cases changes
    exact (Event.applied_idle rfl rfl fun _ _ => rfl).symm

theorem mem_keys_of_touched (changes : op.effect c = .ok c')
    (touched : (⟨op, .ok ()⟩ : Event).touched? = some key) : key ∈ c.records.keys := by
  cases op with
  | review key now valid =>
    obtain ⟨e, found, -⟩ := Operation.exists_of_map_eq_ok changes
    cases touched
    exact mem_keys_of_entryOf found
  | update key definition =>
    obtain ⟨e, found, -⟩ := Operation.exists_of_map_eq_ok changes
    cases touched
    exact mem_keys_of_entryOf found
  | remove key =>
    obtain ⟨e, found, -⟩ := Operation.exists_of_map_eq_ok changes
    cases touched
    exact mem_keys_of_entryOf found
  | _ => cases touched

namespace History

def records (h : History) : List (String × Word) := h.remaining.map fun m => (m.1, h.word m)

theorem remaining_concat (sound : Sound h)
    (known : ∀ key, x.touched? = some key → key ∈ h.created.map Prod.fst)
    (ascending : ((h ++ [x]).created.map Prod.fst).Pairwise (· < ·)) :
    (h ++ [x]).remaining = (h.remaining.filter fun m => x.removed? ≠ some m.1) ++ x.made := by
  rw [remaining, created_concat, removed_concat, List.filter_append]
  congr 1
  · rw [remaining, List.filter_filter]
    refine List.filter_congr fun m _ => ?_
    cases removed : x.removed? with
    | none => simp
    | some key => by_cases same : key = m.1 <;> simp [same, eq_comm]
  · refine List.filter_eq_self.2 fun m mem => ?_
    have new := Sound.not_made_before ascending (List.mem_map_of_mem mem)
    have before : m.1 ∉ h.removed := fun removed => new (sound.created_of_removed removed)
    have now : x.removed? ≠ some m.1 := fun removed =>
      new (known m.1 (Event.touched?_of_removed? removed))
    simp [before, Option.mem_toList, now]

theorem word_made (sound : Sound h) {made : String × Definition}
    (known : ∀ key, x.touched? = some key → key ∈ h.created.map Prod.fst)
    (new : made.1 ∉ h.created.map Prod.fst) (makes : x.makes made.1 = true) :
    (h ++ [x]).word made = .ofDefinition made.2 := by
  obtain ⟨reviewed, redefined⟩ := Sound.not_touched known new
  have reviews : (h ++ [x]).firstReviews made.1 = [] := by
    cases reset : x.isReset with
    | true => rw [firstReviews_of_reset reset, sound.firstReviews_new new]
    | false =>
      rw [sound.firstReviews_concat reset, sound.firstReviews_new new, reviewed]
      simp
  rw [word, definition_concat, redefined, sound.definition_new new, reviews, isReviewed_concat, makes,
    Bool.not_true, Bool.and_false, Bool.false_and]
  rfl

theorem records_concat (sound : Sound h)
    (known : ∀ key, x.touched? = some key → key ∈ h.created.map Prod.fst)
    (ascending : ((h ++ [x]).created.map Prod.fst).Pairwise (· < ·)) :
    (h ++ [x]).records = x.applied h.records := by
  rw [records, remaining_concat sound known ascending, List.map_append, Event.applied]
  congr 1
  · rw [records, List.filter_map, List.map_map]
    refine List.map_congr_left fun m mem => ?_
    have created : m.1 ∈ h.created.map Prod.fst :=
      List.mem_map_of_mem (List.mem_filter.1 (List.mem_filter.1 mem).1).1
    have old : x.makes m.1 = false := by
      rw [← Bool.not_eq_true, Event.makes_iff]
      exact fun makes => Sound.not_made_before ascending makes created
    rw [sound.word_concat old]
    rfl
  · refine List.map_congr_left fun m mem => ?_
    have makes := List.mem_map_of_mem (f := Prod.fst) mem
    rw [word_made sound known (Sound.not_made_before ascending makes) (Event.makes_iff.2 makes)]

end History

theorem Event.failed (op : Operation) (e : Error) :
    (⟨op, .error e⟩ : Event).made = [] ∧ (⟨op, .error e⟩ : Event).removed? = none ∧
      (⟨op, .error e⟩ : Event).touched? = none ∧
      ∀ key w, (⟨op, .error e⟩ : Event).act key w = w := by
  cases op <;> exact ⟨rfl, rfl, rfl, fun _ _ => rfl⟩

theorem keys_sublist (told : c.records.toList = h.records) :
    c.records.keys.Sublist (h.created.map Prod.fst) := by
  have keys : c.records.keys = h.remaining.map Prod.fst := by
    rw [KeyMap.keys, told, History.records, List.map_map]
    rfl
  rw [keys]
  exact List.filter_sublist.map _

/-- If the stored records are what a history tells, they still are after one operation more. -/
theorem records_step {result : Except Error Unit} (sound : h.Sound)
    (told : c.records.toList = h.records) (stored : outcome (loadOrEmpty path) d = (.ok c, d))
    (run : outcome (op.run path) d = (result, d'))
    (saves : ∀ e, result = .error e → e.ofSave = false)
    (ascending : (h.created.map Prod.fst ++ op.newKeys).Pairwise (· < ·)) :
    ∃ c', outcome (loadOrEmpty path) d' = (.ok c', d') ∧
      History.Sound (h ++ [⟨op, result⟩]) ∧ c'.records.toList = History.records (h ++ [⟨op, result⟩]) := by
  rcases run_step stored run saves with ⟨e, -, rfl, rfl⟩ | ⟨c', changes, rfl, stored'⟩
  · obtain ⟨made, stays, idle, same⟩ := Event.failed op e
    have known : ∀ key, (⟨op, .error e⟩ : Event).touched? = some key →
        key ∈ h.created.map Prod.fst := by
      intro key touched
      rw [idle] at touched
      cases touched
    have ordered : ((History.created (h ++ [⟨op, .error e⟩])).map Prod.fst).Pairwise (· < ·) := by
      rw [History.created_concat, made, List.append_nil]
      exact sound.ascending_created
    refine ⟨c, stored, .concat sound known ordered, ?_⟩
    rw [History.records_concat sound known ordered, told,
      Event.applied_idle stays made fun _ _ => same _ _]
  · have keys := keys_sublist told
    have known : ∀ key, (⟨op, .ok ()⟩ : Event).touched? = some key →
        key ∈ h.created.map Prod.fst :=
      fun key touched => keys.subset (mem_keys_of_touched changes touched)
    have ordered : ((History.created (h ++ [⟨op, .ok ()⟩])).map Prod.fst).Pairwise (· < ·) := by
      rw [History.created_concat, List.map_append, keys_made]
      exact ascending
    refine ⟨c', stored', .concat sound known ordered, ?_⟩
    rw [History.records_concat sound known ordered, ← told]
    exact toList_effect changes (ascending.sublist (keys.append_right _))

theorem newKeys_sublist (op : Operation) (result : Except Error Unit) :
    ((⟨op, result⟩ : Event).made.map Prod.fst).Sublist op.newKeys := by
  cases result with
  | error e =>
    rw [(Event.failed op e).1]
    exact List.nil_sublist _
  | ok =>
    rw [keys_made]

theorem records_play {ops : List Operation} (sound : h.Sound)
    (told : c.records.toList = h.records) (stored : outcome (loadOrEmpty path) d = (.ok c, d))
    (saves : ∀ x ∈ (play path ops d).1, ∀ e, x.result = .error e → e.ofSave = false)
    (ascending : (h.created.map Prod.fst ++ ops.flatMap Operation.newKeys).Pairwise (· < ·)) :
    ∃ c', outcome (loadOrEmpty path) (play path ops d).2 = (.ok c', (play path ops d).2) ∧
      c'.records.toList = (h ++ (play path ops d).1).records := by
  -- on the operations that are left: what was run before is in the history
  induction ops generalizing h c d with
  | nil =>
    rw [play, List.append_nil]
    exact ⟨c, stored, told⟩
  | cons op others ih =>
    cases run : outcome (op.run path) d with
    | mk result d₁ =>
      have played : play path (op :: others) d =
          (⟨op, result⟩ :: (play path others d₁).1, (play path others d₁).2) := by
        rw [play, run]
      rw [played] at saves ⊢
      rw [List.flatMap_cons, ← List.append_assoc] at ascending
      obtain ⟨now, later⟩ := List.forall_mem_cons.1 saves
      have here := (List.pairwise_append.1 ascending).1
      obtain ⟨c', stored', sound', told'⟩ := records_step sound told stored run now here
      have further : ((History.created (h ++ [⟨op, result⟩])).map Prod.fst ++
          others.flatMap Operation.newKeys).Pairwise (· < ·) := by
        rw [History.created_concat, List.map_append]
        exact ascending.sublist (((newKeys_sublist op result).append_left _).append_right _)
      obtain ⟨c'', stored'', told''⟩ := ih sound' told' stored' later further
      rw [List.append_assoc] at told''
      exact ⟨c'', stored'', told''⟩

/-- The disk where a collection is stored, and nothing else. -/
def alone (c : Collection) : Disk := { nodes := [(["words.json"], .file c.text.toUTF8)] }

theorem save_alone (c c' : Collection) :
    outcome (save "words.json" c') (alone c) = (.ok (), alone c') := rfl

theorem load_alone (readable : c.Readable) (version : c.version ≤ currentVersion) :
    outcome (loadOrEmpty "words.json") (alone c) = (.ok c, alone c) := by
  have read : (alone c).read "words.json" = .ok c.text.toUTF8 := rfl
  exact loadOrEmpty_of_read read readable version

theorem run_alone (readable : c.Readable) (version : c.version ≤ currentVersion)
    (changes : op.effect c = .ok c') :
    outcome (op.run "words.json") (alone c) = (.ok (), alone c') := by
  rcases op.run_cases (load_alone readable version) with ⟨e, fails, -⟩ | ⟨idle, run⟩ | ⟨c'', saves, run⟩
  · cases fails.symm.trans changes
  · cases idle.symm.trans changes
    exact run
  · cases saves.symm.trans changes
    exact run.trans (save_alone c c')

theorem play_alone {ops : List Operation} (readable : c.Readable)
    (version : c.version ≤ currentVersion)
    (changes : ops.foldlM (fun c op => op.effect c) c = .ok c') :
    play "words.json" ops (alone c) = (ops.map fun op => ⟨op, .ok ()⟩, alone c') := by
  induction ops generalizing c with
  | nil =>
    cases changes
    rfl
  | cons op others ih =>
    rw [List.foldlM_cons] at changes
    cases first : op.effect c with
    | error e =>
      rw [first] at changes
      cases changes
    | ok c₁ =>
      rw [first] at changes
      obtain ⟨readable', version'⟩ := Operation.sound_effect readable first
      rw [play, run_alone readable version first]
      dsimp only
      rw [ih readable' (version' ▸ version) changes]
      rfl

/-- From a store without a file on, and as long as saving works and every new key is greater than those
before, a listing shows the words that were created and not removed, in the order of their creation,
each as the history tells it. -/
theorem list_of_history (path : String) (ops : List Operation) (d : Disk)
    (fresh : d.read path = .error .missing)
    (saves : ∀ x ∈ (play path ops d).1, ∀ e, x.result = .error e → e.ofSave = false)
    (ascending : (ops.flatMap Operation.newKeys).Pairwise (· < ·)) :
    outcome (list path fun _ => true) (play path ops d).2 =
      (.ok ((play path ops d).1.remaining.map fun made =>
        ⟨made.1, (play path ops d).1.word made⟩), (play path ops d).2) := by
  obtain ⟨c, stored, told⟩ := records_play .nil rfl (loadOrEmpty_of_missing fresh) saves ascending
  have listed : outcome (list path fun _ => true) (play path ops d).2 =
      (.ok (c.entries.filter fun _ => true), (play path ops d).2) :=
    Files.outcome_bind_of_ok stored
  have all : c.entries.filter (fun _ => true) = c.entries :=
    List.filter_eq_self.2 fun _ _ => rfl
  rw [listed, all, Collection.entries, told, List.nil_append, History.records, List.map_map]
  rfl

/-- Two words, of which one is reviewed in two sessions and redefined, and the other one removed. -/
def seaAndSky : List Operation := [
  .create (fun n => if n = 0 then "a" else "b")
    [⟨[.plain "sea"], "", {}⟩, ⟨[.plain "sky"], "", {}⟩],
  .review "a" ⟨0, 0, 0⟩ (by decide),
  .review "a" ⟨0, 1, 0⟩ (by decide),
  .resetSession ⟨1, 0, 0⟩ (by decide),
  .review "a" ⟨1, 1, 0⟩ (by decide),
  .update "a" ⟨[.plain "ocean"], "", {}⟩,
  .remove "b"]

theorem play_seaAndSky : ∃ c, play "words.json" seaAndSky {} =
    (seaAndSky.map fun op => ⟨op, .ok ()⟩, alone c) := by
  obtain ⟨create, others, parts⟩ : ∃ create others, seaAndSky = create :: others := ⟨_, _, rfl⟩
  obtain ⟨c₁, first⟩ : ∃ c, create.effect {} = .ok c := by
    cases parts
    exact ⟨_, rfl⟩
  have run : outcome (create.run "words.json") {} = (.ok (), alone c₁) := by
    cases parts
    cases first
    rfl
  obtain ⟨c, further⟩ : ∃ c, others.foldlM (fun c op => op.effect c) c₁ = .ok c := by
    cases parts
    cases first
    exact ⟨_, rfl⟩
  obtain ⟨readable, version⟩ := Operation.sound_effect readable_empty first
  have old : c₁.version ≤ currentVersion := version ▸ UInt32.le_refl _
  rw [parts, play, run]
  dsimp only
  rw [play_alone readable old further]
  exact ⟨c, rfl⟩

theorem list_of_seaAndSky :
    outcome (list "words.json" fun _ => true) (play "words.json" seaAndSky {}).2 =
      (.ok [⟨"a", { content := [.plain "ocean"]
                    reviewCount := 2
                    lastReviewed := some ⟨1, 1, 0⟩
                    reviewed := true }⟩], (play "words.json" seaAndSky {}).2) := by
  obtain ⟨c, played⟩ := play_seaAndSky
  have saves : ∀ x ∈ (play "words.json" seaAndSky {}).1, ∀ e, x.result = .error e →
      e.ofSave = false := by
    rw [played]
    intro x mem e failed
    obtain ⟨op, -, rfl⟩ := List.mem_map.1 mem
    cases failed
  have listed := list_of_history "words.json" seaAndSky {} rfl saves (by decide)
  rw [played] at listed ⊢
  exact listed

end Wordhoard.Store
