import Mosh.Deletion.Journal

/-!
# Which deletion decides

Several deletions can match one message: personal and shared ones, of several users,
in several states. The application of deletions to the log in memory
(`message_deletion/application.rs`) and the guard on every write to the history
(`persistence/deletion_guard.rs`) choose one of them on their own, which says what is
left of the message. The first one prefers a rejected request to a confirmed one, the
second one does not.

* `DeletionTable`: the journal on disk and its index by target, which is complete.
* `mem_matching`: the guard looks at all records that match the message.
* `marker_agree_iff`: when the two choices leave the same of a message.
-/

namespace Mosh.Deletion

open Choice DeletionRecord

/-! ## The tables -/

/-- The key is one of the range of a context. -/
def underContext (context key : String) : Bool :=
  (context ++ "\x01").toList.isPrefixOf key.toList

/-- The journal on disk, with an index of its keys by context and target. -/
structure DeletionTable where
  journal : Journal
  targets : Finset (String × String × String)
  /-- Records are filed under their storage keys. -/
  keyed : ∀ (k : String) (r : DeletionRecord), journal[k]? = some r → r.storageKey = k
  /-- Records are found by their key and by their alias. -/
  indexed : ∀ (k : String) (r : DeletionRecord), journal[k]? = some r →
    (r.context, r.key, k) ∈ targets ∧
      ∀ alias_, r.personalCorrelation = some alias_ → (r.context, alias_, k) ∈ targets
  /-- The index of a context names keys of its range. -/
  ranged : ∀ context target k, (context, target, k) ∈ targets → underContext context k

/-- Storage keys start with the context. -/
theorem underContext_storageKey (r : DeletionRecord) : underContext r.context r.storageKey := by
  rw [underContext, storageKey, List.isPrefixOf_iff_prefix]
  simp only [String.toList_append, List.append_assoc]
  rw [← List.append_assoc]
  exact List.prefix_append _ _

/-- The entries of the index for a record. -/
def indexDeletion (r : DeletionRecord) : Finset (String × String × String) :=
  insert (r.context, r.key, r.storageKey)
    (r.personalCorrelation.elim ∅ fun alias_ => {(r.context, alias_, r.storageKey)})

/-- The entries for a record are in the range of its context. -/
theorem mem_indexDeletion {r : DeletionRecord} {context target k : String}
    (h : (context, target, k) ∈ indexDeletion r) : underContext context k := by
  obtain h | h := Finset.mem_insert.1 h
  · obtain ⟨rfl, rfl, rfl⟩ := h
    exact underContext_storageKey r
  · cases ha : r.personalCorrelation with
    | none =>
      rw [ha] at h
      exact absurd h (Finset.notMem_empty _)
    | some a =>
      rw [ha] at h
      obtain ⟨rfl, rfl, rfl⟩ := Finset.mem_singleton.1 h
      exact underContext_storageKey r

/-- What is filed under a key has it. -/
theorem storageKey_mergedRow {journal : Journal} {incoming : DeletionRecord}
    (hkeyed : ∀ (k : String) (r : DeletionRecord), journal[k]? = some r → r.storageKey = k) :
    (mergedRow journal incoming).storageKey = incoming.storageKey := by
  rw [mergedRow]
  split
  · next current hcurrent =>
    obtain h | h := merged_eq_or current incoming
    · rw [h]
      exact hkeyed _ _ hcurrent
    · rw [h]
  · rfl

namespace DeletionTable

/-- Merges a record into the journal, and indexes it. -/
def merge (table : DeletionTable) (incoming : DeletionRecord) : DeletionTable where
  journal := mergeDeletionRow table.journal incoming
  targets := table.targets ∪ indexDeletion (mergedRow table.journal incoming)
  keyed := by
    intro k r h
    rw [getElem?_mergeDeletionRow] at h
    split at h
    · next hk =>
      rw [← Option.some.inj h, storageKey_mergedRow table.keyed, hk]
    · exact table.keyed k r h
  indexed := by
    intro k r h
    rw [getElem?_mergeDeletionRow] at h
    split at h
    · next hk =>
      have hkey : r.storageKey = k := by
        rw [← Option.some.inj h, storageKey_mergedRow table.keyed, hk]
      rw [Option.some.inj h, ← hkey]
      refine ⟨Finset.mem_union_right _ (Finset.mem_insert_self _ _), fun alias_ ha => ?_⟩
      refine Finset.mem_union_right _ (Finset.mem_insert_of_mem ?_)
      rw [ha]
      exact Finset.mem_singleton_self _
    · obtain ⟨hkey, halias⟩ := table.indexed k r h
      exact ⟨Finset.mem_union_left _ hkey, fun a ha => Finset.mem_union_left _ (halias a ha)⟩
  ranged := by
    intro context target k h
    obtain h | h := Finset.mem_union.1 h
    · exact table.ranged context target k h
    · exact mem_indexDeletion h

/-- The records that the index has for a target. -/
def targetRecords (table : DeletionTable) (context target : String) : List DeletionRecord :=
  (table.journal.toList.filter fun row => (context, target, row.1) ∈ table.targets).map (·.2)

/-- The records of a conversation. -/
def deletionRecords (table : DeletionTable) (context : String) : List DeletionRecord :=
  (table.journal.toList.filter fun row => underContext context row.1).map (·.2)

/-- Two tables are the same if their journals and their indices are. -/
theorem ext_of {t₁ t₂ : DeletionTable} (hj : t₁.journal = t₂.journal)
    (ht : t₁.targets = t₂.targets) : t₁ = t₂ := by
  cases t₁
  cases t₂
  cases hj
  cases ht
  rfl

variable {table : DeletionTable} {r : DeletionRecord} {context target : String}

/-- A record of the journal is filed under its key. -/
theorem mem_records : r ∈ table.journal.records ↔ table.journal[r.storageKey]? = some r := by
  rw [Journal.records, List.mem_map]
  constructor
  · rintro ⟨⟨k, r'⟩, hmem, rfl⟩
    have hk := Std.ExtTreeMap.mem_toList_iff_getElem?_eq_some.1 hmem
    rwa [table.keyed k r' hk]
  · intro h
    exact ⟨(r.storageKey, r), Std.ExtTreeMap.mem_toList_iff_getElem?_eq_some.2 h, rfl⟩

/-- Merging a record that is there changes nothing. -/
theorem merge_of_mem (h : r ∈ table.journal.records) : table.merge r = table := by
  have hr := mem_records.1 h
  have hrow : mergedRow table.journal r = r := by
    rw [mergedRow, hr]
    exact merged_self r
  refine ext_of (Std.ExtTreeMap.ext_getElem? fun k => ?_) ?_
  · change (mergeDeletionRow table.journal r)[k]? = _
    rw [getElem?_mergeDeletionRow, hrow]
    split
    · next hk => rw [← hk, hr]
    · rfl
  · change table.targets ∪ indexDeletion (mergedRow table.journal r) = table.targets
    obtain ⟨hkey, halias⟩ := table.indexed _ r hr
    rw [hrow, Finset.union_eq_left, indexDeletion]
    refine Finset.insert_subset hkey ?_
    cases ha : r.personalCorrelation with
    | none => exact Finset.empty_subset _
    | some a => exact Finset.singleton_subset_iff.2 (halias a ha)

/-- The records of a conversation are those under keys of its range. -/
theorem mem_deletionRecords : r ∈ table.deletionRecords context ↔
    table.journal[r.storageKey]? = some r ∧ underContext context r.storageKey := by
  rw [deletionRecords, List.mem_map]
  constructor
  · rintro ⟨⟨k, r'⟩, hmem, rfl⟩
    obtain ⟨hmem, hk⟩ := List.mem_filter.1 hmem
    have hrow := Std.ExtTreeMap.mem_toList_iff_getElem?_eq_some.1 hmem
    rw [table.keyed k r' hrow]
    exact ⟨hrow, hk⟩
  · rintro ⟨h, hk⟩
    exact ⟨(r.storageKey, r), List.mem_filter.2
      ⟨Std.ExtTreeMap.mem_toList_iff_getElem?_eq_some.2 h, hk⟩, rfl⟩

/-- The index finds a record by the targets it is filed under. -/
theorem mem_targetRecords : r ∈ table.targetRecords context target ↔
    table.journal[r.storageKey]? = some r ∧ (context, target, r.storageKey) ∈ table.targets := by
  rw [targetRecords, List.mem_map]
  constructor
  · rintro ⟨⟨k, r'⟩, hmem, rfl⟩
    obtain ⟨hmem, hk⟩ := List.mem_filter.1 hmem
    have hrow := Std.ExtTreeMap.mem_toList_iff_getElem?_eq_some.1 hmem
    rw [table.keyed k r' hrow]
    exact ⟨hrow, by simpa using hk⟩
  · rintro ⟨h, hk⟩
    exact ⟨(r.storageKey, r), List.mem_filter.2
      ⟨Std.ExtTreeMap.mem_toList_iff_getElem?_eq_some.2 h, by simpa using hk⟩, rfl⟩

/-- Storage keys tell the records of a table apart. -/
theorem storageKey_inj {r r' : DeletionRecord} (hr : r ∈ table.deletionRecords context)
    (hr' : r' ∈ table.deletionRecords context) (h : r.storageKey = r'.storageKey) : r = r' := by
  have h₁ := (mem_deletionRecords.1 hr).1
  rw [h, (mem_deletionRecords.1 hr').1] at h₁
  exact (Option.some.inj h₁).symm

end DeletionTable

/-! ## Two choices -/

/-- The last one of greatest priority. -/
def maxByKey {κ : Type} [LinearOrder κ] (key : DeletionRecord → κ)
    (records : List DeletionRecord) : Option DeletionRecord :=
  records.foldl (join (choose key fun _ => true)) none

/-- The record concerns the user. -/
def concerns (owner : String) (r : DeletionRecord) : Bool :=
  r.scope = .forEveryone || r.owner = owner

/-- The priority of a record in memory. -/
def preparePriority (r : DeletionRecord) : Bool ×ₗ Bool ×ₗ String :=
  toLex (r.scope = .forMe || r.status = .rejected, toLex (r.status = .confirmed, r.storageKey))

/-- The priority of a record on disk. -/
def matchingPriority (r : DeletionRecord) : Bool ×ₗ Bool ×ₗ String :=
  toLex (r.scope = .forMe, toLex (r.status = .confirmed, r.storageKey))

/-- The record that decides about a message in memory. -/
def prepareRecord (records : List DeletionRecord) (target : String)
    (correlation : Option String) : Option DeletionRecord :=
  maxByKey preparePriority (records.filter (·.matches target correlation))

/-- The records that the guard looks at. -/
def matching (table : DeletionTable) (context target : String) (correlation : Option String)
    (owner : String) : List DeletionRecord :=
  let found := table.targetRecords context target ++
    (correlation.filter (· ≠ target)).elim [] (table.targetRecords context)
  found.filter fun r => r.matches target correlation && concerns owner r

/-- The record that decides about a message on disk. -/
def matchingDeletion (table : DeletionTable) (context target : String)
    (correlation : Option String) (owner : String) : Option DeletionRecord :=
  maxByKey matchingPriority (matching table context target correlation owner)

/-- The guard looks at the records of the conversation that match the message and concern the
    user. -/
theorem mem_matching {table : DeletionTable} {r : DeletionRecord} {context target owner : String}
    {correlation : Option String} (hcontext : ∀ r ∈ table.deletionRecords context,
      r.context = context) :
    r ∈ matching table context target correlation owner ↔
      r ∈ table.deletionRecords context ∧ r.matches target correlation ∧ concerns owner r := by
  rw [matching, List.mem_filter, Bool.and_eq_true]
  refine and_congr_left fun ⟨hmatch, _⟩ => ?_
  constructor
  · intro h
    have hranged : ∀ t, r ∈ table.targetRecords context t → r ∈ table.deletionRecords context :=
      fun t ht => by
        obtain ⟨hrow, hk⟩ := DeletionTable.mem_targetRecords.1 ht
        exact DeletionTable.mem_deletionRecords.2 ⟨hrow, table.ranged _ _ _ hk⟩
    obtain h | h := List.mem_append.1 h
    · exact hranged _ h
    · cases hc : correlation.filter (· ≠ target) with
      | none =>
        rw [hc] at h
        exact absurd h List.not_mem_nil
      | some a =>
        rw [hc] at h
        exact hranged _ h
  · intro h
    obtain ⟨hrow, -⟩ := DeletionTable.mem_deletionRecords.1 h
    obtain ⟨hkey, halias⟩ := table.indexed _ r hrow
    rw [hcontext r h] at hkey halias
    have hfound : ∀ t, (r.key = t ∨ r.personalCorrelation = some t) →
        r ∈ table.targetRecords context t := fun t ht =>
      DeletionTable.mem_targetRecords.2 ⟨hrow, ht.elim (fun e => e ▸ hkey) (halias t)⟩
    rw [← matches_effective] at hmatch
    simp only [«matches», Bool.or_eq_true, Bool.and_eq_true, decide_eq_true_eq,
      Option.any_eq_true] at hmatch
    obtain h | ⟨-, h | ⟨a, ha, h⟩⟩ := hmatch
    · exact List.mem_append_left _ (hfound target (.inl h))
    · exact List.mem_append_left _ (hfound target (.inr h))
    · refine List.mem_append_right _ ?_
      rw [ha]
      exact hfound a h

/-! ## When they agree -/

/-- The choice by priority, of records that the priority tells apart. -/
theorem maxByKey_eq {κ : Type} [LinearOrder κ] (key : DeletionRecord → κ)
    (records : List DeletionRecord) :
    (records = [] ∧ maxByKey key records = none) ∨
      ∃ w, maxByKey key records = some w ∧ w ∈ records ∧ ∀ r ∈ records, key r ≤ key w :=
  IsChoice.foldl_join_none (S := Set.univ) (fun _ _ _ _ => rfl) records fun _ _ => trivial

/-- The two choices leave the same of a message that the records match: no shared request is
    rejected, or a personal deletion matches, or nothing is confirmed and the last record is
    rejected. -/
def Agreeable (records : List DeletionRecord) : Prop :=
  (∀ r ∈ records, r.scope = .forEveryone → r.status ≠ .rejected) ∨
    (∃ r ∈ records, r.scope = .forMe) ∨
    (∀ r ∈ records, r.status ≠ .confirmed) ∧
      ∃ r ∈ records, r.status = .rejected ∧ ∀ r' ∈ records, r'.storageKey ≤ r.storageKey

/-- What a priority says: the first component counts first, then if the record is confirmed, then
    its storage key. -/
theorem le_priority {a b : DeletionRecord} {x y : Bool}
    (h : toLex (x, toLex (decide (a.status = .confirmed), a.storageKey)) ≤
      toLex (y, toLex (decide (b.status = .confirmed), b.storageKey))) :
    (x = true → y = true) ∧ (x = y → (a.status = .confirmed → b.status = .confirmed) ∧
      ((a.status = .confirmed ↔ b.status = .confirmed) → a.storageKey ≤ b.storageKey)) := by
  rw [Prod.Lex.toLex_le_toLex] at h
  obtain hlt | ⟨hxy, h⟩ := h
  · obtain ⟨rfl, rfl⟩ := Bool.lt_iff.1 hlt
    exact ⟨fun _ => rfl, fun h => by cases h⟩
  · refine ⟨fun hx => (show x = y from hxy) ▸ hx, fun _ => ?_⟩
    rw [Prod.Lex.toLex_le_toLex] at h
    obtain hlt | ⟨heq, hkey⟩ := h
    · obtain ⟨ha, hb⟩ := Bool.lt_iff.1 hlt
      have ha : a.status ≠ .confirmed := of_decide_eq_false ha
      have hb : b.status = .confirmed := of_decide_eq_true hb
      exact ⟨fun h => absurd h ha, fun h => absurd (h.2 hb) ha⟩
    · exact ⟨(decide_eq_decide.1 heq).1, fun _ => hkey⟩

variable {found guarded : List DeletionRecord}

/-- The records that match a message in memory and on disk: the same ones, told apart by their
    keys, of which the personal ones are confirmed. -/
structure SameRecords (found guarded : List DeletionRecord) : Prop where
  mem : ∀ r, r ∈ found ↔ r ∈ guarded
  inj : ∀ r ∈ found, ∀ r' ∈ found, r.storageKey = r'.storageKey → r = r'
  personal : ∀ r ∈ found, r.scope = .forMe → r.status = .confirmed

namespace SameRecords

variable (hsame : SameRecords found guarded) {w v : DeletionRecord}

include hsame

/-- Of agreeable records the same one is chosen. -/
theorem eq_of_agreeable (h : Agreeable found) (hw : w ∈ found)
    (hwmax : ∀ r ∈ found, preparePriority r ≤ preparePriority w) (hv : v ∈ found)
    (hvmax : ∀ r ∈ found, matchingPriority r ≤ matchingPriority v) : w = v := by
  have hshared : ∀ r ∈ found, r.scope ≠ .forMe → r.scope = .forEveryone := fun r _ hr => by
    cases hs : r.scope with
    | forMe => exact absurd hs hr
    | forEveryone => rfl
  -- if both priorities are the same on the two records, so are their keys
  have hkeys : (decide (w.scope = .forMe) || decide (w.status = .rejected)) =
      (decide (v.scope = .forMe) || decide (v.status = .rejected)) →
      decide (w.scope = .forMe) = decide (v.scope = .forMe) → w = v := by
    intro h₁ h₂
    obtain ⟨-, hp⟩ := le_priority (hwmax v hv)
    obtain ⟨-, hm⟩ := le_priority (hvmax w hw)
    obtain ⟨hpc, hpk⟩ := hp h₁.symm
    obtain ⟨hmc, hmk⟩ := hm h₂
    exact hsame.inj w hw v hv (le_antisymm (hmk ⟨hmc, hpc⟩) (hpk ⟨hpc, hmc⟩))
  obtain h | ⟨f, hf, hfme⟩ | ⟨hnone, r, hr, hrejected, hrmax⟩ := h
  · -- no request is rejected: the priorities are the same
    have hpriority : ∀ r ∈ found, (decide (r.scope = .forMe) || decide (r.status = .rejected)) =
        decide (r.scope = .forMe) := by
      intro r hr
      by_cases hs : r.scope = .forMe
      · simp [hs]
      · simp [hs, h r hr (hshared r hr hs)]
    have hwv := (le_priority (hwmax v hv)).1
    have hvw := (le_priority (hvmax w hw)).1
    have hscope : decide (w.scope = .forMe) = decide (v.scope = .forMe) := by
      rw [hpriority v hv, hpriority w hw] at hwv
      exact Bool.eq_iff_iff.2 ⟨hvw, hwv⟩
    exact hkeys (by rw [hpriority w hw, hpriority v hv, hscope]) hscope
  · -- both are personal: they come before all others
    have hfc := hsame.personal f hf hfme
    have hvme : v.scope = .forMe := of_decide_eq_true ((le_priority (hvmax f hf)).1 (by simp [hfme]))
    obtain ⟨hwfirst, hwsecond⟩ := le_priority (hwmax f hf)
    have hwtop := hwfirst (by simp [hfme])
    have hwc := (hwsecond (by rw [hwtop]; simp [hfme])).1 hfc
    have hwme : w.scope = .forMe := by
      simpa [hwc] using hwtop
    exact hkeys (by simp [hwme, hvme]) (by rw [hwme, hvme])
  · -- nothing is confirmed, so nothing is personal, and the last record is rejected
    have hscope : ∀ r ∈ found, r.scope ≠ .forMe := fun r hr hs =>
      hnone r hr (hsame.personal r hr hs)
    obtain ⟨hwfirst, hwsecond⟩ := le_priority (hwmax r hr)
    have hwtop := hwfirst (by simp [hrejected])
    have hwr : w = r := by
      have hk := (hwsecond (by rw [hwtop]; simp [hrejected])).2
        ⟨fun h => absurd h (hnone r hr), fun h => absurd h (hnone w hw)⟩
      exact hsame.inj w hw r hr (le_antisymm (hrmax w hw) hk)
    have hvr : v = r := by
      obtain ⟨-, hsecond⟩ := le_priority (hvmax r hr)
      have hk := (hsecond (by simp [hscope r hr, hscope v hv])).2
        ⟨fun h => absurd h (hnone r hr), fun h => absurd h (hnone v hv)⟩
      exact hsame.inj v hv r hr (le_antisymm (hrmax v hv) hk)
    rw [hwr, hvr]

omit hsame in
/-- Where the same is left, the records are agreeable. -/
theorem agreeable_of_marker (hw : w ∈ found)
    (hwmax : ∀ r ∈ found, preparePriority r ≤ preparePriority w) (hv : v ∈ found)
    (hvmax : ∀ r ∈ found, matchingPriority r ≤ matchingPriority v) (h : w.marker = v.marker) :
    Agreeable found := by
  have hstatus : w.status = v.status := congrArg DeletionMarker.status h
  by_cases hrejected : ∃ r ∈ found, r.scope = .forEveryone ∧ r.status = .rejected
  swap
  · exact .inl fun r hr hs hr' => hrejected ⟨r, hr, hs, hr'⟩
  by_cases hme : ∃ r ∈ found, r.scope = .forMe
  · exact .inr (.inl hme)
  obtain ⟨r, hr, -, hrr⟩ := hrejected
  have hscope : ∀ r ∈ found, r.scope ≠ .forMe := fun r hr hs => hme ⟨r, hr, hs⟩
  -- in memory a rejected request is chosen
  have hwr : w.status = .rejected := by
    have htop := (le_priority (hwmax r hr)).1 (by simp [hrr])
    simpa [hscope w hw] using htop
  have hvr : v.status = .rejected := hstatus ▸ hwr
  -- and so is one on disk, which is only so if nothing is confirmed
  have hsecond : ∀ r ∈ found, (r.status = .confirmed → v.status = .confirmed) ∧
      ((r.status = .confirmed ↔ v.status = .confirmed) → r.storageKey ≤ v.storageKey) :=
    fun r hr => (le_priority (hvmax r hr)).2 (by simp [hscope r hr, hscope v hv])
  have hnone : ∀ r ∈ found, r.status ≠ .confirmed := fun r hr hc => by
    have := (hsecond r hr).1 hc
    rw [hvr] at this
    cases this
  refine .inr (.inr ⟨hnone, v, hv, hvr, fun r hr => (hsecond r hr).2 ?_⟩)
  exact ⟨fun h => absurd h (hnone r hr), fun h => absurd h (hnone v hv)⟩

/-- The two choices leave the same of a message if and only if the records are agreeable. -/
theorem marker_agree_iff : (maxByKey preparePriority found).map marker =
    (maxByKey matchingPriority guarded).map marker ↔ Agreeable found := by
  obtain ⟨hf, hwnone⟩ | ⟨w, hw, hwmem, hwmax⟩ := maxByKey_eq preparePriority found
  · obtain ⟨-, hvnone⟩ | ⟨v, -, hvmem, -⟩ := maxByKey_eq matchingPriority guarded
    · rw [hwnone, hvnone]
      exact iff_of_true rfl (.inl fun r hr => by rw [hf] at hr; cases hr)
    · rw [← hsame.mem, hf] at hvmem
      cases hvmem
  · obtain ⟨hg, -⟩ | ⟨v, hv, hvmem, hvmax⟩ := maxByKey_eq matchingPriority guarded
    · rw [hsame.mem, hg] at hwmem
      cases hwmem
    · rw [← hsame.mem] at hvmem
      have hvmax : ∀ r ∈ found, matchingPriority r ≤ matchingPriority v :=
        fun r hr => hvmax r ((hsame.mem r).1 hr)
      rw [hw, hv, Option.map_some, Option.map_some]
      constructor
      · intro h
        exact agreeable_of_marker hwmem hwmax hvmem hvmax (Option.some.inj h)
      · intro h
        rw [hsame.eq_of_agreeable h hwmem hwmax hvmem hvmax]

end SameRecords

end Mosh.Deletion
