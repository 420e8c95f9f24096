import Mosh.Deletion.Guard
import Mosh.Library.Table

/-!
# The index of deletions

The guard on the history on disk finds deletions by an index
(`persistence/deletion_index.rs`), whose entries are texts that join the context, a
target and the key of the record. A record that is merged is indexed again, and its old
entries stay. The index is made when a store from before its time is opened first.

* `DeletionRows`: the tables, with the entries as they are on disk;
* `DeletionRows.Indexed`: the index is complete, which `mergeDeletionRow` keeps and
  `initializeDeletionIndex` brings about;
* `Indexed.matchingDeletion`: so the guard finds a record that matches.
-/

namespace Mosh.Deletion

open DeletionRecord

/-! ## The index -/

/-- The tables of deletions: the records by their storage keys, and the index, from texts to
    storage keys. -/
structure DeletionRows where
  records : Journal
  targets : Std.ExtTreeMap String String compare

/-- The key of an entry of the index. -/
def indexKey (context target rowKey : String) : String :=
  context ++ "\x01" ++ target ++ "\x01" ++ rowKey

/-- The entry that says that the index is complete. -/
def readyKey : String := "\x00ready-v1"

namespace DeletionRows

/-- The key is in the range of keys that begin with a text and a separator. -/
def inRange (start key : String) : Bool := start ++ "\x01" ≤ key && key < start ++ "\x02"

/-- Files a record under its key and its alias. -/
def indexDeletion (rows : DeletionRows) (r : DeletionRecord) : DeletionRows :=
  { rows with
    targets := (r.key :: r.personalCorrelation.toList).foldl (fun targets target =>
      targets.insert (indexKey r.context target r.storageKey) r.storageKey) rows.targets }

/-- Makes the index, if there is none. -/
def initializeDeletionIndex (rows : DeletionRows) : DeletionRows :=
  if rows.targets[readyKey]?.isSome then rows
  else
    let rows := rows.records.records.foldl indexDeletion rows
    { rows with targets := rows.targets.insert readyKey "v1" }

/-- Merges a record with the one that is there, and indexes it. -/
def mergeDeletionRow (rows : DeletionRows) (incoming : DeletionRecord) : DeletionRows :=
  let record := mergedRow rows.records incoming
  { rows with records := rows.records.insert incoming.storageKey record }.indexDeletion record

/-- The records that the index has for a target. -/
def deletionTargetRecords (rows : DeletionRows) (context target : String) : List DeletionRecord :=
  (rows.targets.toList.filter fun entry => inRange (context ++ "\x01" ++ target) entry.1).filterMap
    fun entry => rows.records[entry.2]?

/-- The record that decides about a message on disk. -/
def matchingDeletion (rows : DeletionRows) (context target : String) (correlation : Option String)
    (owner : String) : Option DeletionRecord :=
  let found := rows.deletionTargetRecords context target ++
    (correlation.filter (· ≠ target)).elim [] (rows.deletionTargetRecords context)
  maxByKey matchingPriority (found.filter fun r =>
    r.matches target correlation && concerns owner r)

end DeletionRows

/-! ## The index is complete -/

/-- The text has no separator in it. -/
def Plain (text : String) : Prop := '\x01' ∉ text.toList

/-- The parts of a record that go into the index are plain. -/
structure PlainRecord (r : DeletionRecord) : Prop where
  context : Plain r.context
  targets : ∀ target ∈ r.key :: r.personalCorrelation.toList, Plain target

/-- A list is cut at the first separator. -/
theorem append_cons_inj {α : Type} {a : α} {l l' m m' : List α} (hl : a ∉ l) (hl' : a ∉ l')
    (h : l ++ a :: m = l' ++ a :: m') : l = l' ∧ m = m' := by
  induction l generalizing l' with
  | nil =>
    cases l' with
    | nil => exact ⟨rfl, (List.cons.inj h).2⟩
    | cons b l' => exact absurd ((List.cons.inj h).1 ▸ List.mem_cons_self) hl'
  | cons b l ih =>
    cases l' with
    | nil => exact absurd ((List.cons.inj h).1 ▸ List.mem_cons_self) hl
    | cons b' l' =>
      obtain ⟨rfl, hrest⟩ := List.cons.inj h
      obtain ⟨rfl, rfl⟩ := ih (fun hmem => hl (List.mem_cons_of_mem _ hmem))
        (fun hmem => hl' (List.mem_cons_of_mem _ hmem)) hrest
      exact ⟨rfl, rfl⟩

theorem toList_indexKey (context target rowKey : String) :
    (indexKey context target rowKey).toList =
      context.toList ++ '\x01' :: (target.toList ++ '\x01' :: rowKey.toList) := by
  simp [indexKey, String.toList_append]

/-- The key of an entry tells what it was made of. -/
theorem indexKey_inj {context context' target target' rowKey rowKey' : String}
    (hcontext : Plain context) (hcontext' : Plain context') (htarget : Plain target)
    (htarget' : Plain target')
    (h : indexKey context target rowKey = indexKey context' target' rowKey') :
    context = context' ∧ target = target' ∧ rowKey = rowKey' := by
  have hlist := congrArg String.toList h
  rw [toList_indexKey, toList_indexKey] at hlist
  obtain ⟨h₁, hlist⟩ := append_cons_inj hcontext hcontext' hlist
  obtain ⟨h₂, h₃⟩ := append_cons_inj htarget htarget' hlist
  exact ⟨String.toList_inj.1 h₁, String.toList_inj.1 h₂, String.toList_inj.1 h₃⟩

theorem indexKey_ne_readyKey (context target rowKey : String) :
    indexKey context target rowKey ≠ readyKey := by
  intro h
  have hmem : '\x01' ∈ (indexKey context target rowKey).toList := by
    rw [toList_indexKey]
    exact List.mem_append_right _ List.mem_cons_self
  rw [h] at hmem
  exact absurd hmem (by decide)

namespace DeletionRows

/-- What continues a text after the separator is in its range. -/
theorem inRange_separator (start rest : String) :
    inRange start (start ++ "\x01" ++ rest) = true := by
  rw [inRange, Bool.and_eq_true, decide_eq_true_eq, decide_eq_true_eq]
  have hkey : (start ++ "\x01" ++ rest).toList = start.toList ++ ['\x01'] ++ rest.toList := by
    simp [String.toList_append]
  constructor
  · refine not_lt.1 fun hlt => ?_
    rw [String.lt_iff_toList_lt, hkey, String.toList_append] at hlt
    exact List.le_append_left hlt
  · rw [String.lt_iff_toList_lt, hkey, String.toList_append, List.append_assoc]
    exact List.append_left_lt (.rel (by decide))

/-- The entries for a target are in its range. -/
theorem inRange_indexKey (context target rowKey : String) :
    inRange (context ++ "\x01" ++ target) (indexKey context target rowKey) = true :=
  inRange_separator _ _

/-- The index is complete, and every entry was made of plain texts. -/
structure Indexed (rows : DeletionRows) : Prop where
  keyed : ∀ (k : String) (r : DeletionRecord), rows.records[k]? = some r → r.storageKey = k
  plain : ∀ (k : String) (r : DeletionRecord), rows.records[k]? = some r → PlainRecord r
  found : ∀ (k : String) (r : DeletionRecord), rows.records[k]? = some r →
    ∀ target ∈ r.key :: r.personalCorrelation.toList,
      rows.targets[indexKey r.context target k]? = some k
  entries : ∀ key k : String, rows.targets[key]? = some k → key = readyKey ∨
    ∃ context target, Plain context ∧ Plain target ∧ key = indexKey context target k

variable {rows : DeletionRows} {r r' : DeletionRecord} {k : String}

theorem getElem?_indexDeletion (rows : DeletionRows) (r : DeletionRecord) (key : String) :
    (rows.indexDeletion r).targets[key]? =
      if key ∈ (r.key :: r.personalCorrelation.toList).map
        (indexKey r.context · r.storageKey) then some r.storageKey else rows.targets[key]? :=
  Table.getElem?_foldl_insert (fun target => indexKey r.context target r.storageKey) _ _ _ _

variable (rows) in
/-- Entries are made, and none is lost. -/
theorem indexDeletion_targets (hr : PlainRecord r)
    (hentries : ∀ key k : String, rows.targets[key]? = some k → key = readyKey ∨
      ∃ context target, Plain context ∧ Plain target ∧ key = indexKey context target k) :
    (∀ target ∈ r.key :: r.personalCorrelation.toList,
      (rows.indexDeletion r).targets[indexKey r.context target r.storageKey]? =
        some r.storageKey) ∧
    (∀ key k : String, rows.targets[key]? = some k →
      (rows.indexDeletion r).targets[key]? = some k) ∧
    ∀ key k : String, (rows.indexDeletion r).targets[key]? = some k → key = readyKey ∨
      ∃ context target, Plain context ∧ Plain target ∧ key = indexKey context target k := by
  refine ⟨fun target htarget => ?_, fun key k hkey => ?_, fun key k hkey => ?_⟩
  · rw [getElem?_indexDeletion, if_pos (List.mem_map_of_mem htarget)]
  · rw [getElem?_indexDeletion]
    split
    · next hmem =>
      -- the entry is made again
      obtain ⟨target, htarget, rfl⟩ := List.mem_map.1 hmem
      obtain heq | ⟨context, target', hcontext, htarget', heq⟩ := hentries _ k hkey
      · exact absurd heq (indexKey_ne_readyKey _ _ _)
      · rw [(indexKey_inj hr.context hcontext (hr.targets _ htarget) htarget' heq).2.2]
    · exact hkey
  · rw [getElem?_indexDeletion] at hkey
    split at hkey
    · next hmem =>
      obtain ⟨target, htarget, rfl⟩ := List.mem_map.1 hmem
      rw [← Option.some.inj hkey]
      exact .inr ⟨_, target, hr.context, hr.targets _ htarget, rfl⟩
    · exact hentries key k hkey

/-- The merged record is one of the two. -/
theorem mergedRow_plain (h : rows.Indexed) (hr : PlainRecord r) :
    PlainRecord (mergedRow rows.records r) := by
  rw [mergedRow]
  split
  · next current hcurrent =>
    obtain heq | heq := merged_eq_or current r
    · rw [heq]
      exact h.plain _ _ hcurrent
    · rw [heq]
      exact hr
  · exact hr

/-- Merging a plain record keeps the index complete, and no entry is lost. -/
theorem Indexed.mergeDeletionRow (h : rows.Indexed) (hr : PlainRecord r) :
    (rows.mergeDeletionRow r).Indexed ∧ ∀ key k : String, rows.targets[key]? = some k →
      (rows.mergeDeletionRow r).targets[key]? = some k := by
  have hplain := mergedRow_plain h hr
  have hkey : (mergedRow rows.records r).storageKey = r.storageKey := storageKey_mergedRow h.keyed
  obtain ⟨hmade, hkept, hentries⟩ := indexDeletion_targets
    { rows with records := rows.records.insert r.storageKey (mergedRow rows.records r) }
    hplain h.entries
  rw [hkey] at hmade
  have hrecords (k : String) : (rows.mergeDeletionRow r).records[k]? =
      if r.storageKey = k then some (mergedRow rows.records r) else rows.records[k]? :=
    Table.getElem?_insert ..
  refine ⟨⟨fun k r' h' => ?_, fun k r' h' => ?_, fun k r' h' => ?_, hentries⟩, hkept⟩
  all_goals
    rw [hrecords] at h'
    split at h'
  · next heq => rw [← Option.some.inj h', hkey, heq]
  · exact h.keyed k r' h'
  · exact Option.some.inj h' ▸ hplain
  · exact h.plain k r' h'
  · next heq =>
    obtain rfl := heq
    rw [← Option.some.inj h']
    exact hmade
  · exact fun target htarget => hkept _ _ (h.found k r' h' target htarget)

variable (rows) in
/-- All records of a list are indexed, one after the other. -/
theorem foldl_indexDeletion (records : List DeletionRecord) (hplain : ∀ r ∈ records, PlainRecord r)
    (hentries : ∀ key k : String, rows.targets[key]? = some k → key = readyKey ∨
      ∃ context target, Plain context ∧ Plain target ∧ key = indexKey context target k) :
    (records.foldl indexDeletion rows).records = rows.records ∧
    (∀ key k : String, rows.targets[key]? = some k →
      (records.foldl indexDeletion rows).targets[key]? = some k) ∧
    (∀ r ∈ records, ∀ target ∈ r.key :: r.personalCorrelation.toList,
      (records.foldl indexDeletion rows).targets[indexKey r.context target r.storageKey]? =
        some r.storageKey) ∧
    ∀ key k : String, (records.foldl indexDeletion rows).targets[key]? = some k →
      key = readyKey ∨
        ∃ context target, Plain context ∧ Plain target ∧ key = indexKey context target k := by
  induction records generalizing rows with
  | nil => exact ⟨rfl, fun _ _ h => h, fun _ h => absurd h List.not_mem_nil, hentries⟩
  | cons r records ih =>
    obtain ⟨hmade, hkept, hentries'⟩ :=
      indexDeletion_targets rows (hplain r List.mem_cons_self) hentries
    obtain ⟨hrecords, hkept', hmade', hentries'⟩ :=
      ih _ (fun r' h => hplain r' (List.mem_cons_of_mem _ h)) hentries'
    refine ⟨hrecords, fun key k h => hkept' _ _ (hkept key k h), fun r' hr' target htarget => ?_,
      hentries'⟩
    rcases List.mem_cons.1 hr' with rfl | hr'
    · exact hkept' _ _ (hmade target htarget)
    · exact hmade' r' hr' target htarget

variable (rows) in
/-- The index of a store from before its time is made of all its records. -/
theorem initializeDeletionIndex_indexed (hnone : rows.targets = ∅)
    (hkeyed : ∀ (k : String) (r : DeletionRecord), rows.records[k]? = some r → r.storageKey = k)
    (hplain : ∀ (k : String) (r : DeletionRecord), rows.records[k]? = some r → PlainRecord r) :
    rows.initializeDeletionIndex.records = rows.records ∧
      rows.initializeDeletionIndex.Indexed ∧
      rows.initializeDeletionIndex.targets[readyKey]? = some "v1" := by
  have hlisted (r : DeletionRecord) : r ∈ rows.records.records ↔
      ∃ k : String, rows.records[k]? = some r := by
    simp [Journal.records, Std.ExtTreeMap.mem_toList_iff_getElem?_eq_some]
  obtain ⟨hrecords, -, hmade, hentries⟩ := foldl_indexDeletion rows rows.records.records
    (fun r hr => (hplain _ r) ((hlisted r).1 hr).choose_spec)
    (fun key k h => by simp [hnone] at h)
  have hready : rows.targets[readyKey]?.isSome = false := by simp [hnone]
  have htargets (key : String) : rows.initializeDeletionIndex.targets[key]? =
      if readyKey = key then some "v1"
      else (rows.records.records.foldl indexDeletion rows).targets[key]? := by
    rw [initializeDeletionIndex, hready]
    exact Table.getElem?_insert ..
  have hsame : rows.initializeDeletionIndex.records = rows.records := by
    rw [initializeDeletionIndex, hready]
    exact hrecords
  refine ⟨hsame, ⟨?_, ?_, fun k r h target htarget => ?_, fun key k h => ?_⟩, ?_⟩
  · rw [hsame]
    exact hkeyed
  · rw [hsame]
    exact hplain
  · rw [hsame] at h
    rw [htargets, if_neg (indexKey_ne_readyKey _ _ _).symm]
    have hentry := hmade r ((hlisted r).2 ⟨k, h⟩) target htarget
    rwa [hkeyed k r h] at hentry
  · rw [htargets] at h
    split at h
    · next hkey => exact .inl hkey.symm
    · exact hentries key k h
  · rw [htargets, if_pos rfl]

/-- What has an entry for a target is found by it. -/
theorem mem_deletionTargetRecords {context target : String}
    (hentry : rows.targets[indexKey context target k]? = some k)
    (hr : rows.records[k]? = some r) : r ∈ rows.deletionTargetRecords context target := by
  rw [deletionTargetRecords, List.mem_filterMap]
  refine ⟨(indexKey context target k, k), List.mem_filter.2 ⟨?_, inRange_indexKey ..⟩, hr⟩
  exact Std.ExtTreeMap.mem_toList_iff_getElem?_eq_some.2 hentry

/-- The guard finds a record that matches and concerns the user. -/
theorem Indexed.matchingDeletion (h : rows.Indexed) (hr : rows.records[k]? = some r)
    {target owner : String} {correlation : Option String}
    (hmatch : r.matches target correlation = true) (hconcerns : concerns owner r = true) :
    ∃ record, rows.matchingDeletion r.context target correlation owner = some record := by
  have hfound (t : String) (ht : r.key = t ∨ r.personalCorrelation = some t) :
      r ∈ rows.deletionTargetRecords r.context t := by
    refine mem_deletionTargetRecords (h.found k r hr t ?_) hr
    rcases ht with rfl | ht
    · exact List.mem_cons_self
    · exact List.mem_cons_of_mem _ (by simp [ht])
  have hmem : r ∈ (rows.deletionTargetRecords r.context target ++
      (correlation.filter (· ≠ target)).elim [] (rows.deletionTargetRecords r.context)).filter
        fun r => r.matches target correlation && concerns owner r := by
    refine List.mem_filter.2 ⟨?_, by rw [hmatch, hconcerns]; rfl⟩
    rw [← matches_effective] at hmatch
    simp only [«matches», Bool.or_eq_true, Bool.and_eq_true, decide_eq_true_eq,
      Option.any_eq_true] at hmatch
    obtain ht | ⟨-, ht | ⟨a, ha, ht⟩⟩ := hmatch
    · exact List.mem_append_left _ (hfound target (.inl ht))
    · exact List.mem_append_left _ (hfound target (.inr ht))
    · refine List.mem_append_right _ ?_
      rw [ha]
      exact hfound a ht
  rw [DeletionRows.matchingDeletion]
  obtain ⟨hnil, -⟩ | ⟨w, hw, -⟩ := maxByKey_eq matchingPriority
    ((rows.deletionTargetRecords r.context target ++
      (correlation.filter (· ≠ target)).elim [] (rows.deletionTargetRecords r.context)).filter
        fun r => r.matches target correlation && concerns owner r)
  · rw [hnil] at hmem
    exact absurd hmem List.not_mem_nil
  · exact ⟨w, hw⟩

end DeletionRows

end Mosh.Deletion
