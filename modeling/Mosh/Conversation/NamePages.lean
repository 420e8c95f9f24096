import Mosh.Conversation.ChatNames

/-!
# Pages of names

The register of names is read by pages of sixteen records (`ChatNames::page`), and records that
come from elsewhere are merged and stored.

* `Register.Holds`, `Merged.holds`, `Merged.keeps`: what a register holds in a version or a newer
  one, it holds after every merge;
* `merge_eq_ok`, `set_saved`, `Saved.stored`: what a write leaves in memory and in the store;
* `mem_page`: a page has all records between its cursor and the next one.
-/

namespace Mosh.Conversation

namespace Register

/-- A register holds a key in a version or a newer one, and its clock has counted it. -/
def Holds (register : Register) (key : String) (version : NameVersion) : Prop :=
  (∃ r ∈ register.lookup key, version ≤ r.version) ∧ version.counter ≤ register.clock

theorem Sound.holds {register : Register} (hs : register.Sound) {key : String} {r : NameRecord}
    (hr : r ∈ register.lookup key) {version : NameVersion} (hle : version ≤ r.version) :
    register.Holds key version :=
  ⟨⟨r, hr, hle⟩, (counter_le_of_le hle).trans (hs.clock key r hr)⟩

theorem Holds.mono {register : Register} {key : String} {v w : NameVersion}
    (h : register.Holds key w) (hle : v ≤ w) : register.Holds key v := by
  obtain ⟨⟨r, hr, hw⟩, hclock⟩ := h
  exact ⟨⟨r, hr, hle.trans hw⟩, (counter_le_of_le hle).trans hclock⟩

end Register

namespace ChatNames

/-- The records of a register after a key, sixteen of them at most. -/
def page (names : ChatNames) (after : Option String) : List NameRecord :=
  ((names.register.entries.toList.map (·.2)).filter fun entry => after.all (· < entry.key)).take 16

/-- The key that the next page comes after, if there may be one. -/
def nextCursor (records : List NameRecord) : Option String :=
  if records.length = 16 then records.getLast?.map (·.key) else none

variable {codec : NamesCodec} {names names' : ChatNames} {records : List NameRecord}

/-- A merge keeps a version of everything, and has one of every record. -/
theorem Merged.holds (hm : Merged names names' records) {key : String} {r : NameRecord}
    (hr : r ∈ names.register.lookup key ∨ r ∈ records ∧ r.key = key) :
    names'.register.Holds key r.version := by
  have hlookup := congrFun hm.lookup key
  rw [Choice.foldl_absorb] at hlookup
  obtain ⟨hnil, -⟩ | ⟨w, hw, -, hmax⟩ := (isChoice_newer Set.univ).foldl_join_option
    (fun r (_ : r ∈ names.register.lookup key) => trivial) (records.filter (·.key = key))
    fun _ _ => trivial
  · -- nothing was there and nothing came
    rw [List.append_eq_nil_iff, List.filter_eq_nil_iff] at hnil
    rcases hr with hr | ⟨hr, hkey⟩
    · rw [Option.mem_def.1 hr] at hnil
      cases hnil.1
    · exact absurd (decide_eq_true hkey) (hnil.2 r hr)
  · have hmem : r ∈ (names.register.lookup key).toList ++ records.filter (·.key = key) := by
      rw [List.mem_append, Option.mem_toList, List.mem_filter, decide_eq_true_eq]
      exact hr
    exact hm.sound.holds (hlookup.trans hw) (hmax r hmem)

theorem Merged.keeps (hm : Merged names names' records) {key : String} {version : NameVersion}
    (h : names.register.Holds key version) : names'.register.Holds key version := by
  obtain ⟨⟨r, hr, hle⟩, -⟩ := h
  exact (hm.holds (.inl hr)).mono hle

theorem counter_pos : 0 < 2 ^ 64 := Nat.two_pow_pos 64

/-- The register of a user who has named nothing. -/
def noNames : Register := { clock := ⟨0, counter_pos⟩ }

variable (codec) in
/-- What the table of a store says about the names of a user. -/
def stored (rows : Std.ExtTreeMap String (List UInt8) compare) (user : String) : Register :=
  match rows[user]? with
  | none => noNames
  | some bytes => (codec.decode bytes).toOption.getD noNames

/-- What is opened is what is stored. -/
theorem open_eq_ok {rows : Std.ExtTreeMap String (List UInt8) compare} {user actor : String}
    {read : Option String} (h : ChatNames.open codec rows user actor read = .ok names) :
    names = ⟨rows, user, actor, stored codec rows user⟩ ∧ names.register.Sound := by
  refine ⟨?_, sound_of_open h⟩
  rw [ChatNames.open.eq_def] at h
  dsimp only at h
  split at h
  · cases h
  next register hstored =>
    split at h
    · cases h
    rw [← Except.ok.inj h, stored]
    split at hstored
    · cases hstored
    · next hnone =>
      rw [hnone, ← Except.ok.inj hstored]
      rfl
    · next bytes hsome =>
      rw [hsome]
      simp only [hstored]
      rfl

/-- What is left of names after a merge, in memory and in the store. -/
structure Saved (codec : NamesCodec) (names names' : ChatNames) (records : List NameRecord)
    (flag : Bool) : Prop where
  merged : Merged names names' records
  user : names'.user = names.user
  flag : names'.register.initialSyncComplete = (names.register.initialSyncComplete || flag)
  rows : names' = names ∨ names'.rows = names.rows.insert names.user (codec.encode names'.register)

theorem merge_eq_ok (hs : names.register.Sound) {flag b : Bool} {write : Option String}
    (h : names.merge codec records flag write = (.ok b, names')) :
    Saved codec names names' records flag := by
  have hmerged : Merged names names' records := by
    obtain ⟨e, he⟩ | ⟨b', names₁, hok, hm⟩ := merge_cases codec hs records flag write
    · rw [he] at h
      cases h
    · rw [hok] at h
      rwa [(Prod.mk.inj h).2] at hm
  have hloop : ∀ {records : List NameRecord} {next next' : Register} {changed changed' : Bool},
      mergeLoop records next changed = .ok (next', changed') →
        next'.initialSyncComplete = next.initialSyncComplete ∧
          (changed' = false → changed = false) := by
    intro records
    induction records with
    | nil =>
      intro next next' changed changed' h
      obtain ⟨rfl, rfl⟩ := Prod.mk.inj (Except.ok.inj h)
      exact ⟨rfl, id⟩
    | cons entry rest ih =>
      intro next next' changed changed' h
      rw [mergeLoop] at h
      split at h
      · cases h
      dsimp only at h
      split at h
      · cases h
      split at h
      · exact ⟨(ih h).1, fun hc => absurd ((ih h).2 hc) (by decide)⟩
      · exact ih h
  rw [merge] at h
  dsimp only at h
  split at h
  · cases h
  · next next hnext =>
    split at h
    · cases h
    obtain ⟨-, rfl⟩ := Prod.mk.inj h
    exact ⟨hmerged, rfl, (hloop hnext).1, .inr rfl⟩
  · next next hnext =>
    obtain ⟨-, rfl⟩ := Prod.mk.inj h
    refine ⟨hmerged, rfl, ?_, .inl rfl⟩
    have hc := (hloop hnext).2 rfl
    revert hc
    cases names.register.initialSyncComplete <;> cases flag <;> simp

theorem user_merge (names : ChatNames) (records : List NameRecord) (flag : Bool)
    (write : Option String) : (names.merge codec records flag write).2.user = names.user := by
  rw [merge]
  dsimp only
  split
  · rfl
  · split
    · rfl
    · rfl
  · rfl

/-- Setting a name leaves the names as they were, or merges a record and says that all is
    pulled. -/
theorem set_saved (hs : names.register.Sound) (key : String) (name : Option String)
    (write : Option String) : (names.set codec key name write).2 = names ∨
      ∃ record, Saved codec names (names.set codec key name write).2 [record] true := by
  rw [set]
  split
  · exact .inl rfl
  split
  · exact .inl rfl
  split
  · exact .inl rfl
  · dsimp only
    rcases hmerge : names.merge codec _ true write with ⟨e | b, names'⟩
    · obtain ⟨e', h⟩ | ⟨b, names₁, h, -⟩ := merge_cases codec hs _ true write
      · rw [h] at hmerge
        exact .inl (Prod.mk.inj hmerge).2.symm
      · rw [h] at hmerge
        cases hmerge
    · exact .inr ⟨_, merge_eq_ok hs hmerge⟩

/-- What is saved is read back, and the names of other users are left alone. -/
theorem Saved.stored {flag : Bool} (h : Saved codec names names' records flag)
    (hcodec : ∀ register, codec.decode (codec.encode register) = .ok register)
    (hstored : names.register = stored codec names.rows names.user) :
    names'.register = ChatNames.stored codec names'.rows names'.user ∧
      ∀ user, user ≠ names.user →
        ChatNames.stored codec names'.rows user = ChatNames.stored codec names.rows user := by
  rcases h.rows with rfl | hrows
  · exact ⟨hstored, fun _ _ => rfl⟩
  · constructor
    · rw [ChatNames.stored, hrows, h.user, Std.ExtTreeMap.getElem?_insert_self]
      simp only [hcodec]
      rfl
    · intro user huser
      have hne : ¬ compare names.user user = .eq := fun heq =>
        huser (Std.compare_eq_iff_eq.1 heq).symm
      rw [ChatNames.stored, ChatNames.stored, hrows, Std.ExtTreeMap.getElem?_insert, if_neg hne]

/-- The records of a register stand in the order of their keys. -/
theorem pairwise_entries (hs : names.register.Sound) :
    (names.register.entries.toList.map (·.2)).Pairwise (·.key < ·.key) := by
  have hkey : ∀ row ∈ names.register.entries.toList, row.2.key = row.1 := by
    rintro ⟨key, r⟩ hrow
    exact hs.keyed key r (Std.ExtTreeMap.mem_toList_iff_getElem?_eq_some.1 hrow)
  refine List.pairwise_map.2 (Std.ExtTreeMap.ordered_keys_toList.imp_of_mem fun {a b} ha hb h => ?_)
  rw [hkey a ha, hkey b hb]
  exact compare_lt_iff_lt.1 h

/-- The keys between two cursors. -/
def Between (after next : Option String) (key : String) : Prop :=
  after.all (· < key) = true ∧ next.all (key ≤ ·) = true

/-- A page has all that the register holds between its cursors. -/
theorem mem_page (hs : names.register.Sound) {after : Option String} {key : String} {r : NameRecord}
    (hr : r ∈ names.register.lookup key)
    (h : Between after (nextCursor (names.page after)) key) : r ∈ names.page after := by
  obtain ⟨hafter, hnext⟩ := h
  rw [page] at hnext ⊢
  set items := (names.register.entries.toList.map (·.2)).filter fun e => after.all (· < e.key)
    with hitems
  have hkey : r.key = key := hs.keyed key r hr
  have hmem : r ∈ items := by
    rw [hitems, List.mem_filter, hkey]
    exact ⟨List.mem_map.2 ⟨(key, r), Std.ExtTreeMap.mem_toList_iff_getElem?_eq_some.2 hr, rfl⟩,
      hafter⟩
  have hpairwise : (items.take 16 ++ items.drop 16).Pairwise (·.key < ·.key) := by
    rw [List.take_append_drop]
    exact (pairwise_entries hs).filter _
  rw [← List.take_append_drop 16 items, List.mem_append] at hmem
  refine hmem.resolve_right fun hdrop => ?_
  -- there is more than the page, so it is full, and its last key does not reach what is missing
  have hlength : (items.take 16).length = 16 := by
    have hlong := List.length_pos_of_mem hdrop
    rw [List.length_drop] at hlong
    rw [List.length_take]
    omega
  have hne : items.take 16 ≠ [] := by
    rw [← List.length_pos_iff_ne_nil, hlength]
    decide
  rw [nextCursor, if_pos hlength, List.getLast?_eq_some_getLast hne, Option.map_some,
    Option.all_some, decide_eq_true_eq, ← hkey] at hnext
  exact absurd ((List.pairwise_append.1 hpairwise).2.2 _ (List.getLast_mem hne) r hdrop)
    (not_lt.2 hnext)

end ChatNames

end Mosh.Conversation
