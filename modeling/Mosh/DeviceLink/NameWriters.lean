import Mosh.DeviceLink.Forks
import Mosh.DeviceLink.Names

/-!
# Who may write names

An installation that is new to an account may write names once it has pulled the names of all
other devices of its roster. What it has pulled is kept in memory, by devices and digests of
rosters; that all is pulled is kept in the register.

* `Covers`, `Chained.covered`: a run of pages goes through all keys;
* `Known`: what the maps and the register of a runtime say about the pages that were merged, with
  a lemma for each thing that happens;
* `names_written_after_sync`: a name is written only after a moment at which all other devices of
  the roster had been pulled; and a key that one of them held throughout has a version at least
  as new since then.
-/

namespace Mosh.DeviceLink

open Checked Conversation Run

/-! ## Runs of pages -/

/-- Pages of which each was asked for after the last key of the one before it, from the first page
    on up to a cursor. -/
inductive Chained : List MergedPage → Option String → Prop
  | nil : Chained [] none
  | snoc {pages : List MergedPage} {page : MergedPage} {key : String} :
      Chained pages page.request.after → page.next = some key → Chained (pages ++ [page]) (some key)

/-- A page spans the keys between its cursors. -/
def MergedPage.Covers (page : MergedPage) (key : String) : Prop :=
  ChatNames.Between page.request.after page.next key

/-- A key is on one of the pages, or comes after them. -/
theorem Chained.covered {pages : List MergedPage} {after : Option String}
    (h : Chained pages after) (key : String) :
    (∃ page ∈ pages, page.Covers key) ∨ after.all (· < key) = true := by
  induction h with
  | nil => exact .inr rfl
  | @snoc pages page last _ hnext ih =>
    obtain ⟨p, hp, hcovers⟩ | hafter := ih
    · exact .inl ⟨p, List.mem_append_left _ hp, hcovers⟩
    by_cases hlast : key ≤ last
    · refine .inl ⟨page, by simp, hafter, ?_⟩
      rw [hnext, Option.all_some, decide_eq_true hlast]
    · exact .inr (decide_eq_true (not_le.1 hlast))

/-- All pages, from the first one to the last one. -/
def Complete (pages : List MergedPage) : Prop :=
  ∃ before page, pages = before ++ [page] ∧ Chained before page.request.after ∧ page.next = none

theorem Complete.covered {pages : List MergedPage} (h : Complete pages) (key : String) :
    ∃ page ∈ pages, page.Covers key := by
  obtain ⟨before, page, rfl, hchained, hnext⟩ := h
  obtain ⟨p, hp, hcovers⟩ | hafter := hchained.covered key
  · exact ⟨p, List.mem_append_left _ hp, hcovers⟩
  · refine ⟨page, by simp, hafter, ?_⟩
    rw [hnext]
    rfl

/-- Pages that were merged in this order, for a user, from a device, under the digest of a
    roster. -/
structure Collected (merged : List MergedPage) (user rosterHash sender : String)
    (pages : List MergedPage) : Prop where
  sublist : pages.Sublist merged
  all : ∀ p ∈ pages, p.user = user ∧ p.sender = sender ∧ p.request.rosterHash = rosterHash

/-- All pages of a device were merged, for a user, under the digest of a roster. -/
def Pulled (merged : List MergedPage) (user rosterHash sender : String) : Prop :=
  ∃ pages, Collected merged user rosterHash sender pages ∧ Complete pages

section

variable {merged : List MergedPage} {user rosterHash sender : String} {pages : List MergedPage}

theorem Collected.snoc (h : Collected merged user rosterHash sender pages) {page : MergedPage}
    (hpage : page.user = user ∧ page.sender = sender ∧ page.request.rosterHash = rosterHash) :
    Collected (merged ++ [page]) user rosterHash sender (pages ++ [page]) := by
  refine ⟨h.sublist.append (List.Sublist.refl _), fun p hp => ?_⟩
  rcases List.mem_append.1 hp with hp | hp
  · exact h.all p hp
  · rwa [List.mem_singleton.1 hp]

theorem Collected.append (h : Collected merged user rosterHash sender pages)
    (more : List MergedPage) : Collected (merged ++ more) user rosterHash sender pages :=
  ⟨h.sublist.trans (List.sublist_append_left _ _), h.all⟩

theorem Pulled.append (h : Pulled merged user rosterHash sender) (more : List MergedPage) :
    Pulled (merged ++ more) user rosterHash sender := by
  obtain ⟨pages, hpages, hcomplete⟩ := h
  exact ⟨pages, hpages.append more, hcomplete⟩

end

/-! ## What happens to the names -/

variable {Key Signature Seed : Type} {c : NamesCrypto Key Signature Seed}

namespace NamesRuntime

variable {s s' : NamesRuntime Seed} {sender device : DeviceDescriptor}

/-- Nothing changes but what was sent, what is known of digests, and requests for first pages. -/
structure Quiet (s s' : NamesRuntime Seed) : Prop where
  identity : s'.identity = s.identity
  names : s'.names = s.names
  initialPulls : s'.initialPulls = s.initialPulls
  merged : s'.merged = s.merged
  pending : ∀ (id : String) (page : NamePageRequest), s'.pendingPages[id]? = some page →
    s.pendingPages[id]? = some page ∨ page.after = none

theorem Quiet.rfl : Quiet s s := ⟨.refl _, .refl _, .refl _, .refl _, fun _ _ h => .inl h⟩

theorem Quiet.trans {s'' : NamesRuntime Seed} (h : Quiet s s') (h' : Quiet s' s'') :
    Quiet s s'' where
  identity := h'.identity.trans h.identity
  names := h'.names.trans h.names
  initialPulls := h'.initialPulls.trans h.initialPulls
  merged := h'.merged.trans h.merged
  pending id page hpage := (h'.pending id page hpage).elim (h.pending id page) .inr

variable (c) in
theorem sendNames_eq (s : NamesRuntime Seed) (device : DeviceDescriptor) (message : NameMessage) :
    ∃ sent, s.sendNames c device message = { s with sent := sent } := by
  rw [sendNames]
  split
  · exact ⟨_, rfl⟩
  · exact ⟨_, rfl⟩

section

variable (c) (s) (device) (message : NameMessage)

@[simp]
theorem identity_sendNames : (s.sendNames c device message).identity = s.identity := by
  obtain ⟨sent, h⟩ := sendNames_eq c s device message
  rw [h]

@[simp]
theorem names_sendNames : (s.sendNames c device message).names = s.names := by
  obtain ⟨sent, h⟩ := sendNames_eq c s device message
  rw [h]

@[simp]
theorem initialPulls_sendNames :
    (s.sendNames c device message).initialPulls = s.initialPulls := by
  obtain ⟨sent, h⟩ := sendNames_eq c s device message
  rw [h]

@[simp]
theorem pendingPages_sendNames :
    (s.sendNames c device message).pendingPages = s.pendingPages := by
  obtain ⟨sent, h⟩ := sendNames_eq c s device message
  rw [h]

@[simp]
theorem merged_sendNames : (s.sendNames c device message).merged = s.merged := by
  obtain ⟨sent, h⟩ := sendNames_eq c s device message
  rw [h]

end

variable (c) in
theorem quiet_sendNames (s : NamesRuntime Seed) (device : DeviceDescriptor)
    (message : NameMessage) : Quiet s (s.sendNames c device message) := by
  refine ⟨by simp, by simp, by simp, by simp, fun id page hpage => ?_⟩
  rw [pendingPages_sendNames] at hpage
  exact .inl hpage

theorem quiet_pullFrom (needsCertificate : Bool) (digest rosterHash : String)
    (ids : String → Bytes) (s : NamesRuntime Seed) (device : DeviceDescriptor) :
    Quiet s (pullFrom c needsCertificate digest rosterHash ids s device) := by
  rw [pullFrom]
  split
  · exact .rfl
  have hcertificate : Quiet s
      (if needsCertificate then s.sendNames c device .certificateRequest else s) := by
    split
    · exact quiet_sendNames c s device _
    · exact .rfl
  generalize (if needsCertificate then s.sendNames c device .certificateRequest else s) = t
    at hcertificate
  refine hcertificate.trans ?_
  dsimp only
  split
  · refine Quiet.trans ?_ (quiet_sendNames c _ _ _)
    refine ⟨.refl _, .refl _, .refl _, .refl _, fun id page hpage => ?_⟩
    dsimp only at hpage
    rw [Std.ExtTreeMap.getElem?_insert] at hpage
    split at hpage
    · next hid =>
      rw [Std.compare_eq_iff_eq] at hid
      subst hid
      rw [← Option.some.inj hpage, pageRequest]
      split
      · exact .inr rfl
      · next hold =>
        split
        · exact .inr rfl
        · exact .inl hold
    · exact .inl hpage
  · exact .rfl

/-- The names are read again, for the user that the roster belongs to. -/
structure Reloads (c : NamesCrypto Key Signature Seed) (s s' : NamesRuntime Seed) : Prop where
  identity : s'.identity = s.identity
  names : s'.names = ⟨s.names.rows, s.user, s.own, ChatNames.stored c.codec s.names.rows s.user⟩
  sound : s'.names.register.Sound
  initialPulls : s'.initialPulls = ∅
  pendingPages : s'.pendingPages = ∅
  merged : s'.merged = s.merged

theorem reloadNames_eq_ok {read : Option String} (h : s.reloadNames c read = .ok s') :
    s' = s ∧ s.names.user = s.user ∨ Reloads c s s' := by
  rw [reloadNames] at h
  split at h
  · next huser => exact .inl ⟨(Except.ok.inj h).symm, huser⟩
  · split at h
    · cases h
    · next names hopen =>
      obtain ⟨hnames, hsound⟩ := ChatNames.open_eq_ok hopen
      rw [← Except.ok.inj h]
      exact .inr ⟨rfl, hnames, hsound, rfl, rfl, rfl⟩

theorem user_reloadNames {read : Option String} (h : s.reloadNames c read = .ok s') :
    s'.names.user = s'.user ∧ s'.identity = s.identity := by
  obtain ⟨rfl, huser⟩ | hr := reloadNames_eq_ok h
  · exact ⟨huser, rfl⟩
  · refine ⟨?_, hr.identity⟩
    rw [hr.names, user, user, hr.identity]

/-- A round reads the names of the user if need be, and asks for first pages. -/
theorem syncNames_cases (s : NamesRuntime Seed) (round : Round) :
    (∃ e, s.syncNames c round = (.error e, s)) ∨
      ∃ t result s', s.reloadNames c round.read = .ok t ∧ Quiet t s' ∧
        s.syncNames c round = (result, s') := by
  rw [syncNames]
  split
  · next e _ => exact .inl ⟨e, rfl⟩
  next t hreload =>
    right
    split
    · exact ⟨t, _, t, hreload, .rfl, rfl⟩
    split
    · exact ⟨t, _, t, hreload, .rfl, rfl⟩
    dsimp only
    split
    · exact ⟨t, _, t, hreload, .rfl, rfl⟩
    next s' hturns =>
      refine ⟨t, _, s', hreload, ?_, rfl⟩
      simp only [bind_eq_ok] at hturns
      obtain ⟨rosterHash, -, certificate, -, devices, -, hfold⟩ := hturns
      rw [← Except.ok.inj hfold]
      -- every turn is quiet
      have hquiet : ∀ (devices : List DeviceDescriptor) (u : NamesRuntime Seed), Quiet u
          (devices.foldl (pullFrom c certificate.isNone (t.digest c) rosterHash round.ids) u) := by
        intro devices
        induction devices with
        | nil => exact fun u => .rfl
        | cons device devices ih => exact fun u => (quiet_pullFrom _ _ _ _ u device).trans (ih _)
      exact hquiet devices t

theorem identity_syncNames (s : NamesRuntime Seed) (round : Round) :
    (s.syncNames c round).2.identity = s.identity := by
  obtain ⟨e, he⟩ | ⟨t, result, u, hreload, hquiet, hu⟩ := syncNames_cases (c := c) s round
  · rw [he]
  · rw [hu]
    exact hquiet.identity.trans (user_reloadNames hreload).2

theorem merged_reloadNames {read : Option String} (h : s.reloadNames c read = .ok s') :
    s'.merged = s.merged := by
  obtain ⟨rfl, -⟩ | hr := reloadNames_eq_ok h
  · rfl
  · exact hr.merged

theorem merged_syncNames (s : NamesRuntime Seed) (round : Round) :
    (s.syncNames c round).2.merged = s.merged := by
  obtain ⟨e, he⟩ | ⟨t, result, u, hreload, hquiet, hu⟩ := syncNames_cases (c := c) s round
  · rw [he]
  · rw [hu]
    exact hquiet.merged.trans (merged_reloadNames hreload)

theorem user_syncNames {round : Round} (h : s.syncNames c round = (.ok (), s')) :
    s'.names.user = s'.user := by
  obtain ⟨e, he⟩ | ⟨t, result, u, hreload, hquiet, hu⟩ := syncNames_cases (c := c) s round
  · rw [he] at h
    cases h
  · rw [hu] at h
    obtain ⟨-, rfl⟩ := Prod.mk.inj h
    rw [hquiet.names, user, hquiet.identity]
    exact (user_reloadNames hreload).1

/-- A page is merged that answers the request that is outstanding. -/
structure Merges (c : NamesCrypto Key Signature Seed) (s s' : NamesRuntime Seed) : Prop where
  identity : s'.identity = s.identity
  page : ∃ (sender : DeviceDescriptor) (request : NamePageRequest) (records : List NameRecord)
    (next : Option String) (complete b : Bool) (write : Option String),
    DeviceLink.digest c.toRosterCrypto s.identity.roster = .ok request.rosterHash ∧
    s.pendingPages[sender.deviceId]? = some request ∧
    s.completes c sender request.rosterHash next.isNone = .ok complete ∧
    s.names.merge c.codec records complete write = (.ok b, s'.names) ∧
    s'.merged = s.merged ++ [⟨s.names.user, sender.deviceId, request, records, next⟩] ∧
    (∀ (id hash : String), s'.initialPulls[id]? = some hash → s.initialPulls[id]? = some hash ∨
      id = sender.deviceId ∧ hash = request.rosterHash ∧ next = none) ∧
    ∀ (id : String) (page : NamePageRequest), s'.pendingPages[id]? = some page →
      s.pendingPages[id]? = some page ∨ id = sender.deviceId ∧
        page.rosterHash = request.rosterHash ∧ page.after = next ∧ next ≠ none

theorem mergeNamePage_eq_ok {records : List NameRecord} {lastPage : Bool} {write : Option String}
    (h : s.mergeNamePage c sender records lastPage write = .ok s') :
    ∃ rosterHash complete b, DeviceLink.digest c.toRosterCrypto s.identity.roster = .ok rosterHash ∧
      s.completes c sender rosterHash lastPage = .ok complete ∧
      s.names.merge c.codec records complete write = (.ok b, s'.names) ∧
      s'.identity = s.identity ∧ s'.merged = s.merged ∧ s'.pendingPages = s.pendingPages ∧
      ∀ (id hash : String), s'.initialPulls[id]? = some hash → s.initialPulls[id]? = some hash ∨
        id = sender.deviceId ∧ hash = rosterHash ∧ lastPage = true := by
  rw [mergeNamePage] at h
  simp only [bind_eq_ok] at h
  obtain ⟨rosterHash, hdigest, complete, hcomplete, h⟩ := h
  rcases hmerge : s.names.merge c.codec records complete write with ⟨e | b, names⟩
  · rw [hmerge] at h
    cases h
  rw [hmerge] at h
  dsimp only at h
  refine ⟨rosterHash, complete, b, hdigest, hcomplete, ?_⟩
  split at h
  · obtain rfl := Except.ok.inj h
    exact ⟨hmerge, rfl, rfl, rfl, fun id hash hid => by simp at hid⟩
  split at h
  · next hlast =>
    obtain rfl := Except.ok.inj h
    refine ⟨hmerge, rfl, rfl, rfl, fun id hash hid => ?_⟩
    rw [Std.ExtTreeMap.getElem?_insert] at hid
    split at hid
    · next heq =>
      exact .inr ⟨(Std.compare_eq_iff_eq.1 heq).symm, (Option.some.inj hid).symm, hlast⟩
    · exact .inl hid
  · obtain rfl := Except.ok.inj h
    exact ⟨hmerge, rfl, rfl, rfl, fun _ _ hid => .inl hid⟩

theorem receiveNamePage_eq_ok {records : List NameRecord} {next : Option String}
    {requestId id : Bytes} {write : Option String}
    (h : s.receiveNamePage c sender records next requestId id write = .ok s') :
    s' = s ∨ Merges c s s' := by
  rw [receiveNamePage] at h
  simp only [bind_eq_ok] at h
  obtain ⟨rosterHash, hdigest, h⟩ := h
  split at h
  · exact .inl (Except.ok.inj h).symm
  next request hrequest =>
    split at h
    · exact .inl (Except.ok.inj h).symm
    next hanswers =>
      right
      rw [not_or, not_not, not_not] at hanswers
      obtain ⟨-, rfl⟩ := hanswers
      simp only [bind_eq_ok] at h
      obtain ⟨t, hmerge, h⟩ := h
      obtain ⟨rosterHash, complete, b, hdigest', hcomplete, hnames, hidentity, hmerged, hpending,
        hpulls⟩ := mergeNamePage_eq_ok hmerge
      obtain rfl : rosterHash = request.rosterHash := Except.ok.inj (hdigest'.symm.trans hdigest)
      have huser : t.names.user = s.names.user := by
        have huser : (s.names.merge c.codec records complete write).2.user = s.names.user :=
          ChatNames.user_merge s.names records complete write
        rwa [hnames] at huser
      cases next with
      | none =>
        obtain rfl := Except.ok.inj h
        refine ⟨by simp [hidentity], sender, request, records, none, complete, b, write, hdigest,
          hrequest, hcomplete, by simpa using hnames, by simp [hmerged, huser], ?_, ?_⟩
        · intro id hash hid
          obtain hold | ⟨rfl, rfl, -⟩ := hpulls id hash (by simpa using hid)
          · exact .inl hold
          · exact .inr ⟨rfl, rfl, rfl⟩
        · intro id page hpage
          simp only [pendingPages_sendNames, Std.ExtTreeMap.getElem?_erase] at hpage
          split at hpage
          · cases hpage
          · exact .inl (hpending ▸ hpage)
      | some after =>
        obtain rfl := Except.ok.inj h
        refine ⟨by simp [hidentity], sender, request, records, some after, complete, b, write,
          hdigest, hrequest, hcomplete, by simpa using hnames, by simp [hmerged, huser], ?_, ?_⟩
        · intro id hash hid
          obtain hold | ⟨-, -, hlast⟩ := hpulls id hash (by simpa using hid)
          · exact .inl hold
          · cases hlast
        · intro id page hpage
          simp only [pendingPages_sendNames, Std.ExtTreeMap.getElem?_insert] at hpage
          split at hpage
          · next heq =>
            rw [← Option.some.inj hpage]
            exact .inr ⟨(Std.compare_eq_iff_eq.1 heq).symm, rfl, rfl, Option.some_ne_none _⟩
          · exact .inl (hpending ▸ hpage)

/-- A packet does nothing, or it comes to a runtime that has the names of the user, where it is
    quiet or a page to merge. -/
theorem receiveNames_cases (s : NamesRuntime Seed) (packet id : Bytes)
    (read write : Option String) :
    (s.receiveNames c packet id read write).2 = s ∨
      ∃ t, s.reloadNames c read = .ok t ∧
        (Quiet t (s.receiveNames c packet id read write).2 ∨
          Merges c t (s.receiveNames c packet id read write).2) := by
  rw [receiveNames]
  split
  swap
  · exact .inl rfl
  split
  · exact .inl rfl
  next t hreload =>
    refine .inr ⟨t, hreload, ?_⟩
    split
    · exact .inl .rfl
    · next sender after requestId _ =>
      left
      dsimp only [replyNamePage]
      split
      · exact (quiet_sendNames c t sender _).trans (quiet_sendNames c _ sender _)
      · exact quiet_sendNames c t sender _
    · split
      · split
        · exact .inl .rfl
        · next t' hpage =>
          obtain rfl | hmerges := receiveNamePage_eq_ok hpage
          · exact .inl .rfl
          · exact .inr hmerges
      · exact .inl .rfl
    · exact .inl ⟨.refl _, .refl _, .refl _, .refl _, fun _ _ h => .inl h⟩
    · exact .inl .rfl

/-- A write of a name fails with the round before it, or because names may not be written, or it
    is made. -/
theorem writeName_cases (set : ChatNames → Except ChatNameError Unit × ChatNames)
    (s : NamesRuntime Seed) (round : Round) :
    (∃ e result s', s.syncNames c round = (result, s') ∧ s.writeName c set round = (.error e, s')) ∨
      ∃ t, s.syncNames c round = (.ok (), t) ∧ t.requireActiveNameWriter c = .ok () ∧
        (s.writeName c set round).2 = { t with names := (set t.names).2 } := by
  rw [writeName]
  split
  · next e t h => exact .inl ⟨_, _, t, h, rfl⟩
  next t h =>
    split
    · exact .inl ⟨_, _, t, h, rfl⟩
    next hactive =>
      refine .inr ⟨t, h, hactive, ?_⟩
      split
      · next hset => rw [hset]
      · next hset => rw [hset]

theorem merged_writeName (set : ChatNames → Except ChatNameError Unit × ChatNames)
    (s : NamesRuntime Seed) (round : Round) : (s.writeName c set round).2.merged = s.merged := by
  have hmerged := merged_syncNames (c := c) s round
  obtain ⟨e, result, s', hsynced, hwrite⟩ | ⟨t, hsynced, -, hwrite⟩ :=
    writeName_cases (c := c) set s round
  · rw [hwrite]
    rwa [hsynced] at hmerged
  · rw [hwrite]
    rwa [hsynced] at hmerged

theorem identity_writeName (set : ChatNames → Except ChatNameError Unit × ChatNames)
    (s : NamesRuntime Seed) (round : Round) :
    (s.writeName c set round).2.identity = s.identity := by
  have hidentity := identity_syncNames (c := c) s round
  obtain ⟨e, result, s', hsynced, hwrite⟩ | ⟨t, hsynced, -, hwrite⟩ :=
    writeName_cases (c := c) set s round
  · rw [hwrite]
    rwa [hsynced] at hidentity
  · rw [hwrite]
    rwa [hsynced] at hidentity

/-! ## What a runtime knows -/

/-- All other devices of the roster have been pulled, under the digest that it has. -/
def Synced (c : NamesCrypto Key Signature Seed) (s : NamesRuntime Seed) : Prop :=
  ∃ devices, s.identity.roster.devices c.toRosterCrypto = .ok devices ∧
    ∀ d ∈ devices, d.deviceId ≠ s.own →
      ∃ rosterHash, DeviceLink.digest c.toRosterCrypto s.identity.roster = .ok rosterHash ∧
        Pulled s.merged s.user rosterHash d.deviceId

/-- What the maps and the registers say about the pages that were merged. `rows` is the table at
    the start, and `M` holds of the users for whom all was pulled at some moment since then. -/
structure Known (c : NamesCrypto Key Signature Seed)
    (rows : Std.ExtTreeMap String (List UInt8) compare) (M : String → Prop)
    (s : NamesRuntime Seed) : Prop where
  stored : s.names.register = ChatNames.stored c.codec s.names.rows s.names.user
  sound : s.names.register.Sound
  pending : ∀ (id : String) (page : NamePageRequest), s.pendingPages[id]? = some page →
    ∃ pages, Collected s.merged s.names.user page.rosterHash id pages ∧ Chained pages page.after
  pulls : ∀ (id rosterHash : String), s.initialPulls[id]? = some rosterHash →
    Pulled s.merged s.names.user rosterHash id
  flag : ∀ user, (ChatNames.stored c.codec s.names.rows user).initialSyncComplete = true →
    (ChatNames.stored c.codec rows user).initialSyncComplete = true ∨ M user
  held : ∀ p ∈ s.merged, ∀ r ∈ p.records,
    (ChatNames.stored c.codec s.names.rows p.user).Holds r.key r.version

namespace Known

variable {rows : Std.ExtTreeMap String (List UInt8) compare} {M M' : String → Prop}

theorem mono (h : Known c rows M s) (hM : ∀ user, M user → M' user) : Known c rows M' s where
  stored := h.stored
  sound := h.sound
  pending := h.pending
  pulls := h.pulls
  flag user huser := (h.flag user huser).imp_right (hM user)
  held := h.held

theorem quiet (h : Known c rows M s) (hnames : s'.names = s.names)
    (hpulls : s'.initialPulls = s.initialPulls) (hmerged : s'.merged = s.merged)
    (hpending : ∀ (id : String) (page : NamePageRequest), s'.pendingPages[id]? = some page →
      s.pendingPages[id]? = some page ∨ page.after = none) : Known c rows M s' where
  stored := by rw [hnames, h.stored]
  sound := by
    rw [hnames]
    exact h.sound
  pending id page hpage := by
    rw [hnames, hmerged]
    obtain hold | hfirst := hpending id page hpage
    · exact h.pending id page hold
    · rw [hfirst]
      exact ⟨[], ⟨List.nil_sublist _, by simp⟩, .nil⟩
  pulls id rosterHash hid := by
    rw [hnames, hmerged]
    exact h.pulls id rosterHash (hpulls ▸ hid)
  flag := by
    rw [hnames]
    exact h.flag
  held := by
    rw [hnames, hmerged]
    exact h.held

theorem reloads (h : Known c rows M s) (hr : Reloads c s s') : Known c rows M s' where
  stored := by rw [hr.names]
  sound := hr.sound
  pending id page hpage := by
    rw [hr.pendingPages] at hpage
    simp at hpage
  pulls id rosterHash hid := by
    rw [hr.initialPulls] at hid
    simp at hid
  flag := by
    rw [hr.names]
    exact h.flag
  held := by
    rw [hr.names, hr.merged]
    exact h.held

theorem reloadNames (h : Known c rows M s) {read : Option String}
    (hr : s.reloadNames c read = .ok s') : Known c rows M s' := by
  obtain ⟨rfl, -⟩ | hr := reloadNames_eq_ok hr
  · exact h
  · exact h.reloads hr

theorem syncNames (h : Known c rows M s) (round : Round) :
    Known c rows M (s.syncNames c round).2 := by
  obtain ⟨e, he⟩ | ⟨t, result, s', hreload, hquiet, he⟩ := syncNames_cases (c := c) s round
  · rwa [he]
  · rw [he]
    exact (h.reloadNames hreload).quiet hquiet.names hquiet.initialPulls hquiet.merged
      hquiet.pending

/-- Records are saved for the user, and the pages they came on are noted. -/
theorem saved (h : Known c rows M s)
    (hcodec : ∀ register, c.codec.decode (c.codec.encode register) = .ok register)
    {records : List NameRecord} {flag : Bool} {n : List MergedPage}
    (hsaved : ChatNames.Saved c.codec s.names s'.names records flag)
    (hflag : flag = true → s.names.register.initialSyncComplete = true ∨ M s.names.user)
    (hmerged : s'.merged = s.merged ++ n)
    (hnew : ∀ p ∈ n, p.user = s.names.user ∧ p.records = records)
    (hpending : ∀ (id : String) (page : NamePageRequest), s'.pendingPages[id]? = some page →
      ∃ pages, Collected s'.merged s.names.user page.rosterHash id pages ∧ Chained pages page.after)
    (hpulls : ∀ (id rosterHash : String), s'.initialPulls[id]? = some rosterHash →
      Pulled s'.merged s.names.user rosterHash id) : Known c rows M s' := by
  obtain ⟨hstored, hothers⟩ := hsaved.stored hcodec h.stored
  refine ⟨hstored, hsaved.merged.sound, hsaved.user ▸ hpending, hsaved.user ▸ hpulls, ?_, ?_⟩
  · intro user huser
    by_cases heq : user = s.names.user
    · subst heq
      rw [← hsaved.user, ← hstored, hsaved.flag, Bool.or_eq_true] at huser
      rcases huser with hold | hnow
      · exact h.flag _ (h.stored ▸ hold)
      · rcases hflag hnow with hold | hM
        · exact h.flag _ (h.stored ▸ hold)
        · exact .inr hM
    · exact h.flag user (hothers user heq ▸ huser)
  · intro p hp r hr
    by_cases heq : p.user = s.names.user
    · rw [heq, ← hsaved.user, ← hstored]
      rw [hmerged, List.mem_append] at hp
      rcases hp with hp | hp
      · have hheld := h.held p hp r hr
        rw [heq, ← h.stored] at hheld
        exact hsaved.merged.keeps hheld
      · rw [(hnew p hp).2] at hr
        exact hsaved.merged.holds (.inr ⟨hr, rfl⟩)
    · rw [hmerged, List.mem_append] at hp
      rcases hp with hp | hp
      · rw [hothers _ heq]
        exact h.held p hp r hr
      · exact absurd (hnew p hp).1 heq

/-- A page is merged. With the last page of the last device that was missing, all is pulled. -/
theorem merges (h : Known c rows M s)
    (hcodec : ∀ register, c.codec.decode (c.codec.encode register) = .ok register)
    (hm : Merges c s s') (huser : s.names.user = s.user) (hM : Synced c s' → M s.user) :
    Known c rows M s' := by
  obtain ⟨sender, request, records, next, complete, b, write, hdigest, hrequest, hcomplete, hmerge,
    hmerged, hpulls, hpending⟩ := hm.page
  obtain ⟨before, hbefore, hchained⟩ := h.pending _ request hrequest
  set page : MergedPage := ⟨s.names.user, sender.deviceId, request, records, next⟩ with hpage
  have hcollected : Collected s'.merged s.names.user request.rosterHash sender.deviceId
      (before ++ [page]) := hmerged ▸ hbefore.snoc ⟨rfl, rfl, rfl⟩
  have hlast : next = none →
      Pulled s'.merged s.names.user request.rosterHash sender.deviceId := fun hnext =>
    ⟨_, hcollected, before, page, rfl, hchained, hnext⟩
  refine h.saved hcodec (n := [page]) (ChatNames.merge_eq_ok h.sound hmerge) ?_ hmerged ?_ ?_ ?_
  · -- the flag is set, so this was the last page, and the others had been pulled
    rintro rfl
    rw [huser]
    refine .inr (hM ?_)
    rw [completes] at hcomplete
    split at hcomplete
    · cases hcomplete
    next hnext =>
      rw [Bool.not_eq_true, Bool.not_eq_false', Option.isNone_iff_eq_none] at hnext
      simp only [bind_eq_ok] at hcomplete
      obtain ⟨devices, hdevices, hall⟩ := hcomplete
      have hall := List.all_eq_true.1 (Except.ok.inj hall)
      refine ⟨devices, hm.identity ▸ hdevices, fun d hd hother => ⟨request.rosterHash,
        hm.identity ▸ hdigest, ?_⟩⟩
      have hd := hall d hd
      rw [own, hm.identity] at hother
      rw [user, hm.identity, ← user, ← huser]
      simp only [Bool.or_eq_true, decide_eq_true_eq] at hd
      obtain (hown | hsender) | hpulled := hd
      · exact absurd hown hother
      · rw [hsender]
        exact hlast hnext
      · rw [hmerged]
        exact (h.pulls _ _ hpulled).append _
  · intro p hp
    rw [List.mem_singleton.1 hp]
    exact ⟨rfl, rfl⟩
  · intro id q hq
    obtain hold | ⟨rfl, hhash, hafter, hnext⟩ := hpending id q hq
    · obtain ⟨pages, hpages, hchain⟩ := h.pending id q hold
      exact ⟨pages, hmerged ▸ hpages.append _, hchain⟩
    · obtain ⟨key, hkey⟩ := Option.ne_none_iff_exists'.1 hnext
      rw [hhash, hafter, hkey]
      exact ⟨_, hcollected, .snoc hchained hkey⟩
  · intro id rosterHash hid
    obtain hold | ⟨rfl, rfl, hnext⟩ := hpulls id rosterHash hid
    · exact hmerged ▸ (h.pulls id rosterHash hold).append _
    · exact hlast hnext

/-- A device that may write has pulled all, or is the only one of its roster. -/
theorem synced_of_active (h : s.requireActiveNameWriter c = .ok ()) :
    s.names.register.initialSyncComplete = true ∨ Synced c s := by
  by_cases hflag : s.names.register.initialSyncComplete = true
  · exact .inl hflag
  right
  rw [requireActiveNameWriter] at h
  simp only [bind_eq_ok, mapError_eq_ok, check_eq_ok, Bool.not_eq_true'] at h
  obtain ⟨revoked, hrevoked, -, hmember, h⟩ := h
  subst hmember
  rw [Bool.not_eq_true] at hflag
  rw [hflag] at h
  simp only [if_true, bind_eq_ok, mapError_eq_ok, check_eq_ok,
    decide_eq_true_eq] at h
  obtain ⟨devices, hdevices, hlength⟩ := h
  refine ⟨devices, hdevices, fun d hd hother => absurd ?_ hother⟩
  -- the device is in its roster itself
  rw [LocalIdentity.revoked, bind_eq_ok] at hrevoked
  obtain ⟨devices', hdevices', hmem⟩ := hrevoked
  obtain rfl := Except.ok.inj (hdevices'.symm.trans hdevices)
  have hself : s.identity.device ∈ devices' := by simpa using Except.ok.inj hmem
  match devices', hlength with
  | [e], _ => rw [own, List.mem_singleton.1 hd, List.mem_singleton.1 hself]

theorem writeName (h : Known c rows M s)
    (hcodec : ∀ register, c.codec.decode (c.codec.encode register) = .ok register)
    {set : ChatNames → Except ChatNameError Unit × ChatNames} {round : Round}
    (hset : ∀ names : ChatNames, names.register.Sound → (set names).2 = names ∨
      ∃ record, ChatNames.Saved c.codec names (set names).2 [record] true)
    (hM : Synced c (s.writeName c set round).2 → M s.user) :
    Known c rows M (s.writeName c set round).2 := by
  have hsync := h.syncNames round
  obtain ⟨e, result, s', hsynced, hwrite⟩ | ⟨t, hsynced, hactive, hwrite⟩ :=
    writeName_cases (c := c) set s round
  · rw [hwrite]
    rwa [hsynced] at hsync
  rw [hsynced] at hsync
  rw [hwrite] at hM ⊢
  obtain hsame | ⟨record, hsaved⟩ := hset t.names hsync.sound
  · rw [hsame]
    exact hsync.quiet rfl rfl rfl fun _ _ hpage => .inl hpage
  have huser := user_syncNames hsynced
  have hidentity := identity_syncNames (c := c) s round
  rw [hsynced] at hidentity
  refine hsync.saved hcodec (n := []) hsaved (fun _ => ?_) (List.append_nil _).symm (by simp)
    hsync.pending hsync.pulls
  -- all was pulled before the write, or there is nothing to pull
  refine (synced_of_active hactive).imp_right fun hnow => ?_
  rw [huser, user, hidentity]
  exact hM hnow

theorem rename (key name : String) (write : Option String) (names : ChatNames)
    (hs : names.register.Sound) : (names.rename c.codec key name write).2 = names ∨
      ∃ record,
        ChatNames.Saved c.codec names (names.rename c.codec key name write).2 [record] true := by
  rw [ChatNames.rename]
  split
  · exact .inl rfl
  · exact ChatNames.set_saved hs key _ write

/-- What a step keeps. -/
theorem step (h : Known c rows M s)
    (hcodec : ∀ register, c.codec.decode (c.codec.encode register) = .ok register)
    (happening : Happening Seed)
    (hM : Synced c (s.step c happening) → M (s.step c happening).user) :
    Known c rows M (s.step c happening) := by
  cases happening with
  | identity identity => exact h.quiet rfl rfl rfl fun _ _ hpage => .inl hpage
  | reload read =>
    rw [NamesRuntime.step]
    cases hr : s.reloadNames c read with
    | error e => exact h
    | ok s' => exact h.reloadNames hr
  | sync round => exact h.syncNames round
  | receive packet id read write =>
    rw [NamesRuntime.step] at hM ⊢
    obtain hsame | ⟨t, hreload, hquiet | hmerges⟩ :=
      receiveNames_cases (c := c) s packet id read write
    · rwa [hsame]
    · exact (h.reloadNames hreload).quiet hquiet.names hquiet.initialPulls hquiet.merged
        hquiet.pending
    · refine (h.reloadNames hreload).merges hcodec hmerges (user_reloadNames hreload).1
        fun hnow => ?_
      rw [user, ← hmerges.identity]
      exact hM hnow
  | rename key name round write =>
    refine h.writeName hcodec (rename key name write) fun hnow => ?_
    rw [user, ← identity_writeName (c := c) _ s round]
    exact hM hnow
  | reset key round write =>
    refine h.writeName hcodec (fun names hs => ChatNames.set_saved hs key none write) fun hnow => ?_
    rw [user, ← identity_writeName (c := c) _ s round]
    exact hM hnow
  | restart read =>
    rw [NamesRuntime.step]
    split
    · exact h
    · next started hstart =>
      rw [start, bind_eq_ok] at hstart
      obtain ⟨names, hopen, hstart⟩ := hstart
      obtain ⟨hnames, hsound⟩ := ChatNames.open_eq_ok hopen
      obtain rfl := Except.ok.inj hstart
      exact h.reloads ⟨rfl, hnames, hsound, rfl, rfl, rfl⟩

end Known

/-- The pages that were merged stay noted. -/
theorem merged_step (s : NamesRuntime Seed) (happening : Happening Seed) :
    s.merged <+: (s.step c happening).merged := by
  cases happening with
  | identity identity => exact List.prefix_rfl
  | reload read =>
    rw [step]
    cases hr : s.reloadNames c read with
    | error e => exact List.prefix_rfl
    | ok s' => exact merged_reloadNames hr ▸ List.prefix_rfl
  | sync round => exact merged_syncNames (c := c) s round ▸ List.prefix_rfl
  | receive packet id read write =>
    rw [step]
    obtain hsame | ⟨t, hreload, hquiet | hmerges⟩ :=
      receiveNames_cases (c := c) s packet id read write
    · rw [hsame]
    · rw [hquiet.merged, merged_reloadNames hreload]
    · obtain ⟨_, _, _, _, _, _, _, -, -, -, -, hmerged, -⟩ := hmerges.page
      rw [hmerged, merged_reloadNames hreload]
      exact List.prefix_append _ _
  | rename key name round write => exact merged_writeName (c := c) _ s round ▸ List.prefix_rfl
  | reset key round write => exact merged_writeName (c := c) _ s round ▸ List.prefix_rfl
  | restart read =>
    rw [step]
    split
    · exact List.prefix_rfl
    · exact List.prefix_rfl

/-! ## Runs -/

/-- A state that a runtime can get to. -/
def Reaches (c : NamesCrypto Key Signature Seed) (s s' : NamesRuntime Seed) : Prop :=
  ∃ happenings, Runs (step c) (fun _ _ => True) s happenings s'

theorem Reaches.merged (h : Reaches c s s') : s.merged <+: s'.merged := by
  obtain ⟨happenings, hruns⟩ := h
  exact hruns.invariant (P := fun t => s.merged <+: t.merged)
    (fun t happening _ ht => ht.trans (merged_step t happening)) List.prefix_rfl

theorem Reaches.step (h : Reaches c s s') (happening : Happening Seed) :
    Reaches c s (s'.step c happening) := by
  obtain ⟨happenings, hruns⟩ := h
  exact ⟨_, hruns.trans (.single trivial)⟩

/-- There was a moment at which all was pulled for a user. -/
def OnceSynced (c : NamesCrypto Key Signature Seed) (s₀ s : NamesRuntime Seed) (user : String) :
    Prop :=
  ∃ m, Reaches c s₀ m ∧ Reaches c m s ∧ m.user = user ∧ Synced c m

variable {s₀ : NamesRuntime Seed} {identity : LocalIdentity Seed}
  {rows : Std.ExtTreeMap String (List UInt8) compare} {read : Option String}

/-- In every run of a runtime its registers and maps say what was pulled. -/
theorem known_of_reaches
    (hcodec : ∀ register, c.codec.decode (c.codec.encode register) = .ok register)
    (hstart : start c identity rows read = .ok s₀) (h : Reaches c s₀ s) :
    Known c rows (OnceSynced c s₀ s) s := by
  have hfirst : Known c rows (OnceSynced c s₀ s₀) s₀ := by
    rw [start, bind_eq_ok] at hstart
    obtain ⟨names, hopen, hstart⟩ := hstart
    obtain ⟨hnames, hsound⟩ := ChatNames.open_eq_ok hopen
    obtain rfl := Except.ok.inj hstart
    refine ⟨by rw [hnames], hsound, by simp, by simp, fun user huser => .inl ?_, by simp⟩
    rw [hnames] at huser
    exact huser
  obtain ⟨happenings, hruns⟩ := h
  refine (hruns.invariant (P := fun t => Reaches c s₀ t ∧ Known c rows (OnceSynced c s₀ t) t)
    (fun t happening _ ⟨hreach, hknown⟩ => ⟨hreach.step happening, ?_⟩) ⟨⟨[], .nil _⟩, hfirst⟩).2
  have hmono : ∀ user, OnceSynced c s₀ t user → OnceSynced c s₀ (t.step c happening) user :=
    fun user ⟨m, hm, hmt, huser, hsynced⟩ => ⟨m, hm, hmt.step happening, huser, hsynced⟩
  exact (hknown.mono hmono).step hcodec happening fun hsynced =>
    ⟨_, hreach.step happening, ⟨[], .nil _⟩, rfl, hsynced⟩

end NamesRuntime

/-- A page is the answer of a device that held a key in a version, or a newer one. -/
def MergedPage.Held (page : MergedPage) (key : String) (version : NameVersion) : Prop :=
  ∃ peer : ChatNames, peer.register.Sound ∧ (∃ r ∈ peer.register.lookup key, version ≤ r.version) ∧
    page.records = peer.page page.request.after ∧ page.next = ChatNames.nextCursor page.records

namespace NamesRuntime

variable {s₀ s s' : NamesRuntime Seed} {identity : LocalIdentity Seed}
  {rows : Std.ExtTreeMap String (List UInt8) compare} {read : Option String}

/-- An installation that is new to an account writes a name only after a moment at which it had
    merged all pages of every other device of its roster, each as the answer to the request that was
    outstanding, under the digest of that roster. What such a device held throughout its pages, the
    installation holds in a version at least as new when it writes, and its clock has counted it. -/
theorem names_written_after_sync
    (hcodec : ∀ register, c.codec.decode (c.codec.encode register) = .ok register)
    (hstart : start c identity rows read = .ok s₀) (hreach : Reaches c s₀ s)
    (hnew : (ChatNames.stored c.codec rows s.user).initialSyncComplete = false)
    {round : Round} {snapshot : ChatNameSnapshot}
    (hwrite : (∃ key name write, s.renameChat c key name round write = (.ok snapshot, s')) ∨
      ∃ key write, s.resetChatName c key round write = (.ok snapshot, s')) :
    ∃ m devices, Reaches c s₀ m ∧ Reaches c m s ∧ m.user = s.user ∧
      m.identity.roster.devices c.toRosterCrypto = .ok devices ∧
      ∀ d ∈ devices, d.deviceId ≠ m.own → ∃ rosterHash pages,
        DeviceLink.digest c.toRosterCrypto m.identity.roster = .ok rosterHash ∧
        Collected m.merged s.user rosterHash d.deviceId pages ∧ Complete pages ∧
        ∀ key version, (∀ page ∈ pages, page.Held key version) →
          (s.syncNames c round).2.names.register.Holds key version := by
  have hset : ∃ set, s.writeName c set round = (.ok snapshot, s') := by
    obtain ⟨key, name, write, h⟩ | ⟨key, write, h⟩ := hwrite
    · exact ⟨_, h⟩
    · exact ⟨_, h⟩
  obtain ⟨set, hset⟩ := hset
  obtain ⟨e, result, t, -, hfailed⟩ | ⟨t, hsync, hactive, -⟩ := writeName_cases (c := c) set s round
  · rw [hfailed] at hset
    cases hset
  have hknown := (known_of_reaches hcodec hstart hreach).syncNames round
  have hmerged := merged_syncNames (c := c) s round
  have hidentity := identity_syncNames (c := c) s round
  rw [hsync] at hknown hmerged hidentity
  have huser : t.names.user = s.user := by rw [user_syncNames hsync, user, hidentity]
  obtain ⟨m, hm, hms, hmuser, devices, hdevices, hall⟩ : OnceSynced c s₀ s s.user := by
    rcases Known.synced_of_active hactive with hflag | ⟨devices, hdevices, hall⟩
    · rw [hknown.stored, huser] at hflag
      refine (hknown.flag _ hflag).resolve_left fun hold => ?_
      rw [hnew] at hold
      cases hold
    · refine ⟨s, hreach, ⟨[], .nil _⟩, rfl, devices, hidentity ▸ hdevices, fun d hd hother => ?_⟩
      have hd := hall d hd
      rw [own, user, hidentity, hmerged] at hd
      exact hd hother
  refine ⟨m, devices, hm, hms, hmuser, hdevices, fun d hd hother => ?_⟩
  obtain ⟨rosterHash, hdigest, pages, hpages, hcomplete⟩ := hall d hd hother
  rw [hmuser] at hpages
  refine ⟨rosterHash, pages, hdigest, hpages, hcomplete, fun key version hheld => ?_⟩
  -- the key is on one of the pages, and what was on a page is held since
  obtain ⟨page, hpage, hcovers⟩ := hcomplete.covered key
  obtain ⟨peer, hsound, ⟨r, hr, hle⟩, hrecords, hnext⟩ := hheld page hpage
  have hmem : r ∈ page.records := by
    rw [MergedPage.Covers, hnext, hrecords] at hcovers
    rw [hrecords]
    exact ChatNames.mem_page hsound hr hcovers
  have hholds := hknown.held page
    (hmerged ▸ hms.merged.subset (hpages.sublist.subset hpage)) r hmem
  rw [(hpages.all page hpage).1, ← huser, ← hknown.stored, hsound.keyed key r hr] at hholds
  rw [hsync]
  exact hholds.mono hle

end NamesRuntime

/-! ### A third device -/

namespace Text

def nameRecord : Format NameRecord :=
  (Format.word.pair (Format.number.pair (Format.word.pair Format.word.option))).through
    (fun r => (r.key, r.version.counter.val, r.version.actor, r.name))
    (fun (a, b, d, e) => if h : b < 2 ^ 64 then some ⟨a, ⟨⟨b, h⟩, d⟩, e⟩ else none)
    fun r => dif_pos r.version.counter.isLt

/-- The entries of a map put it together again. -/
theorem ofList_entries (entries : Std.ExtTreeMap String NameRecord compare) :
    Std.ExtTreeMap.ofList entries.toList compare = entries := by
  refine Std.ExtTreeMap.ext_getElem? fun key => ?_
  cases h : entries[key]? with
  | some r =>
    exact Std.ExtTreeMap.getElem?_ofList_of_mem (Std.compare_eq_iff_eq.2 rfl)
      Std.ExtTreeMap.distinct_keys_toList (Std.ExtTreeMap.mem_toList_iff_getElem?_eq_some.2 h)
  | none =>
    refine Std.ExtTreeMap.getElem?_ofList_of_contains_eq_false ?_
    rw [Bool.eq_false_iff]
    intro hmem
    obtain ⟨⟨k, r⟩, hrow, rfl⟩ := List.mem_map.1 (List.contains_iff_mem.1 hmem)
    rw [Std.ExtTreeMap.mem_toList_iff_getElem?_eq_some.1 hrow] at h
    cases h

def register : Format Register :=
  (Format.number.pair (bool.pair (Format.word.pair nameRecord).list)).through
    (fun r => (r.clock.val, r.initialSyncComplete, r.entries.toList))
    (fun (a, b, d) => if h : a < 2 ^ 64 then some ⟨⟨a, h⟩, b, .ofList d compare⟩ else none)
    fun r => by
      change (if h : r.clock.val < 2 ^ 64 then some (⟨⟨r.clock.val, h⟩, r.initialSyncComplete,
        .ofList r.entries.toList compare⟩ : Register) else none) = some r
      rw [dif_pos r.clock.isLt, ofList_entries]

/-- The kind of a message about names, and all that a message may have. -/
def nameFields : NameMessage → Nat × Option String × Bytes × List NameRecord × String
  | .request after requestId => (0, after, requestId, [], "")
  | .batch records next requestId => (1, next, requestId, records, "")
  | .saved digest => (2, none, [], [], digest)
  | .certificateRequest => (3, none, [], [], "")
  | .other => (4, none, [], [], "")

def nameMessageOf : Nat × Option String × Bytes × List NameRecord × String → Option NameMessage
  | (0, after, requestId, _, _) => some (.request after requestId)
  | (1, next, requestId, records, _) => some (.batch records next requestId)
  | (2, _, _, _, digest) => some (.saved digest)
  | (3, _, _, _, _) => some .certificateRequest
  | (4, _, _, _, _) => some .other
  | _ => none

def nameMessage : Format NameMessage :=
  (Format.number.pair (Format.word.option.pair (Format.octets.pair (nameRecord.list.pair
    Format.word)))).through nameFields nameMessageOf fun m => by cases m <;> rfl

def namePacket : Format NamePacket :=
  (Format.word.pair (Format.word.pair (Format.word.pair (Format.word.pair (nameMessage.pair
    Format.word))))).through
    (fun p => (p.user, p.sender, p.recipient, p.rosterHash, p.message, p.signature))
    (fun (a, b, d, e, f, g) => some ⟨a, b, d, e, f, g⟩) fun _ => rfl

end Text

/-- The cryptography of names with a hash. -/
def namesCrypto (hash : Bytes → Bytes) : NamesCrypto (List UInt8) (List UInt8) UInt8 where
  toIdentityCrypto := linkCrypto hash
  codec := {
    encode := Text.register.packed
    decode := fun bytes => (Text.register.unpacked bytes).elim (.error "expected value") .ok }
  entriesDigest entries := hexText (hash (Text.register.packed ⟨⟨0, ChatNames.counter_pos⟩, false, entries⟩))
  packetContentJson content := some ((Format.word.pair (Format.word.pair (Format.word.pair
    (Format.word.pair Text.nameMessage)))).packed content)
  packetJson p := some (Text.namePacket.packed p)
  parsePacket := Text.namePacket.unpacked

theorem namesCrypto_codec (hash : Bytes → Bytes) (register : Register) :
    (namesCrypto hash).codec.decode ((namesCrypto hash).codec.encode register) = .ok register := by
  change (Text.register.unpacked (Text.register.packed register)).elim _ _ = _
  rw [Format.unpacked_packed]
  rfl

/-- The second installation, which has just joined the first one. -/
def joinedNames : NamesRuntime UInt8 where
  identity := linkedRecord checksum 2 (samplePair checksum)
  names := ⟨∅, (samplePair checksum).userId, (sampleDevice checksum 2).deviceId, ChatNames.noNames⟩
  peerDigests := ∅
  initialPulls := ∅
  pendingPages := ∅
  sent := []
  merged := []

/-- A round in which the same id is drawn for all requests. -/
def sampleRound : Round := ⟨true, fun _ => List.replicate 16 7, none⟩

theorem twenty_lt : 20 < 2 ^ 64 := by decide

/-- The first installation answers that it has one name. -/
def namesAnswer : Bytes :=
  ((NamePacket.sealed (namesCrypto checksum) (linkedRecord checksum 1 (samplePair checksum))
    (sampleDevice checksum 2).deviceId (.batch
      [⟨"channel:general", ⟨⟨20, twenty_lt⟩, (sampleDevice checksum 1).deviceId⟩, some "Existing"⟩] none
      (List.replicate 16 7))).toOption).getD []

/-- The second installation pulls the names of the first one. -/
def pullsNames : List (NamesRuntime.Happening UInt8) :=
  [.sync sampleRound, .receive namesAnswer [] none none]

/-- After that a third installation joins. -/
def thirdJoins : List (NamesRuntime.Happening UInt8) :=
  pullsNames ++ [.identity (linkedRecord checksum 2 (sampleTriple checksum))]

namespace NamesRuntime

set_option maxRecDepth 100000 in
/-- The second installation pulls the names of the first one, and renames a channel. -/
theorem names_written_after_sync_pulled :
    ∃ m devices, Reaches (namesCrypto checksum) joinedNames m ∧
      Reaches (namesCrypto checksum) m
        (pullsNames.foldl (step (namesCrypto checksum)) joinedNames) ∧
      m.user = (pullsNames.foldl (step (namesCrypto checksum)) joinedNames).user ∧
      m.identity.roster.devices (namesCrypto checksum).toRosterCrypto = .ok devices ∧
      ∀ d ∈ devices, d.deviceId ≠ m.own → ∃ rosterHash pages,
        DeviceLink.digest (namesCrypto checksum).toRosterCrypto m.identity.roster = .ok rosterHash ∧
        Collected m.merged (pullsNames.foldl (step (namesCrypto checksum)) joinedNames).user
          rosterHash d.deviceId pages ∧ Complete pages ∧
        ∀ key version, (∀ page ∈ pages, page.Held key version) →
          ((pullsNames.foldl (step (namesCrypto checksum)) joinedNames).syncNames
            (namesCrypto checksum) sampleRound).2.names.register.Holds key version := by
  have hok : ((pullsNames.foldl (step (namesCrypto checksum)) joinedNames).renameChat
      (namesCrypto checksum) "channel:general" "Accepted" sampleRound none).1.isOk = true := by
    decide +kernel
  rcases hrename : (pullsNames.foldl (step (namesCrypto checksum)) joinedNames).renameChat
    (namesCrypto checksum) "channel:general" "Accepted" sampleRound none with ⟨e | snapshot, s'⟩
  · rw [hrename] at hok
    cases hok
  · exact names_written_after_sync (namesCrypto_codec checksum)
      (show start (namesCrypto checksum) joinedNames.identity ∅ none = .ok joinedNames from rfl)
      ⟨_, Runs.foldl _ _⟩ rfl (.inl ⟨_, _, _, hrename⟩)

set_option maxRecDepth 100000 in
/-- The second installation renames a channel when a third one has joined, whose names it has never
    pulled. -/
theorem names_written_unpulled :
    ¬ ∀ (s₀ s s' : NamesRuntime UInt8) (round : Round) (snapshot : ChatNameSnapshot),
      start (namesCrypto checksum) s₀.identity ∅ none = .ok s₀ →
      Reaches (namesCrypto checksum) s₀ s →
      (∃ key name write, s.renameChat (namesCrypto checksum) key name round write =
        (.ok snapshot, s')) →
      ∀ devices, s.identity.roster.devices (namesCrypto checksum).toRosterCrypto = .ok devices →
        ∀ d ∈ devices, d.deviceId ≠ s.own →
          ∃ rosterHash, Pulled s.merged s.user rosterHash d.deviceId := by
  intro hclaim
  set s := thirdJoins.foldl (step (namesCrypto checksum)) joinedNames with hs
  have hok : (s.renameChat (namesCrypto checksum) "channel:general" "Accepted" sampleRound
      none).1.isOk = true := by decide +kernel
  have hthird : ((s.identity.roster.devices (namesCrypto checksum).toRosterCrypto).toOption.any
      (sampleDevice checksum 3 ∈ ·) && (sampleDevice checksum 3).deviceId ≠ s.own &&
      s.merged.all (·.sender ≠ (sampleDevice checksum 3).deviceId)) = true := by decide +kernel
  simp only [Bool.and_eq_true, decide_eq_true_eq, Option.any_eq_true] at hthird
  obtain ⟨⟨⟨devices, hdevices, hmem⟩, hother⟩, hnever⟩ := hthird
  rcases hrename : s.renameChat (namesCrypto checksum) "channel:general" "Accepted" sampleRound
    none with ⟨e | snapshot, s'⟩
  · rw [hrename] at hok
    cases hok
  · obtain ⟨rosterHash, pages, hpages, before, page, rfl, -⟩ := hclaim joinedNames s s' sampleRound
      snapshot rfl ⟨_, Runs.foldl _ _⟩ ⟨_, _, _, hrename⟩ devices (by
        cases h : s.identity.roster.devices (namesCrypto checksum).toRosterCrypto with
        | error e =>
          rw [h] at hdevices
          cases hdevices
        | ok devices' =>
          rw [h] at hdevices
          exact congrArg Except.ok (Option.some.inj hdevices)) _ hmem hother
    have hpage : page ∈ before ++ [page] := by simp
    have hsender := List.all_eq_true.1 hnever page (hpages.sublist.subset hpage)
    exact of_decide_eq_true hsender (hpages.all page hpage).2.1

end NamesRuntime

end Mosh.DeviceLink
