import Mosh.DmDevices.Effects

/-!
# Who carries out a removal

A removal in the roster of an account becomes a commit of the group when the device that signed it
carries it out (`devices/revocation/transition.rs`): of the outstanding removals, only the first
one in the order of the roster is due, and only its signer makes the commit.

* `removal_due`: there is one due removal, whatever the order of the clients. Every installation
  with the roster finds it, and exactly its signer is to carry it out; the evidence that it makes
  is verified by every session with the same topology.
* `removal_stuck`: if the signer is itself removed later on, nobody carries out the removal.
-/

namespace Mosh.DmDevices

open DeviceLink Checked

variable {Key Signature σ : Type}

/-! ## The due removal -/

/-- The removal of a client that is outstanding in a roster: the roster up to the first removal
    since its admission. -/
def Outstanding (c : RosterCrypto Key Signature) (roster : DeviceRoster) (client : IdentityClaim)
    (removal : DeviceRoster) : Prop :=
  client.roster.userId = roster.userId ∧
    roster.firstRemovalSince c client.roster client.deviceId = .ok (some removal)

/-- The removal comes first among those of the clients. -/
structure Due (c : RosterCrypto Key Signature) (roster : DeviceRoster)
    (clients : List IdentityClaim) (target : IdentityClaim) (removal : DeviceRoster) : Prop where
  mem : target ∈ clients
  outstanding : Outstanding c roster target removal
  first : ∀ client ∈ clients, ∀ other, Outstanding c roster client other → removal <+: other

variable {c : RosterCrypto Key Signature} {roster removal : DeviceRoster}
  {clients : List IdentityClaim} {target : IdentityClaim} {devices : List DeviceDescriptor}

/-- Where an outstanding removal stands in the roster. -/
theorem Outstanding.split (h : Outstanding c roster target removal) :
    ∃ since i devices, roster = target.roster ++ since ∧ roster.devices c = .ok devices ∧
      since.findIdx? (DeviceRoster.removes target.deviceId) = some i ∧
      removal = target.roster ++ since.take (i + 1) := by
  obtain ⟨-, h⟩ := h
  obtain ⟨newer, hnewer, h'⟩ := bind_eq_ok.1 h
  cases newer with
  | false => cases h'
  | true =>
    obtain ⟨⟨devices, hdevices⟩, since, rfl⟩ := DeviceRoster.extends_eq_true.1 hnewer
    rw [DeviceRoster.firstRemovalSince_append hdevices, Except.ok.injEq] at h
    obtain ⟨i, hi, rfl⟩ := Option.map_eq_some_iff.1 h
    exact ⟨since, i, devices, rfl, hdevices, hi, rfl⟩

/-- An outstanding removal is a part of the roster, and ends with the removal of the client. -/
theorem Outstanding.firstRemoval (h : Outstanding c roster target removal) :
    DeviceRoster.FirstRemoval c target.roster roster target.deviceId removal := by
  obtain ⟨since, i, devices, rfl, hdevices, hi, rfl⟩ := h.split
  exact DeviceRoster.firstRemoval_of_findIdx? hdevices hi

/-- The due removal is the same for every order of the clients, if their devices differ. -/
theorem Due.unique {clients' : List IdentityClaim} (hperm : clients'.Perm clients)
    (hdistinct : (clients.map (·.deviceId)).Nodup) {target' : IdentityClaim}
    {removal' : DeviceRoster} (h : Due c roster clients target removal)
    (h' : Due c roster clients' target' removal') : target' = target ∧ removal' = removal := by
  have hle := h.first target' (hperm.mem_iff.1 h'.mem) removal' h'.outstanding
  have hge := h'.first target (hperm.mem_iff.2 h.mem) removal h.outstanding
  obtain rfl : removal' = removal :=
    hge.eq_of_length (le_antisymm hge.length_le hle.length_le)
  obtain ⟨entry, hlast, hremoves⟩ := h.outstanding.firstRemoval.last
  obtain ⟨entry', hlast', hremoves'⟩ := h'.outstanding.firstRemoval.last
  obtain rfl := Option.some.inj (hlast.symm.trans hlast')
  -- both are the client with the device that the last entry removes
  have hid : target'.deviceId = target.deviceId := by
    have h₁ := (Bool.and_eq_true _ _ ▸ hremoves).1
    have h₂ := (Bool.and_eq_true _ _ ▸ hremoves').1
    rw [← of_decide_eq_true h₁, ← of_decide_eq_true h₂]
  exact ⟨List.inj_on_of_nodup_map hdistinct (hperm.mem_iff.1 h'.mem) h.mem hid, rfl⟩

section Loop

variable {e : EvidenceCrypto Key Signature} {identity : DeviceIdentity}

/-- What the loop has found among the clients so far. -/
def Found (c : RosterCrypto Key Signature) (roster : DeviceRoster) (clients : List IdentityClaim) :
    Option (IdentityClaim × DeviceRoster) → Prop
  | none => ∀ client ∈ clients, ∀ removal, ¬ Outstanding c roster client removal
  | some (target, removal) => Due c roster clients target removal

/-- One turn of the loop. -/
theorem earlierRemoval_found {next : Option (IdentityClaim × DeviceRoster)} {client : IdentityClaim}
    (haccepted : ∃ devices, identity.roster.devices e.toRosterCrypto = .ok devices)
    (hclient : client.roster.userId = identity.roster.userId → client.roster <+: identity.roster)
    (h : Found e.toRosterCrypto identity.roster clients next) :
    ∃ next', DeviceMembership.earlierRemoval e identity next client = .ok next' ∧
      Found e.toRosterCrypto identity.roster (clients ++ [client]) next' := by
  -- a client without an outstanding removal changes nothing
  have hskip : (∀ removal, ¬ Outstanding e.toRosterCrypto identity.roster client removal) →
      Found e.toRosterCrypto identity.roster (clients ++ [client]) next := by
    intro hnone
    rcases next with _ | ⟨target, removal⟩
    · intro other hother removal
      rcases List.mem_append.1 hother with ho | ho
      · exact h other ho removal
      · rw [List.mem_singleton.1 ho]
        exact hnone removal
    · refine ⟨List.mem_append_left _ h.mem, h.outstanding, fun other hother removal' ho' => ?_⟩
      rcases List.mem_append.1 hother with ho | ho
      · exact h.first other ho removal' ho'
      · rw [List.mem_singleton.1 ho] at ho'
        exact absurd ho' (hnone removal')
  rw [DeviceMembership.earlierRemoval]
  by_cases huser : client.roster.userId = identity.roster.userId
  · obtain ⟨devices, hdevices⟩ := haccepted
    obtain ⟨rest, hrest⟩ := hclient huser
    rw [← hrest] at hdevices
    have hquery : DeviceRoster.firstRemovalSince _ _ client.roster client.deviceId = _ :=
      DeviceRoster.firstRemovalSince_append (c := e.toRosterCrypto) hdevices
    rw [hrest] at hquery
    rw [if_neg (not_not.2 huser), hquery]
    cases hfirst : (rest.findIdx? (DeviceRoster.removes client.deviceId)).map fun i =>
        client.roster ++ rest.take (i + 1) with
    | none =>
      refine ⟨next, rfl, hskip fun removal ho => ?_⟩
      rw [hfirst] at hquery
      cases hquery.symm.trans ho.2
    | some removal =>
      rw [hfirst] at hquery
      have hout : Outstanding e.toRosterCrypto identity.roster client removal := ⟨huser, hquery⟩
      have honly : ∀ {other}, Outstanding e.toRosterCrypto identity.roster client other →
          other = removal := fun ho => (Option.some.inj (Except.ok.inj (ho.2.symm.trans hquery)))
      rcases next with _ | ⟨target, previous⟩
      · refine ⟨some (client, removal), rfl, List.mem_append_right _ (List.mem_singleton_self _),
          hout, fun other hother removal' ho' => ?_⟩
        rcases List.mem_append.1 hother with ho | ho
        · exact absurd ho' (h other ho removal')
        · rw [List.mem_singleton.1 ho] at ho'
          rw [honly ho']
      · have hprevious := h.outstanding.firstRemoval
        have hwithin := (DeviceRoster.extends_eq_true.1 hprevious.within).2
        have hwithin' := (DeviceRoster.extends_eq_true.1 hout.firstRemoval.within).2
        by_cases hearlier : holds (previous.extends e.toRosterCrypto removal) = true
        · refine ⟨some (client, removal), ?_, List.mem_append_right _ (List.mem_singleton_self _),
            hout, fun other hother removal' ho' => ?_⟩
          · exact bind_eq_ok.2 ⟨some removal, rfl, if_pos hearlier⟩
          · have hle := (DeviceRoster.extends_eq_true.1 (holds_eq_true.1 hearlier)).2
            rcases List.mem_append.1 hother with ho | ho
            · exact hle.trans (h.first other ho removal' ho')
            · rw [List.mem_singleton.1 ho] at ho'
              rw [honly ho']
        · refine ⟨some (target, previous), ?_, List.mem_append_left _ h.mem, h.outstanding,
            fun other hother removal' ho' => ?_⟩
          · exact bind_eq_ok.2 ⟨some removal, rfl, if_neg hearlier⟩
          · rcases List.mem_append.1 hother with ho | ho
            · exact h.first other ho removal' ho'
            · rw [List.mem_singleton.1 ho] at ho'
              rw [honly ho']
              -- both are parts of the roster, and the new one is not the earlier one
              refine (List.prefix_or_prefix_of_prefix hwithin hwithin').resolve_right fun hpre => ?_
              exact hearlier (holds_eq_true.2
                (DeviceRoster.extends_eq_true.2 ⟨hprevious.accepted, hpre⟩))
  · rw [if_pos huser]
    exact ⟨next, rfl, hskip fun removal ho => huser ho.1⟩

/-- The loop over the clients. -/
theorem foldlM_earlierRemoval (haccepted : ∃ devices,
      identity.roster.devices e.toRosterCrypto = .ok devices)
    {next : Option (IdentityClaim × DeviceRoster)} {rest : List IdentityClaim}
    (hclients : ∀ client ∈ rest, client.roster.userId = identity.roster.userId →
      client.roster <+: identity.roster)
    (h : Found e.toRosterCrypto identity.roster clients next) :
    ∃ next', rest.foldlM (DeviceMembership.earlierRemoval e identity) next = .ok next' ∧
      Found e.toRosterCrypto identity.roster (clients ++ rest) next' := by
  induction rest generalizing clients next with
  | nil => exact ⟨next, rfl, by rwa [List.append_nil]⟩
  | cons client rest ih =>
    obtain ⟨hclient, hrest⟩ := List.forall_mem_cons.1 hclients
    obtain ⟨next₁, hnext₁, hfound₁⟩ := earlierRemoval_found haccepted hclient h
    obtain ⟨next₂, hnext₂, hfound₂⟩ := ih hrest hfound₁
    refine ⟨next₂, ?_, by rwa [List.append_assoc] at hfound₂⟩
    rw [List.foldlM_cons]
    exact bind_eq_ok.2 ⟨next₁, hnext₁, hnext₂⟩

/-- What an installation with the roster has to carry out: the due removal, if it signed it. -/
theorem nextLocalRemoval_of_due {m : DeviceMembership}
    (haccepted : ∃ devices, identity.roster.devices e.toRosterCrypto = .ok devices)
    (hclients : ∀ client ∈ m.topology.clients, client.roster.userId = identity.roster.userId →
      client.roster <+: identity.roster)
    (hdistinct : (m.topology.clients.map (·.deviceId)).Nodup)
    (hdue : Due e.toRosterCrypto identity.roster m.topology.clients target removal)
    {signer : String} (hsigner : removal.removalAuthor e.toRosterCrypto target.deviceId =
      .ok (some signer)) :
    m.nextLocalRemoval e identity =
      .ok (if identity.device.deviceId = signer then some (target, removal) else none) := by
  have hstart : Found e.toRosterCrypto identity.roster [] none :=
    fun client hclient => absurd hclient List.not_mem_nil
  obtain ⟨next, hnext, hfound⟩ := foldlM_earlierRemoval haccepted hclients hstart
  rw [List.nil_append] at hfound
  rcases next with _ | ⟨target', removal'⟩
  · exact absurd hdue.outstanding (hfound target hdue.mem removal)
  · obtain ⟨rfl, rfl⟩ := Due.unique (List.Perm.refl _) hdistinct hdue hfound
    refine bind_eq_ok.2 ⟨_, hnext, bind_eq_ok.2 ⟨some signer, orError_eq_ok.2 hsigner, ?_⟩⟩
    refine congrArg Except.ok ?_
    by_cases hown : identity.device.deviceId = signer
    · rw [if_pos hown, if_pos (congrArg some hown.symm)]
    · rw [if_neg hown, if_neg fun h => hown (Option.some.inj h).symm]

/-- Where a client is revoked, there is a due removal. -/
theorem exists_due (haccepted : ∃ devices, roster.devices e.toRosterCrypto = .ok devices)
    (hclients : ∀ client ∈ clients, client.roster.userId = roster.userId →
      client.roster <+: roster)
    (hrevoked : ∃ client ∈ clients, client.roster.userId = roster.userId ∧
      roster.revokedSince e.toRosterCrypto client.roster client.deviceId = .ok true) :
    ∃ target removal, Due e.toRosterCrypto roster clients target removal := by
  have hstart : Found e.toRosterCrypto roster [] none :=
    fun client hclient => absurd hclient List.not_mem_nil
  -- the loop of any installation with the roster finds it
  obtain ⟨next, -, hfound⟩ : ∃ next, clients.foldlM
      (DeviceMembership.earlierRemoval e ⟨⟨"", "", "", ""⟩, roster, fun _ => ""⟩) none = .ok next ∧
        Found e.toRosterCrypto roster ([] ++ clients) next :=
    foldlM_earlierRemoval haccepted hclients hstart
  rw [List.nil_append] at hfound
  rcases next with _ | ⟨target, removal⟩
  · obtain ⟨client, hclient, huser, hrevoked⟩ := hrevoked
    obtain ⟨devices, hdevices⟩ := haccepted
    obtain ⟨rest, hrest⟩ := hclients client hclient huser
    subst hrest
    rw [DeviceRoster.revokedSince_append hdevices, Except.ok.injEq, ← List.findIdx?_isSome,
      Option.isSome_iff_exists] at hrevoked
    obtain ⟨i, hi⟩ := hrevoked
    refine absurd ⟨huser, ?_⟩ (hfound client hclient (client.roster ++ rest.take (i + 1)))
    rw [DeviceRoster.firstRemovalSince_append hdevices, hi]
    rfl
  · exact ⟨target, removal, hfound⟩

end Loop

/-! ## The evidence of the due removal -/

/-- A removal is one of an active device. -/
theorem changeDevices_removal {entry : Authorization} {devices' : List DeviceDescriptor}
    (hversion : entry.version = removalVersion)
    (h : changeDevices entry devices = .ok devices') : entry.device ∈ devices := by
  rw [changeDevices, if_pos hversion] at h
  split at h
  · cases h
  · next hn =>
    rw [not_or, not_not] at hn
    exact hn.2

section Verify

variable {c : DmCrypto Key Signature σ} {m : DeviceMembership} {base : DeviceRoster}
  {session : String} {signers : List String}

/-- The client with a device, where the devices differ. -/
theorem deviceClient_eq_some (hdistinct : (m.topology.clients.map (·.deviceId)).Nodup)
    (hmem : target ∈ m.topology.clients) : m.deviceClient target.deviceId = some target := by
  cases hfind : m.deviceClient target.deviceId with
  | none => exact absurd (decide_eq_true rfl) (List.find?_eq_none.1 hfind target hmem)
  | some other =>
    have hid : other.deviceId = target.deviceId := by simpa using List.find?_some hfind
    exact congrArg some
      (List.inj_on_of_nodup_map hdistinct (List.mem_of_find?_eq_some hfind) hmem hid)

/-- The installed roster has not removed the client: the removal stands after it, and is the first
    one there. -/
theorem Outstanding.after_base (h : Outstanding c.toRosterCrypto roster target removal)
    (hauth : Authorizes c.toClaimCrypto base target) (hextends : base <+: roster) :
    ∃ since entry, removal = base ++ since ++ [entry] ∧
      DeviceRoster.removes target.deviceId entry = true ∧
      since.any (DeviceRoster.removes target.deviceId) = false := by
  obtain ⟨since, i, devices, rfl, -, hi, rfl⟩ := h.split
  obtain ⟨rest, rfl, hkeep⟩ := hauth.since
  obtain ⟨more, rfl⟩ := (List.prefix_append_right_inj _).1 hextends
  obtain ⟨hlt, hremoves, hfirst⟩ := List.findIdx?_eq_some_iff_getElem.1 hi
  have hle : rest.length ≤ i := by
    by_contra hnot
    rw [List.getElem_append_left (by omega)] at hremoves
    exact List.any_eq_false.1 hkeep _ (List.getElem_mem _) hremoves
  refine ⟨more.take (i - rest.length), (rest ++ more)[i], ?_, hremoves, ?_⟩
  · rw [List.take_add_one, List.getElem?_eq_getElem hlt, Option.toList_some, List.take_append,
      List.take_of_length_le hle]
    simp only [List.append_assoc]
  · refine List.any_eq_false.2 fun entry hentry => ?_
    obtain ⟨j, hj, rfl⟩ := List.mem_iff_getElem.1 hentry
    rw [List.length_take] at hj
    have hearlier := hfirst (rest.length + j) (by omega)
    rw [List.getElem_append_right (by omega)] at hearlier
    rw [List.getElem_take]
    simpa using hearlier

/-- What the signer of the due removal makes is verified by every session with the topology. -/
theorem verify_of_due {s : PrivateDmSession σ} {identity : DeviceIdentity} {author : IdentityClaim}
    {record : RemovalRecord} {crypto : σ} {commit : List UInt8} (hm : s.membership = some m)
    (hbound : Bound c.toClaimCrypto m.topology s.sessionId signers)
    (hbase : m.topology.roster identity.roster.userId = some base)
    (hextends : base <+: identity.roster)
    (hdue : Due c.toRosterCrypto identity.roster m.topology.clients target removal)
    (hsigner : removal.removalAuthor c.toRosterCrypto target.deviceId =
      .ok (some identity.device.deviceId))
    (hauthor : author ∈ m.topology.clients)
    (huser : author.roster.userId = identity.roster.userId)
    (hdevice : author.device c.toClaimCrypto = .ok identity.device)
    (hsign : ∀ bytes, verify c.toClaimCrypto identity.device.signingPublicKey
      (identity.sign bytes) bytes = .ok ())
    (hgroup : c.mls.groupId s.crypto = c.mls.groupId crypto)
    (hcreate : RemovalRecord.create c identity s.sessionId target.deviceId removal crypto commit =
      .ok record) : record.verify c s = .ok author.mlsSigner := by
  obtain ⟨groupId, hgroupId, hcreate⟩ := bind_eq_ok.1 hcreate
  obtain ⟨epoch, -, hcreate⟩ := bind_eq_ok.1 hcreate
  obtain ⟨bytes, hbytes, hcreate⟩ := bind_eq_ok.1 hcreate
  obtain rfl := Except.ok.inj hcreate
  -- the clients of the account are authorized by the installed roster
  have hinstalled : ∀ client ∈ m.topology.clients,
      client.roster.userId = identity.roster.userId → Authorizes c.toClaimCrypto base client := by
    intro client hclient hsame
    obtain ⟨current, hcurrent, hauth⟩ := hbound.authorized client hclient
    rw [hsame, hbase] at hcurrent
    rwa [Option.some.inj hcurrent]
  have hmember : ∀ {client device}, client ∈ m.topology.clients →
      client.roster.userId = identity.roster.userId → client.device c.toClaimCrypto = .ok device →
      ∃ devices, base.devices c.toRosterCrypto = .ok devices ∧ device ∈ devices := by
    intro client device hclient hsame hdevice
    obtain ⟨revoked, -, hadmits⟩ :=
      bind_eq_ok.1 ((authorizesAdmitted_iff hdevice).2 (hinstalled client hclient hsame))
    cases revoked with
    | true => cases hadmits
    | false =>
      obtain ⟨devices, hdevices, hmem⟩ := bind_eq_ok.1 hadmits
      exact ⟨devices, hdevices, of_decide_eq_true (Except.ok.inj hmem)⟩
  have htargetUser : target.roster.userId = identity.roster.userId := hdue.outstanding.1
  have hfirst := hdue.outstanding.firstRemoval
  obtain ⟨since, entry, hsplit, hremoves, hkeep⟩ :=
    hdue.outstanding.after_base (hinstalled target hdue.mem htargetUser) hextends
  obtain ⟨hid, hversion⟩ : entry.device.deviceId = target.deviceId ∧
      entry.version = removalVersion := by simpa [DeviceRoster.removes] using hremoves
  have hlast : removal.getLast? = some entry := by rw [hsplit, List.getLast?_concat]
  obtain ⟨final, hfinal⟩ := hfirst.accepted
  have hentrySigner : entry.signer = identity.device.deviceId := by
    rw [DeviceRoster.removalAuthor, hfinal, hsplit, List.reverse_append, List.reverse_singleton,
      List.singleton_append, List.find?_cons_of_pos hremoves] at hsigner
    exact Option.some.inj (Except.ok.inj hsigner)
  have hext : removal.extends c.toRosterCrypto base = .ok true :=
    DeviceRoster.extends_eq_true.2 ⟨⟨final, hfinal⟩, by
      rw [hsplit, List.append_assoc]
      exact List.prefix_append _ _⟩
  have hextension : removal.verifiesRemovalExtension c.toRosterCrypto base target.deviceId
      identity.device.deviceId = .ok () := by
    rw [DeviceRoster.verifiesRemovalExtension, hlast]
    simp [hext, bind, Except.bind, hid, hversion, hentrySigner, pure, Except.pure]
  -- the last entry removes the device that the installed roster knows
  obtain ⟨targetDevice, htargetDevice⟩ := (hinstalled target hdue.mem htargetUser).device
  obtain ⟨devices, hdevices, hactive⟩ := hmember hdue.mem htargetUser htargetDevice
  have hknown : entry.device ∈ devices := by
    have hbaseNil : base ≠ [] := by
      rintro rfl
      cases hdevices
    have hne : base ++ since ≠ [] := by simp [hbaseNil]
    rw [DeviceRoster.devices, hsplit] at hfinal
    obtain ⟨before, hbefore, hentry⟩ := verifyDevices_concat hne hfinal
    obtain ⟨devices', hdevices', hloop⟩ := verifyDevices_append hbaseNil hbefore
    obtain rfl := Except.ok.inj (hdevices.symm.trans hdevices')
    obtain ⟨_, -, -, hdeviceId⟩ := IdentityClaim.device_eq_ok htargetDevice
    have hstays := DeviceRoster.mem_of_verifyLoop hloop (hdeviceId ▸ hkeep) hactive
    have hremoved := changeDevices_removal hversion (verifyEntry_eq_ok hentry).1
    have hsame : entry.device = targetDevice :=
      List.inj_on_of_nodup_map (sound_of_accepted _ _ hbefore).ids hremoved hstays
        (hid.trans hdeviceId.symm)
    rwa [hsame]
  obtain ⟨-, -, -, hauthorId⟩ := IdentityClaim.device_eq_ok hdevice
  obtain ⟨devices', hdevices', hauthorActive⟩ := hmember hauthor huser hdevice
  have hclient : m.deviceClient identity.device.deviceId = some author := by
    rw [hauthorId]
    exact deviceClient_eq_some hbound.devices hauthor
  have hroster : m.topology.roster author.roster.userId = some base := by rwa [huser]
  refine bind_eq_ok.2 ⟨author, ?_, ?_⟩
  · refine bind_eq_ok.2 ⟨m, getOr_eq_ok.2 hm, bind_eq_ok.2 ⟨author, getOr_eq_ok.2 hclient, ?_⟩⟩
    refine bind_eq_ok.2 ⟨base, getOr_eq_ok.2 hroster, bind_eq_ok.2 ⟨_, hdevice, ?_⟩⟩
    refine bind_eq_ok.2 ⟨devices', orError_eq_ok.2 hdevices', bind_eq_ok.2 ⟨(),
      check_eq_ok.2 (decide_eq_true hauthorActive), bind_eq_ok.2 ⟨(), ?_, rfl⟩⟩⟩
    refine bind_eq_ok.2 ⟨groupId, ?_, bind_eq_ok.2 ⟨(), check_eq_ok.2 (by simp), ?_⟩⟩
    · rw [hgroup]
      exact hgroupId
    · exact bind_eq_ok.2 ⟨(), orError_eq_ok.2 hextension, bind_eq_ok.2 ⟨bytes, hbytes, hsign bytes⟩⟩
  · refine bind_eq_ok.2 ⟨m, getOr_eq_ok.2 hm, bind_eq_ok.2 ⟨target, getOr_eq_ok.2
      (deviceClient_eq_some hbound.devices hdue.mem), bind_eq_ok.2 ⟨base, getOr_eq_ok.2 hroster,
        bind_eq_ok.2 ⟨(), check_eq_ok.2 (decide_eq_true (htargetUser.trans huser.symm)),
          bind_eq_ok.2 ⟨(), orError_eq_ok.2 ?_, rfl⟩⟩⟩⟩⟩
    refine bind_eq_ok.2 ⟨(), hextension, ?_⟩
    rw [hlast]
    simp [hdevices, hknown, bind, Except.bind, pure, Except.pure]

/-- There is one due removal. For every accepted roster, if the clients of the account were
    admitted at parts of it and one of them is revoked since, the removal that comes first is due:
    every installation with the roster finds it, for every order of the clients, and it is to
    carry it out exactly if it signed it. So an active client carries it out if and only if the
    signer is one. Its evidence is verified by every session with this topology, if the installed
    roster is a part of the roster and the signature of the installation is correct. -/
theorem removal_due {m : DeviceMembership} {roster : DeviceRoster}
    (haccepted : ∃ devices, roster.devices c.toRosterCrypto = .ok devices)
    (hclients : ∀ client ∈ m.topology.clients, client.roster.userId = roster.userId →
      client.roster <+: roster)
    (hdistinct : (m.topology.clients.map (·.deviceId)).Nodup)
    (hrevoked : ∃ client ∈ m.topology.clients, client.roster.userId = roster.userId ∧
      roster.revokedSince c.toRosterCrypto client.roster client.deviceId = .ok true) :
    ∃ target removal signer, Due c.toRosterCrypto roster m.topology.clients target removal ∧
      (∃ before entry, removal = before ++ [entry] ∧ entry.signer = signer ∧
        DeviceRoster.removes target.deviceId entry = true) ∧
      (∀ (identity : DeviceIdentity) (m' : DeviceMembership), identity.roster = roster →
        m'.topology.clients.Perm m.topology.clients →
        m'.nextLocalRemoval c.toEvidenceCrypto identity =
          .ok (if identity.device.deviceId = signer then some (target, removal) else none)) ∧
      ((∃ client ∈ m.topology.clients, Authorizes c.toClaimCrypto roster client ∧
        ∃ identity : DeviceIdentity, identity.roster = roster ∧ client.device c.toClaimCrypto = .ok identity.device ∧
        m.nextLocalRemoval c.toEvidenceCrypto identity = .ok (some (target, removal))) ↔
        ∃ client ∈ m.topology.clients, Authorizes c.toClaimCrypto roster client ∧
          client.deviceId = signer) ∧
      ∀ (identity : DeviceIdentity) (base : DeviceRoster) (author : IdentityClaim)
        (s : PrivateDmSession σ) (m' : DeviceMembership) (crypto : σ) (commit : List UInt8)
        (record : RemovalRecord),
        identity.roster = roster → identity.device.deviceId = signer →
        (∀ bytes, verify c.toClaimCrypto identity.device.signingPublicKey (identity.sign bytes)
          bytes = .ok ()) →
        author ∈ m.topology.clients → author.roster.userId = roster.userId →
        author.device c.toClaimCrypto = .ok identity.device →
        m.topology.roster roster.userId = some base → base <+: roster →
        s.membership = some m' → m'.topology = m.topology →
        m'.topology.validate c.toClaimCrypto s.sessionId (c.memberSigners s.crypto) = .ok () →
        c.mls.groupId s.crypto = c.mls.groupId crypto →
        RemovalRecord.create c identity s.sessionId target.deviceId removal crypto commit =
          .ok record → record.verify c s = .ok author.mlsSigner := by
  obtain ⟨target, removal, hdue⟩ := exists_due haccepted hclients hrevoked
  obtain ⟨entry, hlast, hremoves⟩ := hdue.outstanding.firstRemoval.last
  obtain ⟨before, rfl⟩ := List.getLast?_eq_some_iff.1 hlast
  obtain ⟨final, hfinal⟩ := hdue.outstanding.firstRemoval.accepted
  have hsigner : DeviceRoster.removalAuthor c.toRosterCrypto (before ++ [entry]) target.deviceId =
      .ok (some entry.signer) := by
    rw [DeviceRoster.removalAuthor, hfinal, List.reverse_append, List.reverse_singleton,
      List.singleton_append, List.find?_cons_of_pos hremoves]
    rfl
  have hnext : ∀ (identity : DeviceIdentity) (m' : DeviceMembership), identity.roster = roster →
      m'.topology.clients.Perm m.topology.clients →
      m'.nextLocalRemoval c.toEvidenceCrypto identity = .ok
        (if identity.device.deviceId = entry.signer then some (target, before ++ [entry])
          else none) := by
    rintro identity m' rfl hperm
    refine nextLocalRemoval_of_due haccepted (fun client hclient => ?_) ?_ ?_ hsigner
    · exact hclients client (hperm.mem_iff.1 hclient)
    · exact (hperm.map _).nodup_iff.2 hdistinct
    · exact ⟨hperm.mem_iff.2 hdue.mem, hdue.outstanding, fun client hclient =>
        hdue.first client (hperm.mem_iff.1 hclient)⟩
  refine ⟨target, before ++ [entry], entry.signer, hdue, ⟨before, entry, rfl, rfl, hremoves⟩,
    hnext, ⟨?_, ?_⟩, ?_⟩
  · rintro ⟨client, hclient, hactive, identity, hroster, hdevice, hsome⟩
    refine ⟨client, hclient, hactive, ?_⟩
    obtain ⟨_, -, -, hid⟩ := IdentityClaim.device_eq_ok hdevice
    rw [hnext identity m hroster (List.Perm.refl _), Except.ok.injEq] at hsome
    split at hsome
    · next hown => exact hid.symm.trans hown
    · cases hsome
  · rintro ⟨client, hclient, hactive, hid⟩
    obtain ⟨device, hdevice⟩ := hactive.device
    obtain ⟨_, -, -, hdeviceId⟩ := IdentityClaim.device_eq_ok hdevice
    refine ⟨client, hclient, hactive, ⟨device, roster, fun _ => ""⟩, rfl, hdevice, ?_⟩
    rw [hnext _ m rfl (List.Perm.refl _), if_pos (hdeviceId.trans hid)]
  · rintro identity base author s m' crypto commit record rfl hown hsign hauthor huser hdevice
      hbase hextends hm htopology hvalid hgroup hcreate
    rw [← htopology] at hdue hauthor hbase
    exact verify_of_due hm (DmTopology.validate_eq_ok.1 hvalid) hbase hextends hdue
      (hown ▸ hsigner) hauthor huser hdevice hsign hgroup hcreate

end Verify

/-! ### Three devices -/

/-- The account of three devices, with later entries. -/
def threeAccount (entries : List (Nat × UInt8 × UInt8)) : DeviceRoster :=
  plainAccount 1 ([(1, 1, 2), (1, 1, 3)] ++ entries)

/-- All of them are clients, with another user. -/
def threeMembership : DeviceMembership where
  topology := ⟨(threeAccount []).userId,
    [plainClaim 1 11 (threeAccount []), plainClaim 2 12 (threeAccount []),
      plainClaim 3 13 (threeAccount []), plainClaim 5 15 (plainAccount 5 [])],
    [threeAccount [], plainAccount 5 []]⟩

/-- Cryptography for these devices. -/
abbrev threeDm : DmCrypto (List UInt8) (List UInt8) PlainGroup := plainDm fun _ => .error .notReady

/-- The first device removes the second one, and carries it out. -/
theorem removal_due_three : ∃ target removal,
    threeMembership.nextLocalRemoval threeDm.toEvidenceCrypto
      (plainIdentity 1 (threeAccount [(2, 1, 2)])) = .ok (some (target, removal)) := by
  have hclients : ∀ client ∈ threeMembership.topology.clients,
      client.roster.userId = (threeAccount [(2, 1, 2)]).userId →
      client.roster <+: threeAccount [(2, 1, 2)] := by decide +kernel
  obtain ⟨target, removal, signer, -, ⟨before, entry, hremoval, hsigner, hremoves⟩, hnext, -⟩ :=
    removal_due (c := threeDm) ⟨[plainDevice 1, plainDevice 3], by decide +kernel⟩ hclients
      (by decide +kernel) ⟨plainClaim 2 12 (threeAccount []), by decide +kernel, by decide +kernel,
        by decide +kernel⟩
  refine ⟨target, removal, ?_⟩
  have h := hnext (plainIdentity 1 (threeAccount [(2, 1, 2)])) threeMembership rfl
    (List.Perm.refl _)
  have hsome : (threeMembership.nextLocalRemoval threeDm.toEvidenceCrypto
      (plainIdentity 1 (threeAccount [(2, 1, 2)]))).toOption.any (·.isSome) = true := by
    decide +kernel
  rw [h] at hsome ⊢
  split
  · rfl
  · next hne =>
    rw [if_neg hne] at hsome
    cases hsome

/-- The first device removes the second one, and is removed by the third one, the only one that is
    left: it is not to carry out the first removal. -/
theorem removal_stuck :
    (threeAccount [(2, 1, 2), (2, 3, 1)]).devices threeDm.toRosterCrypto = .ok [plainDevice 3] ∧
    (∀ client ∈ threeMembership.topology.clients,
      client.roster.userId = (threeAccount [(2, 1, 2), (2, 3, 1)]).userId →
      client.roster <+: threeAccount [(2, 1, 2), (2, 3, 1)]) ∧
    (threeAccount [(2, 1, 2), (2, 3, 1)]).revokedSince threeDm.toRosterCrypto (threeAccount [])
      (plainDevice 2).deviceId = .ok true ∧
    (∀ device ∈ [1, 2, 3], (threeAccount [(2, 1, 2), (2, 3, 1)]).authorizesAdmitted
      threeDm.toRosterCrypto (threeAccount []) (plainDevice device) = .ok (device == 3)) ∧
    threeMembership.nextLocalRemoval threeDm.toEvidenceCrypto
      (plainIdentity 3 (threeAccount [(2, 1, 2), (2, 3, 1)])) = .ok none := by
  decide +kernel

end Mosh.DmDevices
