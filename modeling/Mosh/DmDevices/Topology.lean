import Mosh.DeviceLink.Revocation
import Mosh.Library.Checked
import Mathlib.Data.List.Sort

/-!
# The clients of a direct message

Each installation of the two users of a direct message is a client of its own: a leaf of
the MLS group (`private_dm_runtime/devices/types.rs`). A client is bound to a device of an
account by a signed claim (`devices/proof.rs`), which carries the roster of the account at
the time. The topology of a session is its clients and the latest roster of each user;
`validate` checks it against the leaves of the group.

* `validate_eq_ok`: what a valid topology is (`Bound`): the clients are the leaves, one for
  each device, and the roster of its user authorizes every one of them. The order in which
  `validate` goes through the clients is of no consequence.
* `Bound.setRoster`, `Bound.addClient`: a newer roster that removes no client, and a claim that
  is made again, keep a topology valid, whether or not the claim is accepted.
-/

namespace Mosh.DmDevices

open DeviceLink Checked

/-- The errors of direct messages which the modelled operations return. -/
inductive PrivateDmRuntimeError
  | revoked
  | moss (message : String)
  | openMls (message : String)
  | codec (message : String)
  | notReady
  | missingSession
  | persistence (message : String)
  | attachment (message : String)
  deriving DecidableEq, Repr

/-- What a failed check of a device returns. -/
def invalid : PrivateDmRuntimeError := .codec "invalid DM device authorization"

/-- The users of a direct message. -/
def dmUsers : Nat := 2

/-- The clients of a direct message before another device joins. -/
def initialClients : Nat := dmUsers

def maxDisplayNameBytes : Nat := 256

def claimContext : List UInt8 := textBytes "mosh-dm-client-v1\x00"

/-- A leaf of the group belongs to a device of an account, which signs this. -/
structure IdentityClaim where
  sessionId : String
  roster : DeviceRoster
  deviceId : String
  mlsSigner : String
  displayName : String
  signature : String
  deriving DecidableEq, Repr

/-- What claims use of libraries, besides those of rosters: the JSON of what is signed. -/
structure ClaimCrypto (Key Signature : Type) extends RosterCrypto Key Signature where
  claimJson : String × DeviceRoster × String × String × String → Option (List UInt8)

section Code

variable {Key Signature : Type} (c : ClaimCrypto Key Signature)

/-- A signature, checked with the key of a device. -/
def verify (key signature : String) (bytes : List UInt8) : Except PrivateDmRuntimeError Unit := do
  let raw ← getOr invalid (c.hexDecode signature)
  let signature ← getOr invalid (c.signatureFromSlice raw)
  let key ← orError invalid (publicKey c.toRosterCrypto key)
  check invalid (c.verifyKey key signature bytes)

namespace IdentityClaim

/-- The bytes that are signed. -/
def bytes (claim : IdentityClaim) : Except PrivateDmRuntimeError (List UInt8) := do
  let json ← getOr invalid (c.claimJson
    (claim.sessionId, claim.roster, claim.deviceId, claim.mlsSigner, claim.displayName))
  return claimContext ++ json

/-- The device of the claim. -/
def device (claim : IdentityClaim) : Except PrivateDmRuntimeError DeviceDescriptor := do
  let devices ← orError invalid (claim.roster.devices c.toRosterCrypto)
  getOr invalid (devices.find? fun device => device.deviceId = claim.deviceId)

/-- The claim is for the session, and its device signs it. -/
def verify (claim : IdentityClaim) (session : String) : Except PrivateDmRuntimeError Unit := do
  check invalid (claim.sessionId = session && !claim.displayName.isEmpty &&
    claim.displayName.utf8ByteSize ≤ maxDisplayNameBytes)
  let _ ← orError invalid (publicKey c.toRosterCrypto claim.mlsSigner)
  DmDevices.verify c (← claim.device c).signingPublicKey claim.signature (← claim.bytes c)

end IdentityClaim

/-- The clients of a session, and the rosters of its users. -/
structure DmTopology where
  ownUserId : String
  clients : List IdentityClaim
  rosters : List DeviceRoster
  deriving DecidableEq, Repr

namespace DmTopology

/-- The client with a leaf. -/
def client (t : DmTopology) (signer : String) : Option IdentityClaim :=
  t.clients.find? fun client => client.mlsSigner = signer

/-- The leaf is one of our own user. -/
def own (t : DmTopology) (signer : String) : Bool :=
  (t.client signer).any fun client => client.roster.userId = t.ownUserId

/-- The roster of a user. -/
def roster (t : DmTopology) (user : String) : Option DeviceRoster :=
  t.rosters.find? fun roster => roster.userId = user

/-- A roster takes the place of those of its user. -/
def setRoster (t : DmTopology) (roster : DeviceRoster) : DmTopology :=
  { t with rosters := t.rosters.filter (fun base => base.userId ≠ roster.userId) ++ [roster] }

/-- A newer roster of a user. -/
def updateRoster (t : DmTopology) (roster : DeviceRoster) :
    Except PrivateDmRuntimeError DmTopology := do
  match t.roster roster.userId with
  | some base => check invalid (← orError invalid (roster.extends c.toRosterCrypto base))
  | none => check invalid (decide (t.rosters.length < dmUsers))
  return t.setRoster roster

/-- The roster of a claim is known, and authorizes its device still, or is newer than the one
    that is known. -/
def noteRoster (t : DmTopology) (claim : IdentityClaim) :
    Except PrivateDmRuntimeError DmTopology := do
  match t.roster claim.roster.userId with
  | some base =>
    if ← orError invalid (base.extends c.toRosterCrypto claim.roster) then
      check invalid (← orError invalid
        (base.authorizesAdmitted c.toRosterCrypto claim.roster (← claim.device c)))
      return t
    else t.updateRoster c claim.roster
  | none => t.updateRoster c claim.roster

/-- A claim is added, or replaces an earlier one of its leaf. The topology is changed in place:
    a roster that was noted stays when the client is refused. -/
def addClient (t : DmTopology) (claim : IdentityClaim) :
    DmTopology × Except PrivateDmRuntimeError Unit :=
  match (do claim.verify c claim.sessionId; t.noteRoster c claim) with
  | .error e => (t, .error e)
  | .ok t =>
    match t.client claim.mlsSigner with
    | some existing =>
      if existing.deviceId ≠ claim.deviceId ∨ existing.roster.userId ≠ claim.roster.userId then
        (t, .error invalid)
      else
        ({ t with
          clients := t.clients.filter (fun client => client.mlsSigner ≠ claim.mlsSigner) ++
            [claim] }, .ok ())
    | none =>
      if t.clients.any fun client => client.deviceId = claim.deviceId then (t, .error invalid)
      else ({ t with clients := t.clients ++ [claim] }, .ok ())

/-- One turn of the loop of `validate`: the claim is checked, and added to those before it. -/
def validateClaim (t : DmTopology) (session : String) (checked : DmTopology)
    (claim : IdentityClaim) : Except PrivateDmRuntimeError DmTopology := do
  claim.verify c session
  let current ← getOr invalid (t.roster claim.roster.userId)
  check invalid (← orError invalid
    (current.authorizesAdmitted c.toRosterCrypto claim.roster (← claim.device c)))
  (checked.addClient c claim).2
  return (checked.addClient c claim).1

/-- The loop of `validate`. -/
def validateLoop (t : DmTopology) (session : String) :
    DmTopology → List IdentityClaim → Except PrivateDmRuntimeError DmTopology
  | checked, [] => .ok checked
  | checked, claim :: rest => do
    validateLoop t session (← t.validateClaim c session checked claim) rest

/-- The topology is that of the leaves of a group. -/
def validate (t : DmTopology) (session : String) (signers : List String) :
    Except PrivateDmRuntimeError Unit := do
  check invalid (decide (t.rosters.length = dmUsers) && (t.roster t.ownUserId).isSome)
  let checked ← t.validateLoop c session ⟨t.ownUserId, [], []⟩ t.clients
  let expected := (t.clients.map (·.mlsSigner)).insertionSort (· ≤ ·)
  check invalid (decide (expected = signers.insertionSort (· ≤ ·)) &&
    decide (checked.clients.length = t.clients.length))

end DmTopology

end Code

variable {Key Signature : Type} {c : ClaimCrypto Key Signature} {claim : IdentityClaim}
  {session : String} {device : DeviceDescriptor} {t t' : DmTopology} {roster base : DeviceRoster}

/-! ## Claims -/

/-- The device of a claim is one of its roster. -/
theorem IdentityClaim.device_eq_ok (h : claim.device c = .ok device) :
    ∃ devices, claim.roster.devices c.toRosterCrypto = .ok devices ∧ device ∈ devices ∧
      device.deviceId = claim.deviceId := by
  obtain ⟨devices, hdevices, hfind⟩ := bind_eq_ok.1 h
  rw [orError_eq_ok] at hdevices
  rw [getOr_eq_ok] at hfind
  exact ⟨devices, hdevices, List.mem_of_find?_eq_some hfind, by
    simpa using List.find?_some hfind⟩

/-- A claim that is verified is for the session, and has a device. -/
theorem IdentityClaim.verify_eq_ok (h : claim.verify c session = .ok ()) :
    claim.sessionId = session ∧ ∃ device, claim.device c = .ok device := by
  obtain ⟨_, hcheck, h⟩ := bind_eq_ok.1 h
  obtain ⟨_, -, h⟩ := bind_eq_ok.1 h
  obtain ⟨device, hdevice, -⟩ := bind_eq_ok.1 h
  rw [check_eq_ok, Bool.and_eq_true, Bool.and_eq_true] at hcheck
  exact ⟨of_decide_eq_true hcheck.1.1, device, hdevice⟩

/-- The roster authorizes the client still: it is a later one of that of the claim, and has not
    removed the device since. -/
structure Authorizes (c : ClaimCrypto Key Signature) (current : DeviceRoster)
    (claim : IdentityClaim) : Prop where
  device : ∃ device, claim.device c = .ok device
  accepted : ∃ devices, current.devices c.toRosterCrypto = .ok devices
  since : ∃ rest, current = claim.roster ++ rest ∧
    rest.any (DeviceRoster.removes claim.deviceId) = false

/-- What the query of the roster says about a client. -/
theorem authorizesAdmitted_iff {current : DeviceRoster} (h : claim.device c = .ok device) :
    current.authorizesAdmitted c.toRosterCrypto claim.roster device = .ok true ↔
      Authorizes c current claim := by
  obtain ⟨before, hbefore, hmem, hid⟩ := IdentityClaim.device_eq_ok h
  constructor
  · intro ha
    obtain ⟨revoked, hrevoked, ha⟩ := bind_eq_ok.1 ha
    obtain ⟨«extends», hext, hrevoked⟩ := bind_eq_ok.1 hrevoked
    cases «extends» with
    | false => cases hrevoked
    | true =>
      obtain ⟨⟨devices, hdevices⟩, rest, rfl⟩ := DeviceRoster.extends_eq_true.1 hext
      refine ⟨⟨device, h⟩, ⟨devices, hdevices⟩, rest, rfl, ?_⟩
      obtain rfl : rest.any (DeviceRoster.removes device.deviceId) = revoked := by
        rw [List.drop_left] at hrevoked
        exact Except.ok.inj hrevoked
      rw [← hid]
      cases hany : rest.any (DeviceRoster.removes device.deviceId) with
      | false => rfl
      | true =>
        rw [hany] at ha
        cases ha
  · rintro ⟨-, ⟨devices, hdevices⟩, rest, rfl, hkeep⟩
    rw [DeviceRoster.authorizesAdmitted_of_mem hbefore hmem hdevices, hid, hkeep]
    rfl

namespace Authorizes

/-- The roster of a claim is not empty. -/
theorem ne_nil (h : Authorizes c base claim) : claim.roster ≠ [] := by
  obtain ⟨⟨device, hdevice⟩, -, -⟩ := h
  obtain ⟨devices, hdevices, -⟩ := IdentityClaim.device_eq_ok hdevice
  rintro hnil
  rw [hnil] at hdevices
  cases hdevices

/-- A claim's own roster authorizes it. -/
theorem self (h : claim.device c = .ok device) : Authorizes c claim.roster claim := by
  obtain ⟨devices, hdevices, -⟩ := IdentityClaim.device_eq_ok h
  exact ⟨⟨device, h⟩, ⟨devices, hdevices⟩, [], (List.append_nil _).symm, rfl⟩

/-- A roster between that of a claim and one that authorizes it does so as well. -/
theorem between (h : Authorizes c base claim) (hlow : claim.roster <+: roster)
    (hup : roster <+: base) : Authorizes c roster claim := by
  obtain ⟨devices, hdevices⟩ := h.accepted
  obtain ⟨rest, rfl, hkeep⟩ := h.since
  obtain ⟨middle, rfl⟩ := hlow
  have hne : claim.roster ++ middle ≠ [] := by simp [h.ne_nil]
  refine ⟨h.device, DeviceRoster.devices_of_prefix hne hdevices hup, middle, rfl, ?_⟩
  obtain ⟨more, rfl⟩ := (List.prefix_append_right_inj _).1 hup
  rw [List.any_append, Bool.or_eq_false_iff] at hkeep
  exact hkeep.1

/-- A newer roster authorizes a client if it has not removed the device. -/
theorem newer (h : Authorizes c base claim) (hext : roster.extends c.toRosterCrypto base = .ok true)
    (hkeep : (roster.drop base.length).any (DeviceRoster.removes claim.deviceId) = false) :
    Authorizes c roster claim := by
  obtain ⟨haccepted, more, rfl⟩ := DeviceRoster.extends_eq_true.1 hext
  obtain ⟨rest, rfl, hrest⟩ := h.since
  rw [List.drop_left] at hkeep
  refine ⟨h.device, haccepted, rest ++ more, List.append_assoc _ _ _, ?_⟩
  rw [List.any_append, hrest, hkeep]
  rfl

end Authorizes

/-! ## Rosters of a topology -/

namespace DmTopology

/-- The roster of a user is one of theirs. -/
theorem roster_mem {user : String} (h : t.roster user = some roster) :
    roster ∈ t.rosters ∧ roster.userId = user :=
  ⟨List.mem_of_find?_eq_some h, by simpa using List.find?_some h⟩

/-- The rosters after one is set. -/
theorem roster_setRoster (user : String) : (t.setRoster roster).roster user =
    if roster.userId = user then some roster else t.roster user := by
  rw [DmTopology.roster, setRoster, List.find?_append, List.find?_filter]
  by_cases h : roster.userId = user
  · subst h
    rw [List.find?_eq_none.2 (by simp), if_pos rfl]
    simp
  · have hsame : (fun base : DeviceRoster => decide (decide (base.userId ≠ roster.userId) = true ∧
        decide (base.userId = user) = true)) = fun base => decide (base.userId = user) := by
      funext base
      by_cases hb : base.userId = user
      · simp [hb, Ne.symm h]
      · simp [hb]
    rw [hsame, if_neg h]
    simp [DmTopology.roster, h]

@[simp]
theorem clients_setRoster : (t.setRoster roster).clients = t.clients := rfl

/-- What a newer roster has to be. -/
theorem updateRoster_eq_ok : t.updateRoster c roster = .ok t' ↔ t' = t.setRoster roster ∧
    (∀ base, t.roster roster.userId = some base →
      roster.extends c.toRosterCrypto base = .ok true) ∧
    (t.roster roster.userId = none → t.rosters.length < dmUsers) := by
  rw [updateRoster]
  cases hroster : t.roster roster.userId with
  | none =>
    constructor
    · intro h
      obtain ⟨_, hlen, h⟩ := bind_eq_ok.1 h
      rw [check_eq_ok, decide_eq_true_eq] at hlen
      exact ⟨(Except.ok.inj h).symm, fun _ hb => (nomatch hb), fun _ => hlen⟩
    · rintro ⟨rfl, -, hlen⟩
      exact bind_eq_ok.2 ⟨(), check_eq_ok.2 (decide_eq_true (hlen rfl)), rfl⟩
  | some base =>
    constructor
    · intro h
      obtain ⟨«extends», hext, h⟩ := bind_eq_ok.1 h
      obtain ⟨_, hcheck, h⟩ := bind_eq_ok.1 h
      rw [check_eq_ok] at hcheck
      rw [orError_eq_ok, hcheck] at hext
      refine ⟨(Except.ok.inj h).symm, fun base' hbase => ?_, fun hnone => (nomatch hnone)⟩
      rwa [← Option.some.inj hbase]
    · rintro ⟨rfl, hext, -⟩
      exact bind_eq_ok.2 ⟨true, orError_eq_ok.2 (hext base rfl), rfl⟩

/-- What the roster of a claim has to be: the known one authorizes the client, or it is newer. -/
theorem noteRoster_eq_ok (h : t.noteRoster c claim = .ok t') :
    (t' = t ∧ ∃ base, t.roster claim.roster.userId = some base ∧ Authorizes c base claim) ∨
      t.updateRoster c claim.roster = .ok t' := by
  rw [noteRoster] at h
  cases hroster : t.roster claim.roster.userId with
  | none =>
    rw [hroster] at h
    exact .inr h
  | some base =>
    rw [hroster] at h
    obtain ⟨«extends», hext, h⟩ := bind_eq_ok.1 h
    cases «extends» with
    | false => exact .inr h
    | true =>
      obtain ⟨device, hdevice, h⟩ := bind_eq_ok.1 h
      obtain ⟨admits, hadmits, h⟩ := bind_eq_ok.1 h
      obtain ⟨_, hcheck, h⟩ := bind_eq_ok.1 h
      rw [check_eq_ok] at hcheck
      rw [orError_eq_ok, hcheck, authorizesAdmitted_iff hdevice] at hadmits
      exact .inl ⟨(Except.ok.inj h).symm, base, rfl, hadmits⟩

/-- A client that the known roster authorizes leaves the rosters as they are. -/
theorem noteRoster_of_authorizes (hroster : t.roster claim.roster.userId = some base)
    (h : Authorizes c base claim) : t.noteRoster c claim = .ok t := by
  obtain ⟨device, hdevice⟩ := h.device
  obtain ⟨rest, hrest, -⟩ := h.since
  have hext : base.extends c.toRosterCrypto claim.roster = .ok true :=
    DeviceRoster.extends_eq_true.2 ⟨h.accepted, hrest ▸ List.prefix_append _ _⟩
  rw [noteRoster, hroster]
  refine bind_eq_ok.2 ⟨true, orError_eq_ok.2 hext, ?_⟩
  refine bind_eq_ok.2 ⟨device, hdevice, bind_eq_ok.2 ⟨true, ?_, rfl⟩⟩
  exact orError_eq_ok.2 ((authorizesAdmitted_iff hdevice).2 h)

/-- A claim with a newer roster updates it. -/
theorem noteRoster_of_newer (hdevice : claim.device c = .ok device)
    (hroster : ∀ base, t.roster claim.roster.userId = some base →
      base <+: claim.roster ∧ ¬ claim.roster <+: base ∧
        ∃ devices, base.devices c.toRosterCrypto = .ok devices)
    (hlen : t.roster claim.roster.userId = none → t.rosters.length < dmUsers) :
    t.noteRoster c claim = .ok (t.setRoster claim.roster) := by
  obtain ⟨devices, hdevices, -⟩ := IdentityClaim.device_eq_ok hdevice
  have hupdate : t.updateRoster c claim.roster = .ok (t.setRoster claim.roster) := by
    refine updateRoster_eq_ok.2 ⟨rfl, fun base hbase => ?_, hlen⟩
    exact DeviceRoster.extends_eq_true.2 ⟨⟨devices, hdevices⟩, (hroster base hbase).1⟩
  rw [noteRoster]
  cases hknown : t.roster claim.roster.userId with
  | none => exact hupdate
  | some base =>
    obtain ⟨-, hnot, before, hbefore⟩ := hroster base hknown
    have hext : base.extends c.toRosterCrypto claim.roster = .ok false := by
      rw [DeviceRoster.extends, hbefore]
      refine congrArg Except.ok (Bool.eq_false_iff.2 fun h => hnot ?_)
      exact List.isPrefixOf_iff_prefix.1 h
    exact bind_eq_ok.2 ⟨false, orError_eq_ok.2 hext, hupdate⟩

/-! ## A client that is added -/

/-- The client with a leaf is one of the clients. -/
theorem client_mem {signer : String} {client : IdentityClaim} (h : t.client signer = some client) :
    client ∈ t.clients ∧ client.mlsSigner = signer :=
  ⟨List.mem_of_find?_eq_some h, by simpa using List.find?_some h⟩

/-- There is no client with a leaf. -/
theorem client_eq_none {signer : String} :
    t.client signer = none ↔ signer ∉ t.clients.map (·.mlsSigner) := by
  rw [client, List.find?_eq_none, List.mem_map]
  simp

/-- The claims of other leaves, and the claim. -/
def replaceClient (t : DmTopology) (claim : IdentityClaim) : DmTopology :=
  { t with
    clients := t.clients.filter (fun client => client.mlsSigner ≠ claim.mlsSigner) ++ [claim] }

/-- What adding a claim does: nothing, or the rosters change as `noteRoster` says, and the claim
    replaces the one of its leaf and device, or is added with a new leaf and device. -/
theorem addClient_cases (t : DmTopology) (claim : IdentityClaim) :
    ((t.addClient c claim).1 = t ∧ ∃ e, (t.addClient c claim).2 = .error e) ∨
    ∃ t', claim.verify c claim.sessionId = .ok () ∧ t.noteRoster c claim = .ok t' ∧
      (((t.addClient c claim).1 = t' ∧ ∃ e, (t.addClient c claim).2 = .error e) ∨
      ((∃ existing, t'.client claim.mlsSigner = some existing ∧
        existing.deviceId = claim.deviceId ∧ existing.roster.userId = claim.roster.userId) ∧
        t.addClient c claim = (t'.replaceClient claim, .ok ())) ∨
      (t'.client claim.mlsSigner = none ∧ claim.deviceId ∉ t'.clients.map (·.deviceId) ∧
        t.addClient c claim = ({ t' with clients := t'.clients ++ [claim] }, .ok ()))) := by
  rw [addClient]
  split
  · next e he => exact .inl ⟨rfl, e, rfl⟩
  · next t' hok =>
    obtain ⟨_, hverify, hnote⟩ := bind_eq_ok.1 hok
    refine .inr ⟨t', hverify, hnote, ?_⟩
    split
    · next existing hexisting =>
      split
      · exact .inl ⟨rfl, invalid, rfl⟩
      · next hsame =>
        rw [not_or, not_not, not_not] at hsame
        exact .inr (.inl ⟨⟨existing, hexisting, hsame⟩, rfl⟩)
    · next hnone =>
      split
      · exact .inl ⟨rfl, invalid, rfl⟩
      · next hfresh =>
        refine .inr (.inr ⟨hnone, ?_, rfl⟩)
        simpa [List.mem_map] using hfresh

/-- A claim with a new leaf and device is added once its roster is noted. -/
theorem addClient_fresh (hverify : claim.verify c claim.sessionId = .ok ())
    (hnote : t.noteRoster c claim = .ok t') (hsigner : claim.mlsSigner ∉ t'.clients.map (·.mlsSigner))
    (hdevice : claim.deviceId ∉ t'.clients.map (·.deviceId)) :
    t.addClient c claim = ({ t' with clients := t'.clients ++ [claim] }, .ok ()) := by
  have hok : (do claim.verify c claim.sessionId; t.noteRoster c claim) = .ok t' :=
    bind_eq_ok.2 ⟨(), hverify, hnote⟩
  rw [addClient, hok]
  have hany : (t'.clients.any fun client => client.deviceId = claim.deviceId) = false := by
    simpa [List.mem_map] using hdevice
  simp only [client_eq_none.2 hsigner, hany]
  rfl

end DmTopology

/-! ## Valid topologies -/

section Nodup

variable {α β : Type} {f : α → β} {l l' : List α} {a : α}

/-- A value that is new to a list is appended. -/
theorem nodup_map_concat (ha : f a ∉ l.map f) (h : (l.map f).Nodup) :
    ((l ++ [a]).map f).Nodup := by
  rw [List.map_append, List.map_singleton, ← List.concat_eq_append]
  exact h.concat ha

/-- A value in the middle of a list without repetitions is not before it. -/
theorem not_mem_of_nodup_map_append (h : ((l ++ a :: l').map f).Nodup) : f a ∉ l.map f := by
  rw [List.map_append, List.map_cons, List.nodup_append] at h
  exact fun hmem => h.2.2 (f a) hmem (f a) List.mem_cons_self rfl

end Nodup

/-- A topology is bound to the leaves of a group: there are two rosters, one of them our own;
    the clients are verified, their devices are authorized by the rosters of their users, and
    there is one client for each leaf, with a device of its own. -/
structure Bound (c : ClaimCrypto Key Signature) (t : DmTopology) (session : String)
    (signers : List String) : Prop where
  rosters : t.rosters.length = dmUsers
  own : (t.roster t.ownUserId).isSome
  verified : ∀ claim ∈ t.clients, claim.verify c session = .ok ()
  authorized : ∀ claim ∈ t.clients, ∃ current, t.roster claim.roster.userId = some current ∧
    Authorizes c current claim
  nodup : (t.clients.map (·.mlsSigner)).Nodup
  devices : (t.clients.map (·.deviceId)).Nodup
  leaves : (t.clients.map (·.mlsSigner)).Perm signers

namespace DmTopology

variable {checked checked' : DmTopology} {claims done : List IdentityClaim} {signers : List String}

/-- What one turn of the loop checks. -/
theorem validateClaim_eq_ok (h : t.validateClaim c session checked claim = .ok checked') :
    claim.verify c session = .ok () ∧
      (∃ current, t.roster claim.roster.userId = some current ∧ Authorizes c current claim) ∧
      checked.addClient c claim = (checked', .ok ()) := by
  obtain ⟨_, hverify, h⟩ := bind_eq_ok.1 h
  obtain ⟨current, hcurrent, h⟩ := bind_eq_ok.1 h
  obtain ⟨device, hdevice, h⟩ := bind_eq_ok.1 h
  obtain ⟨admits, hadmits, h⟩ := bind_eq_ok.1 h
  obtain ⟨_, hcheck, h⟩ := bind_eq_ok.1 h
  obtain ⟨_, hadd, h⟩ := bind_eq_ok.1 h
  rw [check_eq_ok] at hcheck
  rw [orError_eq_ok, hcheck, authorizesAdmitted_iff hdevice] at hadmits
  exact ⟨hverify, ⟨current, getOr_eq_ok.1 hcurrent, hadmits⟩,
    Prod.ext (Except.ok.inj h) hadd⟩

/-- The claims that the loop goes through are checked, and if none of them took the place of
    another one, their leaves and devices are distinct. -/
theorem validateLoop_eq_ok (h : t.validateLoop c session checked claims = .ok checked') :
    (∀ claim ∈ claims, claim.verify c session = .ok () ∧
      ∃ current, t.roster claim.roster.userId = some current ∧ Authorizes c current claim) ∧
    checked'.clients.length ≤ checked.clients.length + claims.length ∧
    (checked'.clients.length = checked.clients.length + claims.length →
      (checked.clients.map (·.mlsSigner)).Nodup → (checked.clients.map (·.deviceId)).Nodup →
      ((checked.clients ++ claims).map (·.mlsSigner)).Nodup ∧
        ((checked.clients ++ claims).map (·.deviceId)).Nodup) := by
  induction claims generalizing checked with
  | nil =>
    obtain rfl := Except.ok.inj h
    refine ⟨List.forall_mem_nil _, le_rfl, fun _ hs hd => ?_⟩
    rw [List.append_nil]
    exact ⟨hs, hd⟩
  | cons claim rest ih =>
    obtain ⟨next, hclaim, hrest⟩ := bind_eq_ok.1 h
    obtain ⟨hverify, hcurrent, hadd⟩ := validateClaim_eq_ok hclaim
    obtain ⟨hall, hlen, hnodup⟩ := ih hrest
    refine ⟨List.forall_mem_cons.2 ⟨⟨hverify, hcurrent⟩, hall⟩, ?_⟩
    have hnote : ∀ {noted}, checked.noteRoster c claim = .ok noted →
        noted.clients = checked.clients := by
      intro noted hnoted
      obtain ⟨rfl, -⟩ | hupdate := noteRoster_eq_ok hnoted
      · rfl
      · rw [(updateRoster_eq_ok.1 hupdate).1, clients_setRoster]
    rcases addClient_cases (c := c) checked claim with ⟨-, e, he⟩ |
      ⟨noted, -, hnoted, ⟨-, e, he⟩ | ⟨⟨existing, hexisting, -⟩, hok⟩ | ⟨hnone, hfresh, hok⟩⟩
    · rw [hadd] at he
      cases he
    · rw [hadd] at he
      cases he
    · -- the claim takes the place of another one: there are fewer clients than claims
      obtain rfl : next = noted.replaceClient claim := (Prod.ext_iff.1 (hadd.symm.trans hok)).1
      have hshort : (noted.replaceClient claim).clients.length ≤ checked.clients.length := by
        have hlt : (noted.clients.filter fun client =>
            client.mlsSigner ≠ claim.mlsSigner).length < noted.clients.length := by
          refine List.length_filter_lt_length_iff_exists.2 ⟨existing, (client_mem hexisting).1, ?_⟩
          simp [(client_mem hexisting).2]
        rw [hnote hnoted] at hlt
        rw [replaceClient, List.length_append, hnote hnoted]
        exact hlt
      rw [List.length_cons]
      exact ⟨by omega, fun heq => absurd heq (by omega)⟩
    · obtain rfl : next = { noted with clients := noted.clients ++ [claim] } :=
        (Prod.ext_iff.1 (hadd.symm.trans hok)).1
      rw [hnote hnoted] at hfresh hlen hnodup
      rw [client_eq_none, hnote hnoted] at hnone
      simp only [List.length_append, List.length_singleton] at hlen hnodup
      rw [List.length_cons]
      refine ⟨by omega, fun heq hs hd => ?_⟩
      have hsplit : checked.clients ++ claim :: rest = checked.clients ++ [claim] ++ rest := by simp
      rw [hsplit]
      exact hnodup (by omega) (nodup_map_concat hnone hs) (nodup_map_concat hfresh hd)

/-- The rosters of the claims that the loop went through: one for each user, and older than the
    ones of the topology. -/
structure Replayed (c : ClaimCrypto Key Signature) (t : DmTopology) (done : List IdentityClaim)
    (checked : DmTopology) : Prop where
  clients : checked.clients = done
  users : (checked.rosters.map (·.userId)).Nodup
  older : ∀ roster ∈ checked.rosters, ∃ current, t.roster roster.userId = some current ∧
    roster <+: current ∧ ∃ devices, roster.devices c.toRosterCrypto = .ok devices

/-- A topology with two rosters has room for the roster of another of its users. -/
theorem Replayed.room (h : Replayed c t done checked) (hrosters : t.rosters.length = dmUsers)
    {user : String} {current : DeviceRoster} (hcurrent : t.roster user = some current)
    (hnone : checked.roster user = none) : checked.rosters.length < dmUsers := by
  have hfresh : user ∉ checked.rosters.map (·.userId) := by
    rw [DmTopology.roster, List.find?_eq_none] at hnone
    simpa [List.mem_map] using hnone
  have hnodup : (user :: checked.rosters.map (·.userId)).Nodup :=
    List.nodup_cons.2 ⟨hfresh, h.users⟩
  have hsub : (user :: checked.rosters.map (·.userId)) ⊆ t.rosters.map (·.userId) := by
    refine List.cons_subset.2 ⟨?_, ?_⟩
    · exact List.mem_map.2 ⟨current, roster_mem hcurrent⟩
    · intro u hu
      obtain ⟨roster, hroster, rfl⟩ := List.mem_map.1 hu
      obtain ⟨current, hcurrent, -⟩ := h.older roster hroster
      exact List.mem_map.2 ⟨current, roster_mem hcurrent⟩
  have hlen := (hnodup.subperm hsub).length_le
  rw [List.length_cons, List.length_map, List.length_map, hrosters] at hlen
  exact hlen

/-- A roster that is set is the only one of its user. -/
theorem nodup_setRoster (h : (t.rosters.map (·.userId)).Nodup) :
    ((t.setRoster roster).rosters.map (·.userId)).Nodup := by
  refine nodup_map_concat ?_ (h.sublist (List.filter_sublist.map _))
  simp [List.mem_map]

/-- A claim of a bound topology can be added to those before it. -/
theorem Replayed.add (h : Replayed c t done checked) (hrosters : t.rosters.length = dmUsers)
    (hverify : claim.verify c session = .ok ())
    (hcurrent : ∃ current, t.roster claim.roster.userId = some current ∧
      Authorizes c current claim)
    (hsigner : claim.mlsSigner ∉ done.map (·.mlsSigner))
    (hdevice : claim.deviceId ∉ done.map (·.deviceId)) :
    ∃ next, t.validateClaim c session checked claim = .ok next ∧
      Replayed c t (done ++ [claim]) next := by
  obtain ⟨current, hcurrent, hauth⟩ := hcurrent
  obtain ⟨rfl, device, hd⟩ := IdentityClaim.verify_eq_ok hverify
  obtain ⟨rest, hrest, -⟩ := hauth.since
  have hclaim : claim.roster <+: current := hrest ▸ List.prefix_append _ _
  have hset : Replayed c t done (checked.setRoster claim.roster) := by
    refine ⟨h.clients, nodup_setRoster h.users, fun roster hroster => ?_⟩
    rcases List.mem_append.1 hroster with hold | hnew
    · exact h.older roster (List.mem_filter.1 hold).1
    · obtain ⟨devices, hdevices, -⟩ := IdentityClaim.device_eq_ok hd
      rw [List.mem_singleton.1 hnew]
      exact ⟨current, hcurrent, hclaim, devices, hdevices⟩
  -- the roster of the claim is known already, or replaces an older one
  obtain ⟨noted, hnoted, hreplayed⟩ : ∃ noted, checked.noteRoster c claim = .ok noted ∧
      Replayed c t done noted := by
    by_cases hknown : ∃ base, checked.roster claim.roster.userId = some base ∧
        claim.roster <+: base
    · obtain ⟨base, hbase, hpre⟩ := hknown
      obtain ⟨hmem, huser⟩ := roster_mem hbase
      obtain ⟨current', hcurrent', hup, -⟩ := h.older base hmem
      rw [huser, hcurrent] at hcurrent'
      obtain rfl := Option.some.inj hcurrent'
      exact ⟨checked, noteRoster_of_authorizes hbase (hauth.between hpre hup), h⟩
    · refine ⟨_, noteRoster_of_newer hd (fun base hbase => ?_) (h.room hrosters hcurrent), hset⟩
      obtain ⟨hmem, huser⟩ := roster_mem hbase
      obtain ⟨current', hcurrent', hup, hdevices⟩ := h.older base hmem
      rw [huser, hcurrent] at hcurrent'
      obtain rfl := Option.some.inj hcurrent'
      have hnot : ¬ claim.roster <+: base := fun hpre => hknown ⟨base, hbase, hpre⟩
      exact ⟨(List.prefix_or_prefix_of_prefix hup hclaim).resolve_right hnot, hnot, hdevices⟩
  have hadd := addClient_fresh hverify hnoted (hreplayed.clients ▸ hsigner)
    (hreplayed.clients ▸ hdevice)
  refine ⟨{ noted with clients := noted.clients ++ [claim] }, ?_, ?_⟩
  · refine bind_eq_ok.2 ⟨(), hverify, bind_eq_ok.2 ⟨current, getOr_eq_ok.2 hcurrent, ?_⟩⟩
    refine bind_eq_ok.2 ⟨device, hd, bind_eq_ok.2 ⟨true, ?_, bind_eq_ok.2 ⟨(), rfl, ?_⟩⟩⟩
    · exact orError_eq_ok.2 ((authorizesAdmitted_iff hd).2 hauth)
    · rw [hadd]
      rfl
  · refine ⟨?_, hreplayed.users, hreplayed.older⟩
    show noted.clients ++ [claim] = done ++ [claim]
    rw [hreplayed.clients]

/-- The loop goes through the claims of a bound topology. -/
theorem validateLoop_of_replayed (hrosters : t.rosters.length = dmUsers)
    (h : Replayed c t done checked)
    (hclaims : ∀ claim ∈ claims, claim.verify c session = .ok () ∧
      ∃ current, t.roster claim.roster.userId = some current ∧ Authorizes c current claim)
    (hsigners : ((done ++ claims).map (·.mlsSigner)).Nodup)
    (hdevices : ((done ++ claims).map (·.deviceId)).Nodup) :
    ∃ checked', t.validateLoop c session checked claims = .ok checked' ∧
      checked'.clients = done ++ claims := by
  induction claims generalizing done checked with
  | nil => exact ⟨checked, rfl, h.clients.trans (List.append_nil _).symm⟩
  | cons claim rest ih =>
    obtain ⟨⟨hverify, hcurrent⟩, hrest⟩ := List.forall_mem_cons.1 hclaims
    have hsplit : done ++ claim :: rest = done ++ [claim] ++ rest := by simp
    obtain ⟨next, hnext, hreplayed⟩ := h.add hrosters hverify hcurrent
      (not_mem_of_nodup_map_append hsigners) (not_mem_of_nodup_map_append hdevices)
    rw [hsplit] at hsigners hdevices ⊢
    obtain ⟨checked', hloop, hclients⟩ := ih hreplayed hrest hsigners hdevices
    exact ⟨checked', bind_eq_ok.2 ⟨next, hnext, hloop⟩, hclients⟩

/-- A topology is valid exactly if it is bound to the leaves of the group. -/
theorem validate_eq_ok : t.validate c session signers = .ok () ↔ Bound c t session signers := by
  constructor
  · intro h
    obtain ⟨_, hfirst, h⟩ := bind_eq_ok.1 h
    obtain ⟨checked, hloop, h⟩ := bind_eq_ok.1 h
    rw [check_eq_ok, Bool.and_eq_true, decide_eq_true_eq] at hfirst h
    rw [decide_eq_true_eq] at h
    obtain ⟨hall, -, hnodup⟩ := validateLoop_eq_ok hloop
    obtain ⟨hsigners, hdevices⟩ :=
      hnodup (h.2.trans (Nat.zero_add _).symm) List.nodup_nil List.nodup_nil
    refine ⟨hfirst.1, hfirst.2, fun claim hclaim => (hall claim hclaim).1,
      fun claim hclaim => (hall claim hclaim).2, hsigners, hdevices, ?_⟩
    have hsorted : (t.clients.map (·.mlsSigner)).Perm (signers.insertionSort (· ≤ ·)) :=
      h.1 ▸ (List.perm_insertionSort _ _).symm
    exact hsorted.trans (List.perm_insertionSort _ _)
  · intro h
    have hstart : Replayed c t [] ⟨t.ownUserId, [], []⟩ :=
      ⟨rfl, List.nodup_nil, List.forall_mem_nil _⟩
    obtain ⟨checked, hloop, hclients⟩ := validateLoop_of_replayed h.rosters hstart
      (fun claim hclaim => ⟨h.verified claim hclaim, h.authorized claim hclaim⟩) h.nodup h.devices
    refine bind_eq_ok.2 ⟨(), ?_, bind_eq_ok.2 ⟨checked, hloop, ?_⟩⟩
    · rw [check_eq_ok, h.rosters, h.own]
      rfl
    · have hsorted : (t.clients.map (·.mlsSigner)).insertionSort (· ≤ ·) =
          signers.insertionSort (· ≤ ·) := by
        refine List.Perm.eq_of_pairwise' (List.pairwise_insertionSort (· ≤ ·) _)
          (List.pairwise_insertionSort (· ≤ ·) _) ?_
        exact ((List.perm_insertionSort _ _).trans h.leaves).trans
          (List.perm_insertionSort _ _).symm
      rw [check_eq_ok, hsorted, hclients]
      simp

end DmTopology

/-! ## What keeps a topology valid -/

namespace Bound

variable {signers : List String}

/-- The leaf of a client is one of the group. -/
theorem client_isSome (h : Bound c t session signers) {signer : String} (hs : signer ∈ signers) :
    ∃ client, t.client signer = some client := by
  rw [← Option.isSome_iff_exists, ← Option.ne_none_iff_isSome, ne_eq, DmTopology.client_eq_none,
    not_not]
  exact h.leaves.mem_iff.2 hs

/-- A newer roster of one of the two users keeps a topology bound, if it has removed none of the
    clients since. -/
theorem setRoster (h : Bound c t session signers) (husers : (t.rosters.map (·.userId)).Nodup)
    (hbase : t.roster roster.userId = some base)
    (hext : roster.extends c.toRosterCrypto base = .ok true)
    (hkeep : ∀ claim ∈ t.clients, claim.roster.userId = roster.userId →
      (roster.drop base.length).any (DeviceRoster.removes claim.deviceId) = false) :
    Bound c (t.setRoster roster) session signers := by
  obtain ⟨hmem, huser⟩ := DmTopology.roster_mem hbase
  refine ⟨?_, ?_, h.verified, ?_, h.nodup, h.devices, h.leaves⟩
  · -- there is one roster of the user, and it is replaced
    have hone : (t.rosters.filter fun r => r.userId = roster.userId).length = 1 := by
      rw [← List.countP_eq_length_filter, ← huser]
      have hcount : (t.rosters.map (·.userId)).count base.userId = 1 :=
        List.count_eq_one_of_mem husers (List.mem_map_of_mem hmem)
      rw [List.count, List.countP_map] at hcount
      exact hcount
    have hsum := List.length_eq_length_filter_add (l := t.rosters)
      (fun r => decide (r.userId = roster.userId))
    have hlen := h.rosters
    have hnot : (t.rosters.filter fun r => decide (r.userId ≠ roster.userId)).length =
        (t.rosters.filter fun r => !decide (r.userId = roster.userId)).length := by
      simp only [decide_not]
    rw [DmTopology.setRoster, List.length_append, List.length_singleton, hnot]
    omega
  · show ((t.setRoster roster).roster t.ownUserId).isSome
    rw [DmTopology.roster_setRoster]
    split
    · rfl
    · exact h.own
  · intro claim hclaim
    obtain ⟨current, hcurrent, hauth⟩ := h.authorized claim hclaim
    rw [DmTopology.roster_setRoster]
    by_cases hsame : roster.userId = claim.roster.userId
    · rw [if_pos hsame]
      rw [← hsame, hbase] at hcurrent
      obtain rfl := Option.some.inj hcurrent
      exact ⟨roster, rfl, hauth.newer hext (hkeep claim hclaim hsame.symm)⟩
    · rw [if_neg hsame]
      exact ⟨current, hcurrent, hauth⟩

/-- A claim that is made again keeps a topology bound. -/
theorem replaceClient (h : Bound c t session signers) (hverify : claim.verify c session = .ok ())
    (hexisting : ∃ existing, t.client claim.mlsSigner = some existing ∧
      existing.deviceId = claim.deviceId)
    (hauth : ∃ current, t.roster claim.roster.userId = some current ∧ Authorizes c current claim) :
    Bound c (t.replaceClient claim) session signers := by
  obtain ⟨existing, hexisting, hdevice⟩ := hexisting
  obtain ⟨hmem, hsigner⟩ := DmTopology.client_mem hexisting
  have hforall : ∀ {P : IdentityClaim → Prop}, (∀ client ∈ t.clients, P client) → P claim →
      ∀ client ∈ (t.replaceClient claim).clients, P client := by
    intro P hold hnew client hclient
    rcases List.mem_append.1 hclient with hc | hc
    · exact hold client (List.mem_filter.1 hc).1
    · rwa [List.mem_singleton.1 hc]
  have hnodup : ((t.replaceClient claim).clients.map (·.mlsSigner)).Nodup := by
    refine nodup_map_concat ?_ (h.nodup.sublist (List.filter_sublist.map _))
    simp [List.mem_map]
  refine ⟨h.rosters, h.own, hforall h.verified hverify, hforall h.authorized hauth, hnodup, ?_, ?_⟩
  · refine nodup_map_concat ?_ (h.devices.sublist (List.filter_sublist.map _))
    rw [List.mem_map]
    rintro ⟨other, hother, hid⟩
    obtain ⟨hother, hne⟩ := List.mem_filter.1 hother
    obtain rfl : other = existing :=
      List.inj_on_of_nodup_map h.devices hother hmem (hid.trans hdevice.symm)
    exact absurd hsigner (of_decide_eq_true hne)
  · refine List.Perm.trans ?_ h.leaves
    refine (List.perm_ext_iff_of_nodup hnodup h.nodup).2 fun signer => ?_
    constructor
    · intro hs
      obtain ⟨client, hclient, rfl⟩ := List.mem_map.1 hs
      rcases List.mem_append.1 hclient with hc | hc
      · exact List.mem_map_of_mem (List.mem_filter.1 hc).1
      · rw [List.mem_singleton.1 hc, ← hsigner]
        exact List.mem_map_of_mem hmem
    · intro hs
      obtain ⟨client, hclient, rfl⟩ := List.mem_map.1 hs
      by_cases hsame : client.mlsSigner = claim.mlsSigner
      · rw [hsame]
        exact List.mem_map_of_mem (List.mem_append_right _ (List.mem_singleton_self _))
      · refine List.mem_map_of_mem (List.mem_append_left _ (List.mem_filter.2 ⟨hclient, ?_⟩))
        exact decide_eq_true hsame

/-- The roster of a claim that is noted keeps a topology bound, if it has removed nothing since
    the known one, and authorizes the claim. -/
theorem noteRoster (h : Bound c t session signers) (husers : (t.rosters.map (·.userId)).Nodup)
    (hdevice : claim.device c = .ok device)
    (hkeep : ∀ base, t.roster claim.roster.userId = some base →
      claim.roster.extends c.toRosterCrypto base = .ok true →
      claim.roster.hasRemovalSince c.toRosterCrypto base = .ok false)
    (hnoted : t.noteRoster c claim = .ok t') :
    Bound c t' session signers ∧ (t'.rosters.map (·.userId)).Nodup ∧ t'.clients = t.clients ∧
      ∃ current, t'.roster claim.roster.userId = some current ∧ Authorizes c current claim := by
  obtain ⟨rfl, hknown⟩ | hupdate := DmTopology.noteRoster_eq_ok hnoted
  · exact ⟨h, husers, rfl, hknown⟩
  · obtain ⟨rfl, hext, hroom⟩ := DmTopology.updateRoster_eq_ok.1 hupdate
    cases hbase : t.roster claim.roster.userId with
    | none => exact absurd (hroom hbase) (by rw [h.rosters]; exact lt_irrefl _)
    | some base =>
      have hnewer := hext base hbase
      obtain ⟨⟨devices, hdevices⟩, more, hmore⟩ := DeviceRoster.extends_eq_true.1 hnewer
      have hnone := hkeep base hbase hnewer
      rw [← hmore] at hdevices hnone
      rw [DeviceRoster.hasRemovalSince_append hdevices, Except.ok.injEq] at hnone
      refine ⟨h.setRoster husers hbase hnewer fun client _ _ => ?_,
        DmTopology.nodup_setRoster husers, rfl, claim.roster, ?_, Authorizes.self hdevice⟩
      · rw [← hmore, List.drop_left]
        refine List.any_eq_false.2 fun entry hentry hremoves => ?_
        refine List.any_eq_false.1 hnone entry hentry ?_
        exact (Bool.and_eq_true _ _ ▸ hremoves).2
      · rw [DmTopology.roster_setRoster, if_pos rfl]

/-- A claim of a leaf of the group, whether it is accepted or not, keeps a topology bound, if
    its roster has removed nothing since the known one. -/
theorem addClient (h : Bound c t session signers) (husers : (t.rosters.map (·.userId)).Nodup)
    (hsession : claim.sessionId = session) (hsigner : claim.mlsSigner ∈ signers)
    (hkeep : ∀ base, t.roster claim.roster.userId = some base →
      claim.roster.extends c.toRosterCrypto base = .ok true →
      claim.roster.hasRemovalSince c.toRosterCrypto base = .ok false) :
    Bound c (t.addClient c claim).1 session signers ∧
      ((t.addClient c claim).1.rosters.map (·.userId)).Nodup := by
  rcases DmTopology.addClient_cases (c := c) t claim with ⟨hsame, -⟩ | ⟨t', hverify, hnoted, hcases⟩
  · rw [hsame]
    exact ⟨h, husers⟩
  · rw [hsession] at hverify
    obtain ⟨-, device, hdevice⟩ := IdentityClaim.verify_eq_ok hverify
    obtain ⟨hbound, husers', hclients, hauth⟩ := h.noteRoster husers hdevice hkeep hnoted
    rcases hcases with ⟨hrefused, -⟩ | ⟨⟨existing, hexisting, hid, -⟩, hok⟩ | ⟨hnone, -⟩
    · rw [hrefused]
      exact ⟨hbound, husers'⟩
    · rw [hok]
      exact ⟨hbound.replaceClient hverify ⟨existing, hexisting, hid⟩ hauth, husers'⟩
    · obtain ⟨existing, hexisting⟩ := hbound.client_isSome hsigner
      rw [hnone] at hexisting
      cases hexisting

end Bound

end Mosh.DmDevices
