import Mathlib

/-!
# The device roster

The devices of an account authorize each other (`device_link/roster.rs`): a roster
is a chain of signed entries, every one of which adds or removes a device. The
first one is the account's own, signed by the device it adds. Every later one names
the digest of the chain before it, and is signed by a device that is active there.
`verifyDevices` walks through the chain and returns the active devices.

* `verifyDevices_sound`: what an accepted roster is. Its devices are those that the
  entries add and do not remove (`activeDevices`), they are distinct and at least
  one, every part of the chain from its start on is accepted too, and every entry
  was authorized by a device that was active when it was made.

Keys, signatures, hashes, hex and JSON come from libraries: they are the parameter
`RosterCrypto`, of which nothing is assumed.
-/

namespace Mosh.DeviceLink

/-- Why a device link fails. -/
inductive DeviceLinkErrorKind
  | invalidQr | expired | busy | ineligible | codeMismatch | rejected | connectionLost
  | invalidRoster | storage | unavailable
  deriving DecidableEq, Repr

/-- An error of a device link, with its message. -/
structure DeviceLinkError where
  kind : DeviceLinkErrorKind
  message : String
  deriving DecidableEq, Repr

/-- The error of the kind. -/
def DeviceLinkError.new (kind : DeviceLinkErrorKind) : DeviceLinkError where
  kind := kind
  message :=
    match kind with
    | .invalidQr => "invalid device link"
    | .expired => "device link expired"
    | .busy => "a device link is already active"
    | .ineligible => "only a fresh desktop can join another user"
    | .codeMismatch => "device code does not match"
    | .rejected => "device link declined"
    | .connectionLost => "device link connection interrupted"
    | .invalidRoster => "device authorization is invalid"
    | .storage => "device identity storage failed"
    | .unavailable => "device linking unavailable"

/-- What every failed check of a roster returns. -/
def invalid : DeviceLinkError := .new .invalidRoster

/-- The bytes of a text. -/
def textBytes (s : String) : List UInt8 := s.toUTF8.data.toList

def rosterContext : List UInt8 := textBytes "mosh-device-roster-v1\x00"

def removalContext : List UInt8 := textBytes "mosh-device-roster-remove-v2\x00"

def deviceContext : List UInt8 := textBytes "mosh-device-id-v1\x00"

/-- The version of an entry that adds a device. -/
def rosterVersion : Nat := 1

/-- The version of an entry that removes a device. -/
def removalVersion : Nat := 2

def maxNameChars : Nat := 64

/-- A device of an account. -/
structure DeviceDescriptor where
  deviceId : String
  signingPublicKey : String
  mossPeerId : String
  name : String
  deriving DecidableEq, Repr

/-- An entry of a roster: a device is added or removed, by the signer, on top of the
    chain with the digest `parent`. -/
structure Authorization where
  version : Nat
  parent : Option String
  signer : String
  device : DeviceDescriptor
  signature : String
  deriving DecidableEq, Repr

/-- What the roster uses of its libraries. -/
structure RosterCrypto (Key Signature : Type) where
  hexDecode : String → Option (List UInt8)
  hexEncode : List UInt8 → String
  sha256 : List UInt8 → List UInt8
  keyFromBytes : List UInt8 → Option Key
  keyBytes : Key → List UInt8
  isWeak : Key → Bool
  signatureFromSlice : List UInt8 → Option Signature
  verifyKey : Key → Signature → List UInt8 → Bool
  /-- JSON of the signed content of an entry, and of a chain of entries. -/
  contentJson : Nat × Option String × String × DeviceDescriptor → Option (List UInt8)
  rosterJson : List Authorization → Option (List UInt8)

variable {Key Signature : Type} (c : RosterCrypto Key Signature)

/-- The key with the hex encoding, which has to be the canonical one. -/
def publicKey (hexKey : String) : Except DeviceLinkError Key :=
  match c.hexDecode hexKey with
  | none => .error invalid
  | some bytes =>
    if bytes.length ≠ 32 then .error invalid
    else
      match c.keyFromBytes bytes with
      | none => .error invalid
      | some key =>
        if c.isWeak key || c.hexEncode bytes ≠ hexKey then .error invalid else .ok key

/-- The id of the device with the key. -/
def deviceId (key : Key) : String := c.hexEncode (c.sha256 (deviceContext ++ c.keyBytes key))

/-- Control characters (the category Cc of Unicode). -/
def isControl (ch : Char) : Bool :=
  ch.toNat < 0x20 || (0x7f ≤ ch.toNat && ch.toNat ≤ 0x9f)

/-- A device is well formed: its id is that of its key, its name is short and readable,
    and its peer id is a key. -/
def DeviceDescriptor.validate (d : DeviceDescriptor) : Except DeviceLinkError Unit :=
  match publicKey c d.signingPublicKey with
  | .error e => .error e
  | .ok key =>
    if d.deviceId ≠ DeviceLink.deviceId c key || d.name.isEmpty || maxNameChars < d.name.length ||
        d.name.toList.any isControl then .error invalid
    else
      match publicKey c d.mossPeerId with
      | .error e => .error e
      | .ok _ => .ok ()

/-- The bytes that are signed, for additions and removals in different contexts. -/
def Authorization.bytes (entry : Authorization) : Except DeviceLinkError (List UInt8) :=
  let context : Except DeviceLinkError (List UInt8) :=
    if entry.version = rosterVersion then .ok rosterContext
    else if entry.version = removalVersion then .ok removalContext
    else .error invalid
  match context with
  | .error e => .error e
  | .ok context =>
    match c.contentJson (entry.version, entry.parent, entry.signer, entry.device) with
    | none => .error invalid
    | some json => .ok (context ++ json)

/-- The digest of a chain of entries. -/
def digest (entries : List Authorization) : Except DeviceLinkError String :=
  match c.rosterJson entries with
  | none => .error invalid
  | some json => .ok (c.hexEncode (c.sha256 (rosterContext ++ json)))

/-- The key that has to have signed the entry at an index, of the devices active there. -/
def authority (entries : List Authorization) (index : Nat) (entry : Authorization)
    (devices : List DeviceDescriptor) : Except DeviceLinkError Key :=
  if entry.version ≠ rosterVersion ∧ entry.version ≠ removalVersion then .error invalid
  else if index = 0 then
    if entry.version ≠ rosterVersion ∨ entry.parent.isSome ∨
        entry.signer ≠ entry.device.deviceId then .error invalid
    else publicKey c entry.device.signingPublicKey
  else
    match digest c (entries.take index) with
    | .error e => .error e
    | .ok parent =>
      if entry.parent ≠ some parent then .error invalid
      else
        match devices.find? fun d => d.deviceId = entry.signer with
        | none => .error invalid
        | some signer => publicKey c signer.signingPublicKey

/-- The signature of an entry, checked with a key. -/
def verifySignature (key : Key) (entry : Authorization) : Except DeviceLinkError Unit :=
  match c.hexDecode entry.signature with
  | none => .error invalid
  | some raw =>
    match c.signatureFromSlice raw with
    | none => .error invalid
    | some signature =>
      match entry.bytes c with
      | .error e => .error e
      | .ok bytes => if c.verifyKey key signature bytes then .ok () else .error invalid

/-- The devices after an entry that is checked. -/
def changeDevices (entry : Authorization) (devices : List DeviceDescriptor) :
    Except DeviceLinkError (List DeviceDescriptor) :=
  if entry.version = removalVersion then
    if entry.signer = entry.device.deviceId ∨ entry.device ∉ devices then .error invalid
    else .ok (devices.filter fun d => d.deviceId ≠ entry.device.deviceId)
  else if devices.any fun d =>
      d.deviceId = entry.device.deviceId || d.mossPeerId = entry.device.mossPeerId then
    .error invalid
  else .ok (devices ++ [entry.device])

/-- One turn of the loop over the entries. -/
def verifyEntry (entries : List Authorization) (index : Nat) (entry : Authorization)
    (devices : List DeviceDescriptor) : Except DeviceLinkError (List DeviceDescriptor) :=
  match entry.device.validate c with
  | .error e => .error e
  | .ok () =>
    match authority c entries index entry devices with
    | .error e => .error e
    | .ok key =>
      match verifySignature c key entry with
      | .error e => .error e
      | .ok () => changeDevices entry devices

/-- The loop over the entries, from an index on. -/
def verifyLoop (entries : List Authorization) :
    Nat → List Authorization → List DeviceDescriptor →
      Except DeviceLinkError (List DeviceDescriptor)
  | _, [], devices => .ok devices
  | index, entry :: rest, devices =>
    match verifyEntry c entries index entry devices with
    | .error e => .error e
    | .ok devices => verifyLoop entries (index + 1) rest devices

/-- The active devices of a roster, if all of its entries hold. -/
def verifyDevices (entries : List Authorization) :
    Except DeviceLinkError (List DeviceDescriptor) :=
  if entries.isEmpty then .error invalid else verifyLoop c entries 0 entries []

/-! ## What an accepted entry is -/

/-- The devices after an entry: an addition appends its device, and a removal deletes the
    device with its id. -/
def change (devices : List DeviceDescriptor) (entry : Authorization) : List DeviceDescriptor :=
  if entry.version = removalVersion then
    devices.filter fun d => d.deviceId ≠ entry.device.deviceId
  else devices ++ [entry.device]

/-- The devices that the entries add and do not remove. -/
def activeDevices (entries : List Authorization) : List DeviceDescriptor :=
  entries.foldl change []

/-- The entry carries a valid signature by the key of the device `d`. -/
def SignedBy (d : DeviceDescriptor) (entry : Authorization) : Prop :=
  ∃ key, publicKey c d.signingPublicKey = .ok key ∧ verifySignature c key entry = .ok ()

/-- The entry stands at the start of a roster: an addition that is signed by the device
    itself. -/
structure Founds (entry : Authorization) : Prop where
  version : entry.version = rosterVersion
  parent : entry.parent = none
  signer : entry.signer = entry.device.deviceId
  signed : SignedBy c entry.device entry

/-- The entry follows on the entries `pre`: it names their digest, and is signed by one of
    the devices active there. -/
structure Follows (pre : List Authorization) (devices : List DeviceDescriptor)
    (entry : Authorization) : Prop where
  parent : ∃ d, digest c pre = .ok d ∧ entry.parent = some d
  signed : ∃ d ∈ devices, d.deviceId = entry.signer ∧ SignedBy c d entry

variable {c} {entries : List Authorization} {index : Nat} {entry : Authorization}
  {devices devices' : List DeviceDescriptor}

/-- The authority for the first entry. -/
theorem authority_zero {key : Key} (h : authority c entries 0 entry devices = .ok key) :
    entry.version = rosterVersion ∧ entry.parent = none ∧ entry.signer = entry.device.deviceId ∧
      publicKey c entry.device.signingPublicKey = .ok key := by
  rw [authority] at h
  split at h
  · cases h
  · rw [if_pos rfl] at h
    split at h
    · cases h
    · next hn =>
      push Not at hn
      exact ⟨hn.1, by simpa using hn.2.1, hn.2.2, h⟩

/-- The authority for a later entry. -/
theorem authority_succ {key : Key} (hindex : index ≠ 0)
    (h : authority c entries index entry devices = .ok key) :
    (∃ d, digest c (entries.take index) = .ok d ∧ entry.parent = some d) ∧
      ∃ d ∈ devices, d.deviceId = entry.signer ∧ publicKey c d.signingPublicKey = .ok key := by
  rw [authority, if_neg hindex] at h
  split at h
  · cases h
  · split at h
    · cases h
    · next d hd =>
      split at h
      · cases h
      · next hp =>
        split at h
        · cases h
        · next signer hs =>
          refine ⟨⟨d, hd, not_not.1 hp⟩, signer, List.mem_of_find?_eq_some hs, ?_, h⟩
          simpa using List.find?_some hs

/-- What a change of the devices checks, and what it does. -/
theorem changeDevices_eq_ok (h : changeDevices entry devices = .ok devices') :
    devices' = change devices entry ∧
      (entry.version = removalVersion → entry.signer ≠ entry.device.deviceId) ∧
      (entry.version ≠ removalVersion → ∀ d ∈ devices,
        d.deviceId ≠ entry.device.deviceId ∧ d.mossPeerId ≠ entry.device.mossPeerId) := by
  rw [changeDevices] at h
  split at h
  · next hv =>
    split at h
    · cases h
    · next hn =>
      push Not at hn
      exact ⟨by rw [← Except.ok.inj h, change, if_pos hv], fun _ => hn.1,
        fun hne => absurd hv hne⟩
  · next hv =>
    split at h
    · cases h
    · next hn =>
      refine ⟨by rw [← Except.ok.inj h, change, if_neg hv], fun he => absurd he hv, fun _ => ?_⟩
      intro d hd
      simp only [List.any_eq_true, not_exists, not_and, Bool.or_eq_true, decide_eq_true_eq,
        not_or] at hn
      exact hn d hd

/-- What an accepted entry is. -/
theorem verifyEntry_eq_ok (h : verifyEntry c entries index entry devices = .ok devices') :
    changeDevices entry devices = .ok devices' ∧
      (index = 0 → Founds c entry) ∧
      (index ≠ 0 → Follows c (entries.take index) devices entry) := by
  rw [verifyEntry] at h
  split at h
  · cases h
  · split at h
    · cases h
    · next key hkey =>
      split at h
      · cases h
      · next hsig =>
        refine ⟨h, fun h0 => ?_, fun hne => ?_⟩
        · subst h0
          obtain ⟨hv, hp, hs, hk⟩ := authority_zero hkey
          exact ⟨hv, hp, hs, key, hk, hsig⟩
        · obtain ⟨hp, d, hd, hid, hk⟩ := authority_succ hne hkey
          exact ⟨hp, d, hd, hid, key, hk, hsig⟩

/-! ## The loop -/

/-- An entry is judged by the entries before it. -/
theorem verifyEntry_congr {entries' : List Authorization}
    (h : entries.take index = entries'.take index) :
    verifyEntry c entries index entry devices = verifyEntry c entries' index entry devices := by
  rw [verifyEntry, verifyEntry, authority, authority, h]

/-- The loop over two parts, one after the other. -/
theorem verifyLoop_append {xs ys : List Authorization}
    (h : verifyLoop c entries index xs devices = .ok devices') :
    verifyLoop c entries index (xs ++ ys) devices =
      verifyLoop c entries (index + xs.length) ys devices' := by
  induction xs generalizing index devices with
  | nil => rw [← Except.ok.inj h]; rfl
  | cons x xs ih =>
    rw [verifyLoop] at h
    rw [List.cons_append, verifyLoop]
    split at h
    · cases h
    · next next hx => rw [ih h, List.length_cons, Nat.add_assoc, Nat.add_comm 1]

/-- If the loop ends well, so does the first part of it. -/
theorem verifyLoop_of_append {xs ys : List Authorization}
    (h : verifyLoop c entries index (xs ++ ys) devices = .ok devices') :
    ∃ next, verifyLoop c entries index xs devices = .ok next := by
  induction xs generalizing index devices with
  | nil => exact ⟨devices, rfl⟩
  | cons x xs ih =>
    rw [List.cons_append, verifyLoop] at h
    rw [verifyLoop]
    split at h
    · cases h
    · exact ih h

/-- The loop does not look at the entries behind those it goes through. -/
theorem verifyLoop_prefix (pre xs rest : List Authorization) (devices : List DeviceDescriptor) :
    verifyLoop c (pre ++ xs ++ rest) pre.length xs devices =
      verifyLoop c (pre ++ xs) pre.length xs devices := by
  induction xs generalizing pre devices with
  | nil => rfl
  | cons x xs ih =>
    rw [verifyLoop, verifyLoop, verifyEntry_congr (by simp : _ = (pre ++ x :: xs).take pre.length)]
    split
    · rfl
    · next next _ => simpa using ih (pre ++ [x]) next

/-- A roster of one entry. -/
theorem verifyDevices_singleton (h : verifyDevices c [entry] = .ok devices) :
    verifyEntry c [entry] 0 entry [] = .ok devices := by
  rw [verifyDevices, if_neg (by simp), verifyLoop] at h
  split at h
  · cases h
  · next next hx => rwa [← Except.ok.inj h]

/-- A roster in two parts: the first part is a roster, and the second one is checked with its
    devices. -/
theorem verifyDevices_append {pre xs : List Authorization} (hpre : pre ≠ [])
    (h : verifyDevices c (pre ++ xs) = .ok devices) :
    ∃ before, verifyDevices c pre = .ok before ∧
      verifyLoop c (pre ++ xs) pre.length xs before = .ok devices := by
  rw [verifyDevices, if_neg (by simp [hpre])] at h
  obtain ⟨before, hbefore⟩ := verifyLoop_of_append h
  rw [verifyLoop_append hbefore, Nat.zero_add] at h
  refine ⟨before, ?_, h⟩
  have hp := verifyLoop_prefix (c := c) [] pre xs []
  rw [verifyDevices, if_neg (by simpa using hpre), ← hbefore]
  exact hp.symm

/-- A roster with a last entry: those before it are a roster, and the last one is checked
    with its devices. -/
theorem verifyDevices_concat {pre : List Authorization} (hpre : pre ≠ [])
    (h : verifyDevices c (pre ++ [entry]) = .ok devices) :
    ∃ before, verifyDevices c pre = .ok before ∧
      verifyEntry c (pre ++ [entry]) pre.length entry before = .ok devices := by
  obtain ⟨before, hbefore, h⟩ := verifyDevices_append hpre h
  refine ⟨before, hbefore, ?_⟩
  rw [verifyLoop] at h
  split at h
  · cases h
  · next next hx => rwa [← Except.ok.inj h]

/-! ## What an accepted roster is -/

/-- An accepted roster. -/
structure Sound (c : RosterCrypto Key Signature) (entries : List Authorization)
    (devices : List DeviceDescriptor) : Prop where
  /-- There is a device left. -/
  nonempty : devices ≠ []
  /-- No two devices share an id or a peer id. -/
  ids : (devices.map (·.deviceId)).Nodup
  peers : (devices.map (·.mossPeerId)).Nodup
  /-- Every part of the chain from its start on is accepted. -/
  pre : ∀ pre, pre ≠ [] → pre <+: entries → ∃ before, verifyDevices c pre = .ok before
  /-- The first device is added by itself. -/
  founded : ∃ entry rest, entries = entry :: rest ∧ Founds c entry
  /-- Every later entry names the digest of the chain before it, and is signed by a device that
      is active there. -/
  follows : ∀ i entry, 0 < i → entries[i]? = some entry →
    ∃ before, verifyDevices c (entries.take i) = .ok before ∧
      Follows c (entries.take i) before entry
  /-- No device removes itself. -/
  removal : ∀ entry ∈ entries, entry.version = removalVersion →
    entry.signer ≠ entry.device.deviceId
  /-- The devices are those added and not removed. -/
  active : devices = activeDevices entries

/-- The devices stay distinct. -/
theorem changeDevices_nodup {β : Type} (f : DeviceDescriptor → β)
    (hf : entry.version ≠ removalVersion → ∀ d ∈ devices, f d ≠ f entry.device)
    (h : (devices.map f).Nodup) : ((change devices entry).map f).Nodup := by
  rw [change]
  split
  · exact h.sublist (List.filter_sublist.map f)
  · next hv =>
    rw [List.map_append, List.map_singleton, List.nodup_append]
    refine ⟨h, List.nodup_singleton _, ?_⟩
    intro a ha b hb
    obtain ⟨d, hd, rfl⟩ := List.mem_map.1 ha
    rw [List.mem_singleton.1 hb]
    exact hf hv d hd

/-- A device is left: after a removal, its signer. -/
theorem change_ne_nil (hsigner : entry.version = removalVersion →
      ∃ d ∈ devices, d.deviceId = entry.signer)
    (hself : entry.version = removalVersion → entry.signer ≠ entry.device.deviceId) :
    change devices entry ≠ [] := by
  rw [change]
  split
  · next hv =>
    obtain ⟨d, hd, hid⟩ := hsigner hv
    refine List.ne_nil_of_mem (List.mem_filter.2 ⟨hd, ?_⟩)
    rw [hid]
    exact decide_eq_true (hself hv)
  · simp

/-- The first entry makes a sound roster. -/
theorem sound_singleton (h : verifyDevices c [entry] = .ok devices) : Sound c [entry] devices := by
  obtain ⟨hchange, hfounds, -⟩ := verifyEntry_eq_ok (verifyDevices_singleton h)
  have hf := hfounds rfl
  obtain ⟨rfl, hself, -⟩ := changeDevices_eq_ok hchange
  have hv : entry.version ≠ removalVersion := by rw [hf.version]; decide
  refine ⟨change_ne_nil (fun he => absurd he hv) hself, ?_, ?_, ?_, ⟨entry, [], rfl, hf⟩, ?_, ?_,
    rfl⟩
  · exact changeDevices_nodup _ (fun _ _ hd => absurd hd List.not_mem_nil) List.nodup_nil
  · exact changeDevices_nodup _ (fun _ _ hd => absurd hd List.not_mem_nil) List.nodup_nil
  · intro pre hne hpre
    obtain rfl | hnil := List.prefix_concat_iff.1 (show pre <+: [] ++ [entry] from hpre)
    · exact ⟨_, h⟩
    · exact absurd (List.prefix_nil.1 hnil) hne
  · intro i e hi he
    obtain ⟨hlt, -⟩ := List.getElem?_eq_some_iff.1 he
    rw [List.length_singleton] at hlt
    omega
  · intro e he hr
    rw [List.mem_singleton.1 he] at hr ⊢
    exact hself hr

/-- Another entry keeps a roster sound. -/
theorem Sound.concat {pre : List Authorization} {before : List DeviceDescriptor}
    (hpre : pre ≠ []) (hs : Sound c pre before) (hbefore : verifyDevices c pre = .ok before)
    (hentry : verifyEntry c (pre ++ [entry]) pre.length entry before = .ok devices)
    (h : verifyDevices c (pre ++ [entry]) = .ok devices) : Sound c (pre ++ [entry]) devices := by
  obtain ⟨hchange, -, hfollows⟩ := verifyEntry_eq_ok hentry
  have hf := hfollows (by simpa using hpre)
  rw [List.take_left] at hf
  obtain ⟨rfl, hself, hfresh⟩ := changeDevices_eq_ok hchange
  obtain ⟨d, hd, hid, -⟩ := hf.signed
  refine ⟨change_ne_nil (fun _ => ⟨d, hd, hid⟩) hself, ?_, ?_, ?_, ?_, ?_, ?_, ?_⟩
  · exact changeDevices_nodup _ (fun hv d hd => (hfresh hv d hd).1) hs.ids
  · exact changeDevices_nodup _ (fun hv d hd => (hfresh hv d hd).2) hs.peers
  · intro p hne hp
    obtain rfl | hp := List.prefix_concat_iff.1 hp
    · exact ⟨_, h⟩
    · exact hs.pre p hne hp
  · obtain ⟨e, rest, rfl, he⟩ := hs.founded
    exact ⟨e, rest ++ [entry], rfl, he⟩
  · intro i e hi he
    by_cases hlt : i < pre.length
    · rw [List.getElem?_append_left hlt] at he
      rw [List.take_append_of_le_length hlt.le]
      exact hs.follows i e hi he
    · have hi : i = pre.length := by
        obtain ⟨hle, -⟩ := List.getElem?_eq_some_iff.1 he
        rw [List.length_append, List.length_singleton] at hle
        omega
      subst hi
      rw [List.getElem?_concat_length, Option.some.injEq] at he
      subst he
      rw [List.take_left]
      exact ⟨before, hbefore, hf⟩
  · intro e he hr
    obtain he | he := List.mem_append.1 he
    · exact hs.removal e he hr
    · rw [List.mem_singleton.1 he] at hr ⊢
      exact hself hr
  · rw [hs.active, activeDevices, activeDevices, List.foldl_append]
    rfl

/-- What the loop accepts is sound, entry by entry. -/
theorem sound_of_accepted (entries : List Authorization) (devices : List DeviceDescriptor)
    (h : verifyDevices c entries = .ok devices) : Sound c entries devices := by
  induction entries using List.reverseRecOn generalizing devices with
  | nil => cases h
  | append_singleton pre entry ih =>
    by_cases hpre : pre = []
    · subst hpre
      exact sound_singleton h
    · obtain ⟨before, hbefore, hentry⟩ := verifyDevices_concat hpre h
      exact Sound.concat hpre (ih before hbefore) hbefore hentry h

/-- An accepted roster is sound. -/
theorem verifyDevices_sound (entries : List Authorization) (devices : List DeviceDescriptor)
    (h : verifyDevices c entries = .ok devices) : Sound c entries devices :=
  sound_of_accepted entries devices h

/-! ### An account with two devices -/

/-- A digit of the hex encoding. -/
def hexDigit (n : Nat) : Char := Char.ofNat (if n < 10 then 48 + n else 87 + n)

/-- The value of a digit, in either case. -/
def hexValue (digit : UInt8) : Option Nat :=
  let n := digit.toNat
  if 48 ≤ n ∧ n ≤ 57 then some (n - 48)
  else if 97 ≤ n ∧ n ≤ 102 then some (n - 87)
  else if 65 ≤ n ∧ n ≤ 70 then some (n - 55)
  else none

/-- The bytes of pairs of digits. -/
def hexBytes : List UInt8 → Option (List UInt8)
  | [] => some []
  | [_] => none
  | hi :: lo :: rest =>
    match hexValue hi, hexValue lo, hexBytes rest with
    | some h, some l, some bytes => some (UInt8.ofNat (16 * h + l) :: bytes)
    | _, _, _ => none

/-- The hex encoding of bytes. -/
def hexText (bytes : List UInt8) : String :=
  String.ofList (bytes.flatMap fun b => [hexDigit (b.toNat / 16), hexDigit (b.toNat % 16)])

/-- The text of what an entry says. -/
def entryText (version : Nat) (parent : Option String) (signer : String)
    (device : DeviceDescriptor) : String :=
  ",".intercalate [version.repr, parent.getD "null", signer, device.deviceId,
    device.signingPublicKey, device.mossPeerId, device.name]

/-- A checksum of bytes. -/
def checksum (bytes : List UInt8) : List UInt8 :=
  let n := bytes.foldl (fun sum b => (31 * sum + b.toNat) % 2147483647) 7
  [UInt8.ofNat (n / 65536), UInt8.ofNat (n / 256), UInt8.ofNat n]

/-- Cryptography for a small account: a hash is a checksum, and a signature is the key and the
    checksum of what it signs. -/
def plainCrypto : RosterCrypto (List UInt8) (List UInt8) where
  hexDecode s := hexBytes (textBytes s)
  hexEncode := hexText
  sha256 := checksum
  keyFromBytes bytes := some bytes
  keyBytes key := key
  isWeak key := key.all (· = 0)
  signatureFromSlice bytes := some bytes
  verifyKey key signature bytes := signature = key ++ checksum bytes
  contentJson content :=
    some (textBytes (entryText content.1 content.2.1 content.2.2.1 content.2.2.2))
  rosterJson entries :=
    some (textBytes (";".intercalate (entries.map fun e =>
      entryText e.version e.parent e.signer e.device ++ "," ++ e.signature)))

/-- The device with a key of equal bytes. -/
def plainDevice (b : UInt8) : DeviceDescriptor where
  deviceId := deviceId plainCrypto (List.replicate 32 b)
  signingPublicKey := hexText (List.replicate 32 b)
  mossPeerId := hexText (List.replicate 32 b)
  name := "Desktop"

/-- The entry that a device signs on top of a chain. -/
def plainEntry (version : Nat) (pre : List Authorization) (b : UInt8)
    (device : DeviceDescriptor) : Authorization :=
  let parent := if pre.isEmpty then none else (digest plainCrypto pre).toOption
  let entry : Authorization := ⟨version, parent, (plainDevice b).deviceId, device, ""⟩
  { entry with
    signature :=
      hexText (List.replicate 32 b ++ checksum ((entry.bytes plainCrypto).toOption.getD [])) }

/-- The first device adds itself and the second one, which removes the first one. -/
def plainRoster : List Authorization :=
  let e₁ := plainEntry rosterVersion [] 1 (plainDevice 1)
  let e₂ := plainEntry rosterVersion [e₁] 1 (plainDevice 2)
  [e₁, e₂, plainEntry removalVersion [e₁, e₂] 2 (plainDevice 1)]

/-- The second device is left, and the roster is sound. -/
theorem verifyDevices_sound_plain :
    verifyDevices plainCrypto plainRoster = .ok [plainDevice 2] ∧
      Sound plainCrypto plainRoster [plainDevice 2] := by
  have h : verifyDevices plainCrypto plainRoster = .ok [plainDevice 2] := by decide +kernel
  exact ⟨h, verifyDevices_sound plainRoster [plainDevice 2] h⟩

end Mosh.DeviceLink
