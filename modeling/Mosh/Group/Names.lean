import Mosh.Conversation.ChatNames
import Mosh.Conversation.MessageLog
import Mosh.Group.OrgGate
import Mosh.Library.Checked

/-!
# The shared name of a group

A group has a name that all members see (`names/`). An admin renames it with a signed
certificate, whose revision orders it among all others: the epoch and the version of the
roster at which it was signed, a counter, and the admin. Members take the certificate with
the greatest revision. The admin shows its own name at once, as *pending* until some member
acknowledges it; should it have ceased to be an admin by then, it goes back to what it had.

* `NamedGroup.perform`: all that moves the name of a session, and what it rests on;
* `NamedGroup.Sound`: what holds of a session along every run: its label is the name of the
  current certificate, whose revision is not ahead of the own epoch and roster;
* `PendingSince`: where a pending rename began, which is what a rejection goes back to;
* `Settled`: of the certificates that were accepted, the current one is the greatest;
* `shared_name_converges`: names only go forward but for a rejection, which restores what
  was before the first pending rename, and members that accepted the same certificates
  show the same name.
-/

namespace Mosh.Group

open Conversation (GroupMessage MessageDeliveryStatus MessageLog validateChatName)
open DeviceLink (hexText)

variable {Proof : Type}

/-! ## Certificates -/

/-- When a name was given, and by whom. -/
structure NameRevision where
  epoch : Nat
  rosterVersion : Nat
  counter : Fin (2 ^ 64)
  actor : String
  deriving DecidableEq, Repr

/-- Revisions are ordered by their fields, in this order. -/
def NameRevision.key (r : NameRevision) : Nat ×ₗ Nat ×ₗ Fin (2 ^ 64) ×ₗ String :=
  toLex (r.epoch, toLex (r.rosterVersion, toLex (r.counter, r.actor)))

instance : LinearOrder NameRevision := LinearOrder.lift' NameRevision.key fun a b h => by
  obtain ⟨epoch, rosterVersion, counter, actor⟩ := a
  obtain ⟨rfl, h⟩ := Prod.mk.inj (toLex_inj.1 h)
  obtain ⟨rfl, h⟩ := Prod.mk.inj (toLex_inj.1 h)
  obtain ⟨rfl, rfl⟩ := Prod.mk.inj (toLex_inj.1 h)
  rfl

/-- A revision of the same or a later epoch and roster with a greater counter is greater. -/
theorem NameRevision.lt_of_le {a b : NameRevision} (hepoch : a.epoch ≤ b.epoch)
    (hroster : a.rosterVersion ≤ b.rosterVersion) (hcounter : a.counter < b.counter) :
    a < b := by
  refine (Prod.Lex.lt_iff (x := a.key) (y := b.key)).2 ?_
  obtain h | h := hepoch.lt_or_eq
  · exact .inl h
  · refine .inr ⟨h, Prod.Lex.lt_iff.2 ?_⟩
    obtain h | h := hroster.lt_or_eq
    · exact .inl h
    · exact .inr ⟨h, Prod.Lex.lt_iff.2 (.inl hcounter)⟩

/-- A name given to a group. -/
structure NameChange where
  groupId : String
  revision : NameRevision
  name : String
  fromDevice : String
  sentAtMs : Nat
  deriving DecidableEq, Repr

/-- A change with the proof of its sender. -/
structure NameCertificate (Proof : Type) where
  change : NameChange
  proof : Proof
  deriving DecidableEq

/-- What a session keeps about the name of its group. -/
structure GroupNames (Proof : Type) where
  current : Option (NameCertificate Proof) := none
  /-- What was current when the pending rename began. -/
  previous : Option (NameCertificate Proof) := none
  previousLabel : Option String := none
  pending : Bool := false
  error : Option String := none

/-- Why an operation on the name fails. -/
inductive NameError
  | group (error : PrivateGroupError)
  | invalidName (error : String)
  | renameDenied
  deriving DecidableEq, Repr

/-- The author of an authenticated message: the peer and the key of its leaf. -/
structure NameSender where
  peerId : String
  mlsSigner : List UInt8
  deriving DecidableEq, Repr

/-- Proofs of senders, in the context of the group. -/
structure NameAuth (Proof : Type) where
  /-- Sign a change. -/
  sign : NameChange → Except NameError Proof
  /-- Decode and verify a proof, and decode the change it authenticates. -/
  verify : Proof → Except NameError (NameSender × NameChange)

namespace NameChange

def eventId (change : NameChange) : String :=
  s!"group-name:{change.revision.epoch}:{change.revision.rosterVersion}:" ++
    s!"{change.revision.counter.val}:{change.revision.actor}"

/-- The message that tells of a change. -/
def event (change : NameChange) (peerId : String) (pending : Bool) : GroupMessage where
  fromDevice := change.fromDevice
  fromFingerprint := peerId
  body := ""
  messageId := some change.eventId
  sentAtMs := some change.sentAtMs
  delivery := { deliveryStatus := if pending then some .queued else none }
  nameChange := some change.name

end NameChange

/-! ## The session -/

/-- What the members of a group send each other about its name. -/
inductive NameMessage (Proof : Type)
  | request
  | state (certificate : NameCertificate Proof)
  | ack (revision : NameRevision)

inductive NameOperation
  | request | state | ack
  deriving DecidableEq, Repr

/-- A control frame that a session publishes. -/
inductive NameFrame (Proof : Type)
  | metadata (operation : NameOperation) (epoch : Nat) (message : NameMessage Proof)
  | resyncRequest (fromFingerprint : String) (haveEpoch : Nat)

/-- Where a session of an organization's group takes its authority from: its own peer id
    and the roster in the store. -/
structure OrgAuthority where
  ownPeerId : Option String
  roster : Option OrgRoster
  deriving DecidableEq, Repr

/-- A session of a group, as far as the name is concerned. The epoch is `none` before the
    group exists. -/
structure NamedGroup (Proof : Type) where
  groupId : String
  displayName : String
  signer : List UInt8
  joined : Bool
  epoch : Option Nat
  memberCount : Nat
  isAdmin : Bool
  currentAdminFingerprint : String
  org : Option OrgAuthority
  /-- Whether there is a store. -/
  persistence : Bool
  names : GroupNames Proof
  label : Option String
  messages : MessageLog GroupMessage
  namesLastSync : Option Nat
  /-- What was published so far. -/
  sent : List (NameFrame Proof)

/-- What is refused during a call: the write, and some frames. -/
structure NameFaults (Proof : Type) where
  write : Option String
  publish : NameFrame Proof → Option PrivateGroupError

namespace NamedGroup

variable (auth : NameAuth Proof) (g : NamedGroup Proof) (f : NameFaults Proof)

/-- The hex encoding in capitals. -/
def hexUpper (bytes : List UInt8) : String := (hexText bytes).toUpper

/-- The fingerprint is taken from the first 16 bytes of the key. -/
def fingerprint : String := hexUpper (g.signer.take 16)

def ownRosterVersion : Option Nat := (g.org.bind (·.roster)).map (·.version)

def tryActingAdmin : Except NameError Bool :=
  match g.org with
  | none => .ok g.isAdmin
  | some org =>
    match org.ownPeerId, org.roster with
    | some id, some roster => .ok (roster.roleIsAdmin id)
    | _, _ => .error (.group .notReady)

def actingAdmin : Bool :=
  match g.tryActingAdmin with
  | .ok admin => admin
  | .error _ => false

def nameAdmin (sender : NameSender) : Bool :=
  match g.org with
  | some org => org.roster.any (·.roleIsAdmin sender.peerId)
  | none => g.currentAdminFingerprint.toList.isPrefixOf (hexUpper sender.mlsSigner).toList

/-! ### Storage -/

/-- The least and the greatest number of 64 bits. -/
def u64Zero : Fin (2 ^ 64) := ⟨0, Nat.two_pow_pos 64⟩

def u64Max : Fin (2 ^ 64) := ⟨2 ^ 64 - 1, Nat.sub_lt (Nat.two_pow_pos 64) Nat.one_pos⟩

def verifyName (certificate : NameCertificate Proof) : Except NameError NameSender :=
  match auth.verify certificate.proof with
  | .error e => .error e
  | .ok (sender, authenticated) =>
    let change := certificate.change
    let invalid := .error (.group (.codec "invalid name certificate"))
    if authenticated ≠ change ∨ change.groupId ≠ g.groupId ∨
        change.revision.actor ≠ hexText sender.mlsSigner ∨ change.revision.counter = u64Zero ∨
        change.revision.counter = u64Max then invalid
    else
      match validateChatName change.name with
      | .error e => .error (.invalidName e.message)
      | .ok name => if name ≠ change.name then invalid else .ok sender

/-- The queued messages about names, those with an id if one is given, as sent or, with an
    error, as failed. -/
def queuedNameEvents (id : Option String) (error : Option String) : List GroupMessage :=
  (g.messages.messages.filter fun m =>
      m.nameChange.isSome && m.delivery.deliveryStatus = some .queued &&
        id.all fun id => m.messageId = some id).map fun m =>
    { m with
      delivery :=
        { m.delivery with
          deliveryStatus := some (if error.isSome then .failed else .sent)
          deliveryError := error } }

/-- Write the record and the messages in one transaction. -/
def putGroupName (events : List GroupMessage) : Except NameError Unit :=
  if events.any (·.messageId = none) then
    .error (.group (.persistence "persistence json error: missing name event id"))
  else
    match f.write with
    | some e => .error (.group (.persistence e))
    | none => .ok ()

/-- Write names and label, and only then take them. -/
def saveNames (names : GroupNames Proof) (label : Option String)
    (events : List GroupMessage) : Except NameError (NamedGroup Proof) :=
  if !g.persistence then
    .error (.group (.persistence "name changes require encrypted storage"))
  else
    match putGroupName f events with
    | .error e => .error e
    | .ok () => .ok { g with names, label }

def upsertAll (events : List GroupMessage) : NamedGroup Proof :=
  { g with messages := events.foldl MessageLog.upsert g.messages }

/-- The names once a certificate is installed. A rename that is to be pending keeps what was
    there, unless one is pending already. -/
def installedNames (certificate : NameCertificate Proof) (pending : Bool) : GroupNames Proof :=
  let names :=
    if pending && !g.names.pending then
      { g.names with
        previous := g.names.current
        previousLabel := g.label }
    else g.names
  { names with
    current := some certificate
    pending
    error := none }

def installName (certificate : NameCertificate Proof) (pending : Bool) :
    Except NameError (NamedGroup Proof) :=
  match g.verifyName auth certificate with
  | .error e => .error e
  | .ok sender =>
    let event := certificate.change.event sender.peerId pending
    let events := g.queuedNameEvents none (some "superseded") ++ [event]
    (g.saveNames f (g.installedNames certificate pending) (some certificate.change.name)
      events).map (·.upsertAll events)

/-- The names and the label once the pending rename is acknowledged or rejected. -/
def finishedNames (rejected : Bool) : GroupNames Proof × Option String :=
  if rejected then
    ({ g.names with
        current := g.names.previous
        previous := none
        previousLabel := none
        pending := false
        error := some "permission_changed" }, g.names.previousLabel)
  else
    ({ g.names with
        previous := none
        previousLabel := none
        pending := false }, g.label)

def finishPendingName (rejected : Bool) : Except NameError (NamedGroup Proof) :=
  let id := g.names.current.map (·.change.eventId)
  let events := g.queuedNameEvents id (if rejected then some "permission_changed" else none)
  (g.saveNames f (g.finishedNames rejected).1 (g.finishedNames rejected).2 events).map
    (·.upsertAll events)

/-! ### Operations -/

/-- The counter of the next rename. -/
def nextCounter : Option (Fin (2 ^ 64)) :=
  let counter := (g.names.current.map (·.change.revision.counter)).getD u64Zero
  if h : counter.val + 1 < u64Max.val then some ⟨counter.val + 1, h.trans u64Max.isLt⟩ else none

/-- The change that a rename signs, with a counter. -/
def nextChange (epoch : Nat) (counter : Fin (2 ^ 64)) (name : String) (now : Nat) : NameChange where
  groupId := g.groupId
  revision :=
    { epoch
      rosterVersion := g.ownRosterVersion.getD 0
      counter
      actor := hexText g.signer }
  name
  fromDevice := g.displayName
  sentAtMs := now

/-- Sign a new name and install it: the rest of a rename once it is known that there is
    something to do. -/
def signName (name : String) (now : Nat) : Except NameError (NamedGroup Proof) := do
  let counter ← Checked.getOr (.group .notReady) g.nextCounter
  let epoch ← Checked.getOr (.group .notReady) g.epoch
  let change := g.nextChange epoch counter name now
  let proof ← auth.sign change
  let g ← g.installName auth f { change, proof } (1 < g.memberCount)
  return { g with namesLastSync := none }

/-- Rename the group. The clock shows `now`. -/
def rename (name : String) (now : Nat) : Except NameError (NamedGroup Proof) := do
  let name ← (validateChatName name).mapError (.invalidName ·.message)
  Checked.check (.group .notReady) (g.joined && g.epoch.isSome)
  Checked.check .renameDenied (← g.tryActingAdmin)
  if g.label = some name then return g else g.signName auth f name now

def publishControl (frame : NameFrame Proof) : NamedGroup Proof × Except NameError Unit :=
  match f.publish frame with
  | some e => (g, .error (.group e))
  | none => ({ g with sent := g.sent ++ [frame] }, .ok ())

def publishNameMessage (operation : NameOperation) (message : NameMessage Proof) :
    NamedGroup Proof × Except NameError Unit :=
  match g.epoch with
  | none => (g, .error (.group .notReady))
  | some epoch => g.publishControl f (.metadata operation epoch message)

/-- Check the certificate of another member and install it if it is newer: what
    `accept_name_state` does before it acknowledges. -/
def takeNameState (certificate : NameCertificate Proof) : Except NameError (NamedGroup Proof) :=
  let revision := certificate.change.revision
  if g.epoch.getD 0 < revision.epoch ∨ g.ownRosterVersion.getD 0 < revision.rosterVersion then
    .error (.group .notReady)
  else if g.names.current.any fun c =>
      c.change.revision = revision ∧ c.change ≠ certificate.change then
    .error (.group (.codec "conflicting name certificate"))
  else if g.names.current.all (·.change.revision < revision) then
    (g.installName auth f certificate false).map ({ · with namesLastSync := none })
  else .ok g

def acceptNameState (certificate : NameCertificate Proof) :
    NamedGroup Proof × Except NameError Unit :=
  match g.takeNameState auth f certificate with
  | .error e => (g, .error e)
  | .ok g =>
    let revision := certificate.change.revision
    if g.names.current.any (·.change.revision = revision) then
      g.publishNameMessage f .ack (.ack revision)
    else (g, .ok ())

/-- The state after an operation that changes nothing when it fails. -/
def orKeep (result : Except NameError (NamedGroup Proof)) :
    NamedGroup Proof × Except NameError Unit :=
  match result with
  | .error e => (g, .error e)
  | .ok g => (g, .ok ())

/-- A member acknowledges a revision. -/
def acceptNameAck (revision : NameRevision) : NamedGroup Proof × Except NameError Unit :=
  if g.names.pending && g.names.current.any (·.change.revision = revision) then
    match g.tryActingAdmin with
    | .error e => (g, .error e)
    | .ok admin => g.orKeep (g.finishPendingName f !admin)
  else (g, .ok ())

/-- Handle what a member sent about the name. The message is what decrypting and decoding
    the frame gave. -/
def acceptNameMetadata (operation : NameOperation) (epoch : Nat)
    (opened : Except NameError (NameMessage Proof)) (sender : NameSender) :
    NamedGroup Proof × Except NameError Unit :=
  if sender.mlsSigner = g.signer then (g, .ok ())
  else if operation = .state ∧ g.nameAdmin sender = false then (g, .error .renameDenied)
  else if g.epoch ≠ some epoch then (g, .error (.group .notReady))
  else
    match operation, opened with
    | _, .error e => (g, .error e)
    | .request, .ok .request =>
      match g.actingAdmin, g.names.current with
      | true, some certificate => g.publishNameMessage f .state (.state certificate)
      | _, _ => (g, .ok ())
    | .state, .ok (.state certificate) => g.acceptNameState auth f certificate
    | .ack, .ok (.ack revision) => g.acceptNameAck f revision
    | _, _ => (g, .error (.group (.codec "name operation mismatch")))

/-- What `sync_names` publishes, in its order. -/
def syncFrames (isAdmin : Bool) (epoch : Nat) : List (NameFrame Proof) :=
  (if isAdmin then
      (g.names.current.map fun c => .metadata .state epoch (.state c)).toList
    else [.resyncRequest g.fingerprint epoch]) ++
  [.metadata .request epoch .request]

/-- Publish frames up to the first one that is refused. -/
def publishAll : NamedGroup Proof → List (NameFrame Proof) → NamedGroup Proof × Except NameError Unit
  | g, [] => (g, .ok ())
  | g, frame :: frames =>
    match g.publishControl f frame with
    | (g, .error e) => (g, .error e)
    | (g, .ok ()) => publishAll g frames

/-- Give up a pending rename of someone who is no longer an admin. -/
def rejectPendingName (isAdmin : Bool) : Except NameError (NamedGroup Proof) :=
  if g.names.pending && !isAdmin then g.finishPendingName f true else .ok g

def syncNames (now : Nat) : NamedGroup Proof × Except NameError Unit :=
  match g.joined, g.epoch with
  | true, some epoch =>
    match g.tryActingAdmin with
    | .error e => (g, .error e)
    | .ok isAdmin =>
      match g.rejectPendingName f isAdmin with
      | .error e => (g, .error e)
      | .ok g =>
        if g.memberCount < 2 then (g, .ok ())
        else if g.namesLastSync.any fun t => now - t < 2000 then (g, .ok ())
        else
          publishAll f { g with namesLastSync := some now } (g.syncFrames isAdmin epoch)
  | _, _ => (g, .ok ())

end NamedGroup

/-! ## Runs -/

/-- What moves the name of a session: a rename of its user, a frame about the name, the
    regular look at it, and what its authority rests on. A Welcome brings the group into
    existence, a commit moves it on and may bring another admin, and the organization's
    runtime absorbs rosters. -/
inductive NameInput (Proof : Type)
  | rename (name : String) (now : Nat)
  | metadata (operation : NameOperation) (epoch : Nat)
      (opened : Except NameError (NameMessage Proof)) (sender : NameSender)
  | sync (now : Nat)
  | welcome (epoch memberCount : Nat)
  | commit (memberCount : Nat) (isAdmin : Bool) (currentAdminFingerprint : String)
  | absorbRoster (roster : OrgRoster)

/-- Only a newer roster takes the place of the one in the store. -/
def OrgAuthority.absorb (org : OrgAuthority) (roster : OrgRoster) : OrgAuthority :=
  if org.roster.all (·.version < roster.version) then { org with roster := some roster } else org

namespace NamedGroup

variable (auth : NameAuth Proof) (g : NamedGroup Proof)

/-- One step of a session, and what it returns. -/
def perform (l : NameInput Proof × NameFaults Proof) :
    NamedGroup Proof × Except NameError Unit :=
  match l.1 with
  | .rename name now => g.orKeep (g.rename auth l.2 name now)
  | .metadata operation epoch opened sender =>
    g.acceptNameMetadata auth l.2 operation epoch opened sender
  | .sync now => g.syncNames l.2 now
  | .welcome epoch memberCount =>
    (if g.joined then g else { g with joined := true, epoch := some epoch, memberCount }, .ok ())
  | .commit memberCount isAdmin currentAdminFingerprint =>
    ({ g with epoch := g.epoch.map (· + 1), memberCount, isAdmin, currentAdminFingerprint },
      .ok ())
  | .absorbRoster roster => ({ g with org := g.org.map (·.absorb roster) }, .ok ())

/-- The state after a step. -/
def step (l : NameInput Proof × NameFaults Proof) : NamedGroup Proof := (g.perform auth l).1

/-- The certificate that a step accepts: another admin sent it, it passes the checks, and is
    installed if it is newer. Whether the acknowledgement gets through does not matter. -/
def accepts (l : NameInput Proof × NameFaults Proof) : Option (NameCertificate Proof) :=
  match l.1 with
  | .metadata .state epoch (.ok (.state certificate)) sender =>
    if sender.mlsSigner ≠ g.signer ∧ g.nameAdmin sender ∧ g.epoch = some epoch ∧
        (g.takeNameState auth l.2 certificate).isOk then some certificate
    else none
  | _ => none

/-- The certificates accepted along a run. -/
def accepted (g : NamedGroup Proof) :
    List (NameInput Proof × NameFaults Proof) → List (NameCertificate Proof)
  | [] => []
  | l :: ls => (g.accepts auth l).toList ++ accepted (g.step auth l) ls

/-- The revision of the name, the least one if there is none. -/
def revision : WithBot NameRevision := g.names.current.map (·.change.revision)

/-- A new session: it has neither renamed its group nor learned of a name, and has joined
    exactly if the group exists. -/
def Unnamed : Prop := g.names = {} ∧ g.joined = g.epoch.isSome

/-! ### What a step does -/

/-- Two states agree on the name and on the messages. -/
structure SameName (g g' : NamedGroup Proof) : Prop where
  names : g'.names = g.names
  label : g'.label = g.label
  messages : g'.messages = g.messages

/-- Epoch and roster do not go back. -/
structure Ahead (g g' : NamedGroup Proof) : Prop where
  epoch : g.epoch.getD 0 ≤ g'.epoch.getD 0
  roster : g.ownRosterVersion.getD 0 ≤ g'.ownRosterVersion.getD 0

/-- What the revision of a name is measured by. -/
def ground : Bool × Option Nat × Option OrgAuthority := (g.joined, g.epoch, g.org)

/-- What a step does to the name. Only a rename of the user and a pending one that is
    finished touch what is pending. -/
inductive Effect : NameInput Proof × NameFaults Proof → NamedGroup Proof → Prop
  | keep {l : NameInput Proof × NameFaults Proof} {g' : NamedGroup Proof} :
      SameName g g' → Effect l g'
  | rename {text name : String} {now : Nat} {f : NameFaults Proof} {t g' : NamedGroup Proof} :
      g.signName auth f name now = .ok t → SameName t g' → Effect (.rename text now, f) g'
  | take {l : NameInput Proof × NameFaults Proof} {certificate : NameCertificate Proof}
      {t g' : NamedGroup Proof} :
      g.accepts auth l = some certificate →
      g.epoch.getD 0 ≥ certificate.change.revision.epoch →
      g.ownRosterVersion.getD 0 ≥ certificate.change.revision.rosterVersion →
      (∀ c ∈ g.names.current, c.change.revision < certificate.change.revision) →
      g.installName auth l.2 certificate false = .ok t → SameName t g' → Effect l g'
  | finish {l : NameInput Proof × NameFaults Proof} {rejected : Bool} {t g' : NamedGroup Proof} :
      g.names.pending = true → g.finishPendingName l.2 rejected = .ok t → SameName t g' →
      Effect l g'

variable {auth g} {g' t : NamedGroup Proof} {f : NameFaults Proof}
  {l : NameInput Proof × NameFaults Proof} {certificate : NameCertificate Proof}
  {names : GroupNames Proof} {label : Option String} {events : List GroupMessage}
  {pending rejected : Bool}

theorem SameName.refl (g : NamedGroup Proof) : SameName g g := ⟨rfl, rfl, rfl⟩

theorem SameName.trans (h : SameName g t) (h' : SameName t g') : SameName g g' :=
  ⟨h'.names.trans h.names, h'.label.trans h.label, h'.messages.trans h.messages⟩

theorem saveNames_eq_ok (h : g.saveNames f names label events = .ok g') :
    f.write = none ∧ g' = { g with names, label } := by
  rw [saveNames, putGroupName] at h
  split at h
  · cases h
  · split at h
    · cases h
    · next hput =>
      split at hput
      · cases hput
      · split at hput
        · cases hput
        · next hwrite => exact ⟨hwrite, (Except.ok.inj h).symm⟩

/-- What is saved and then written into the messages. -/
theorem saveNames_upsert_eq_ok
    (h : (g.saveNames f names label events).map (·.upsertAll events) = .ok g') :
    f.write = none ∧ g' = { g with names, label }.upsertAll events := by
  rcases hsave : g.saveNames f names label events with e | t
  · rw [hsave] at h
    cases h
  · rw [hsave] at h
    obtain ⟨hwrite, rfl⟩ := saveNames_eq_ok hsave
    exact ⟨hwrite, (Except.ok.inj h).symm⟩

theorem installName_eq_ok (h : g.installName auth f certificate pending = .ok g') :
    f.write = none ∧ g'.names = g.installedNames certificate pending ∧
      g'.label = some certificate.change.name ∧ g'.ground = g.ground := by
  rw [installName] at h
  split at h
  · cases h
  · obtain ⟨hwrite, rfl⟩ := saveNames_upsert_eq_ok h
    exact ⟨hwrite, rfl, rfl, rfl⟩

/-- The first pending rename keeps what was current, a further one what is kept already. -/
theorem installedNames_true (certificate : NameCertificate Proof) :
    (g.installedNames certificate true).previous =
        (if g.names.pending then g.names.previous else g.names.current) ∧
      (g.installedNames certificate true).previousLabel =
        if g.names.pending then g.names.previousLabel else g.label := by
  rw [installedNames]
  cases g.names.pending <;> exact ⟨rfl, rfl⟩

theorem finishPendingName_eq_ok (h : g.finishPendingName f rejected = .ok g') :
    f.write = none ∧ g'.names = (g.finishedNames rejected).1 ∧
      g'.label = (g.finishedNames rejected).2 ∧ g'.ground = g.ground := by
  obtain ⟨hwrite, rfl⟩ := saveNames_upsert_eq_ok h
  exact ⟨hwrite, rfl, rfl, rfl⟩

theorem signName_eq_ok {name : String} {now : Nat} (h : g.signName auth f name now = .ok g') :
    ∃ counter epoch proof t, g.nextCounter = some counter ∧ g.epoch = some epoch ∧
      g.installName auth f ⟨g.nextChange epoch counter name now, proof⟩ (1 < g.memberCount) =
        .ok t ∧ g' = { t with namesLastSync := none } := by
  simp only [signName, Checked.bind_eq_ok, Checked.getOr_eq_ok] at h
  obtain ⟨counter, hcounter, epoch, hepoch, proof, -, t, ht, h⟩ := h
  exact ⟨counter, epoch, proof, t, hcounter, hepoch, ht, (Except.ok.inj h).symm⟩

theorem rename_eq_ok {text : String} {now : Nat} (h : g.rename auth f text now = .ok g') :
    g' = g ∨ ∃ name, g.signName auth f name now = .ok g' := by
  simp only [rename, Checked.bind_eq_ok] at h
  obtain ⟨name, -, -, -, -, -, -, -, h⟩ := h
  split at h
  · exact .inl (Except.ok.inj h).symm
  · exact .inr ⟨name, h⟩

/-- Publishing changes neither the name nor what it is measured by. -/
theorem publishControl_same (g : NamedGroup Proof) (f : NameFaults Proof)
    (frame : NameFrame Proof) :
    SameName g (g.publishControl f frame).1 ∧ (g.publishControl f frame).1.ground = g.ground := by
  rw [publishControl]
  split
  · exact ⟨.refl g, rfl⟩
  · exact ⟨⟨rfl, rfl, rfl⟩, rfl⟩

theorem publishNameMessage_same (g : NamedGroup Proof) (f : NameFaults Proof)
    (operation : NameOperation) (message : NameMessage Proof) :
    SameName g (g.publishNameMessage f operation message).1 ∧
      (g.publishNameMessage f operation message).1.ground = g.ground := by
  rw [publishNameMessage]
  split
  · exact ⟨.refl g, rfl⟩
  · exact publishControl_same g f _

theorem publishAll_same (f : NameFaults Proof) (frames : List (NameFrame Proof))
    (g : NamedGroup Proof) :
    SameName g (publishAll f g frames).1 ∧ (publishAll f g frames).1.ground = g.ground := by
  induction frames generalizing g with
  | nil => exact ⟨.refl g, rfl⟩
  | cons frame frames ih =>
    obtain ⟨hsame, hground⟩ := publishControl_same g f frame
    rw [publishAll]
    split
    · next hframe =>
      rw [hframe] at hsame hground
      exact ⟨hsame, hground⟩
    · next hframe =>
      rw [hframe] at hsame hground
      exact ⟨hsame.trans (ih _).1, (ih _).2.trans hground⟩

/-- A certificate that is taken is not ahead of the session. It is installed if it is newer
    than the current one, and is the current change again if it has the same revision. -/
theorem takeNameState_eq_ok (h : g.takeNameState auth f certificate = .ok g') :
    certificate.change.revision.epoch ≤ g.epoch.getD 0 ∧
      certificate.change.revision.rosterVersion ≤ g.ownRosterVersion.getD 0 ∧
      ((∀ c ∈ g.names.current, c.change.revision < certificate.change.revision) ∧
          (∃ t, g.installName auth f certificate false = .ok t ∧ SameName t g' ∧
            g'.ground = t.ground) ∨
        g' = g ∧ ∃ c ∈ g.names.current, certificate.change.revision ≤ c.change.revision ∧
          (c.change.revision = certificate.change.revision → c.change = certificate.change)) := by
  simp only [takeNameState] at h
  split at h
  · cases h
  · next hreach =>
    rw [not_or, not_lt, not_lt] at hreach
    refine ⟨hreach.1, hreach.2, ?_⟩
    split at h
    · cases h
    · next hconflict =>
      split at h
      · next hnewer =>
        refine .inl ⟨fun c hc => ?_, ?_⟩
        · rw [Option.all_eq_true] at hnewer
          exact of_decide_eq_true (hnewer c hc)
        · rcases ht : g.installName auth f certificate false with e | t
          · rw [ht] at h
            cases h
          · rw [ht] at h
            obtain rfl := Except.ok.inj h
            exact ⟨t, rfl, ⟨rfl, rfl, rfl⟩, rfl⟩
      · next hnewer =>
        -- There is a current certificate, which is at least as new, and no conflict.
        refine .inr ⟨(Except.ok.inj h).symm, ?_⟩
        rcases hcurrent : g.names.current with - | c
        · exact absurd (by rw [hcurrent]; rfl) hnewer
        · rw [hcurrent] at hnewer hconflict
          have hle : ¬ c.change.revision < certificate.change.revision := fun hlt =>
            hnewer (decide_eq_true hlt)
          refine ⟨c, rfl, not_lt.1 hle, fun heq => ?_⟩
          by_contra hne
          exact hconflict (decide_eq_true ⟨heq, hne⟩)

variable (auth) in
theorem acceptNameState_cases (certificate : NameCertificate Proof) :
    SameName g (g.acceptNameState auth f certificate).1 ∧
        (g.acceptNameState auth f certificate).1.ground = g.ground ∧
        (g.takeNameState auth f certificate).isOk = false ∨
      ∃ t, g.takeNameState auth f certificate = .ok t ∧
        SameName t (g.acceptNameState auth f certificate).1 ∧
        (g.acceptNameState auth f certificate).1.ground = t.ground := by
  rw [acceptNameState]
  rcases htake : g.takeNameState auth f certificate with e | t
  · exact .inl ⟨.refl g, rfl, rfl⟩
  · refine .inr ⟨t, rfl, ?_⟩
    simp only
    split
    · exact publishNameMessage_same t f _ _
    · exact ⟨.refl t, rfl⟩

theorem orKeep_cases (result : Except NameError (NamedGroup Proof)) :
    (g.orKeep result).1 = g ∨ result = .ok (g.orKeep result).1 := by
  rcases result with e | t
  · exact .inl rfl
  · exact .inr rfl

theorem effect_rename (text : String) (now : Nat) :
    Effect auth g (.rename text now, f) (g.orKeep (g.rename auth f text now)).1 ∧
      (g.orKeep (g.rename auth f text now)).1.ground = g.ground := by
  obtain h | h := orKeep_cases (g := g) (g.rename auth f text now)
  · rw [h]
    exact ⟨.keep (.refl g), rfl⟩
  · generalize (g.orKeep (g.rename auth f text now)).1 = g' at h ⊢
    obtain rfl | ⟨name, hname⟩ := rename_eq_ok h
    · exact ⟨.keep (.refl g'), rfl⟩
    · refine ⟨.rename hname (.refl g'), ?_⟩
      obtain ⟨counter, epoch, proof, t, -, -, ht, rfl⟩ := signName_eq_ok hname
      exact (installName_eq_ok ht).2.2.2

theorem effect_finish (hpending : g.names.pending = true) (rejected : Bool)
    (i : NameInput Proof) :
    Effect auth g (i, f) (g.orKeep (g.finishPendingName f rejected)).1 ∧
      (g.orKeep (g.finishPendingName f rejected)).1.ground = g.ground := by
  obtain h | h := orKeep_cases (g := g) (g.finishPendingName f rejected)
  · rw [h]
    exact ⟨.keep (.refl g), rfl⟩
  · generalize (g.orKeep (g.finishPendingName f rejected)).1 = g' at h ⊢
    exact ⟨.finish hpending h (.refl g'), (finishPendingName_eq_ok h).2.2.2⟩

theorem effect_acceptNameAck (revision : NameRevision) (i : NameInput Proof) :
    Effect auth g (i, f) (g.acceptNameAck f revision).1 ∧
      (g.acceptNameAck f revision).1.ground = g.ground := by
  rw [acceptNameAck]
  split
  · next hpending =>
    split
    · exact ⟨.keep (.refl g), rfl⟩
    · exact effect_finish (Bool.and_eq_true _ _ ▸ hpending).1 _ i
  · exact ⟨.keep (.refl g), rfl⟩

theorem effect_acceptNameState (haccepts : ∀ t, g.takeNameState auth l.2 certificate = .ok t →
    g.accepts auth l = some certificate) :
    Effect auth g l (g.acceptNameState auth l.2 certificate).1 ∧
      (g.acceptNameState auth l.2 certificate).1.ground = g.ground := by
  obtain ⟨hsame, hground, -⟩ | ⟨t, ht, hsame, hground⟩ :=
    acceptNameState_cases auth (g := g) (f := l.2) certificate
  · exact ⟨.keep hsame, hground⟩
  · obtain ⟨hepoch, hroster, ⟨hnewer, t', ht', hsame', hground'⟩ | ⟨rfl, -⟩⟩ :=
      takeNameState_eq_ok ht
    · refine ⟨.take (haccepts t ht) hepoch hroster hnewer ht' (hsame'.trans hsame), ?_⟩
      rw [hground, hground', (installName_eq_ok ht').2.2.2]
    · exact ⟨.keep hsame, hground⟩

theorem effect_acceptNameMetadata (operation : NameOperation) (epoch : Nat)
    (opened : Except NameError (NameMessage Proof)) (sender : NameSender) :
    Effect auth g (.metadata operation epoch opened sender, f)
        (g.acceptNameMetadata auth f operation epoch opened sender).1 ∧
      (g.acceptNameMetadata auth f operation epoch opened sender).1.ground = g.ground := by
  have hkeep : Effect auth g (.metadata operation epoch opened sender, f) g ∧
    g.ground = g.ground := ⟨.keep (.refl g), rfl⟩
  unfold acceptNameMetadata
  split
  · exact hkeep
  · next hown =>
    split
    · exact hkeep
    · next hadmin =>
      split
      · exact hkeep
      · next hepoch =>
        split
        · exact hkeep
        · split
          · obtain ⟨hsame, hground⟩ := publishNameMessage_same g f .state (.state _)
            exact ⟨.keep hsame, hground⟩
          · exact hkeep
        · next certificate =>
          refine effect_acceptNameState (l := (_, f)) fun t ht => ?_
          have hadmin' : g.nameAdmin sender = true := by simpa using hadmin
          exact if_pos ⟨hown, hadmin', not_not.1 hepoch, by rw [ht]; rfl⟩
        · exact effect_acceptNameAck _ _
        · exact hkeep

variable (auth) in
theorem effect_syncNames (now : Nat) :
    Effect auth g (.sync now, f) (g.syncNames f now).1 ∧
      (g.syncNames f now).1.ground = g.ground := by
  rw [syncNames]
  split
  · split
    · exact ⟨.keep (.refl g), rfl⟩
    · next isAdmin _ =>
      -- What follows the rejection only publishes.
      have hreject : ∀ t, g.rejectPendingName f isAdmin = .ok t →
          (∀ g', SameName t g' → Effect auth g (.sync now, f) g') ∧ t.ground = g.ground := by
        intro t ht
        rw [rejectPendingName] at ht
        split at ht
        · next hpending =>
          exact ⟨fun g' => .finish (Bool.and_eq_true _ _ ▸ hpending).1 ht,
            (finishPendingName_eq_ok ht).2.2.2⟩
        · obtain rfl := Except.ok.inj ht
          exact ⟨fun g' => .keep, rfl⟩
      split
      · exact ⟨.keep (.refl g), rfl⟩
      · next t ht =>
        obtain ⟨heffect, hground⟩ := hreject t ht
        split
        · exact ⟨heffect t (.refl t), hground⟩
        · split
          · exact ⟨heffect t (.refl t), hground⟩
          · obtain ⟨hsame, hground'⟩ := publishAll_same f (t.syncFrames isAdmin _)
              { t with namesLastSync := some now }
            exact ⟨heffect _ ⟨hsame.names, hsame.label, hsame.messages⟩, hground'.trans hground⟩
  · exact ⟨.keep (.refl g), rfl⟩

/-- Every step has one of the effects. -/
theorem effect_step (auth : NameAuth Proof) (g : NamedGroup Proof)
    (l : NameInput Proof × NameFaults Proof) : Effect auth g l (g.step auth l) := by
  obtain ⟨i, f⟩ := l
  cases i with
  | rename text now => exact (effect_rename text now).1
  | metadata operation epoch opened sender =>
    exact (effect_acceptNameMetadata operation epoch opened sender).1
  | sync now => exact (effect_syncNames auth now).1
  | welcome epoch memberCount =>
    refine .keep ?_
    simp only [step, perform]
    split <;> exact ⟨rfl, rfl, rfl⟩
  | commit memberCount isAdmin currentAdminFingerprint => exact .keep ⟨rfl, rfl, rfl⟩
  | absorbRoster roster => exact .keep ⟨rfl, rfl, rfl⟩

/-! ### Soundness -/

/-- The revision is not ahead of the own epoch and roster. -/
def Reaches (g : NamedGroup Proof) (r : NameRevision) : Prop :=
  r.epoch ≤ g.epoch.getD 0 ∧ r.rosterVersion ≤ g.ownRosterVersion.getD 0

/-- What holds of every session. What a rejection would restore is as sound as what is
    current. -/
structure Sound (g : NamedGroup Proof) : Prop where
  ready : g.joined = g.epoch.isSome
  label : ∀ c ∈ g.names.current, g.label = some c.change.name
  previousLabel : ∀ c ∈ g.names.previous, g.names.previousLabel = some c.change.name
  current : ∀ c ∈ g.names.current, Reaches g c.change.revision
  previous : ∀ c ∈ g.names.previous, Reaches g c.change.revision

theorem Unnamed.sound (h : Unnamed g) : Sound g where
  ready := h.2
  label c hc := by simp [h.1] at hc
  previousLabel c hc := by simp [h.1] at hc
  current c hc := by simp [h.1] at hc
  previous c hc := by simp [h.1] at hc

theorem Ahead.refl (g : NamedGroup Proof) : Ahead g g := ⟨le_rfl, le_rfl⟩

theorem Ahead.of_ground (h : g'.ground = g.ground) : Ahead g g' := by
  obtain ⟨-, hepoch, horg⟩ : g'.joined = g.joined ∧ g'.epoch = g.epoch ∧ g'.org = g.org := by
    simpa [ground] using h
  constructor
  · rw [hepoch]
  · rw [ownRosterVersion, ownRosterVersion, horg]

theorem Reaches.mono {r : NameRevision} (h : Reaches g r) (hahead : Ahead g g') :
    Reaches g' r :=
  ⟨h.1.trans hahead.epoch, h.2.trans hahead.roster⟩

theorem version_le_absorb (org : OrgAuthority) (roster : OrgRoster) :
    (org.roster.map (·.version)).getD 0 ≤ ((org.absorb roster).roster.map (·.version)).getD 0 := by
  rw [OrgAuthority.absorb]
  split
  · next hnewer =>
    rcases hroster : org.roster with - | stored
    · exact Nat.zero_le _
    · rw [hroster] at hnewer
      exact (of_decide_eq_true hnewer).le
  · exact le_rfl

variable (auth) in
/-- Epoch and roster only move forward. -/
theorem step_ahead (l : NameInput Proof × NameFaults Proof) (hready : g.joined = g.epoch.isSome) :
    Ahead g (g.step auth l) ∧ (g.step auth l).joined = (g.step auth l).epoch.isSome := by
  have hground : ∀ g', g'.ground = g.ground → Ahead g g' ∧ g'.joined = g'.epoch.isSome := by
    intro g' h
    refine ⟨.of_ground h, ?_⟩
    obtain ⟨hjoined, hepoch, -⟩ : g'.joined = g.joined ∧ g'.epoch = g.epoch ∧ g'.org = g.org := by
      simpa [ground] using h
    rw [hjoined, hepoch, hready]
  obtain ⟨i, f⟩ := l
  cases i with
  | rename text now => exact hground _ (effect_rename text now).2
  | metadata operation epoch opened sender =>
    exact hground _ (effect_acceptNameMetadata operation epoch opened sender).2
  | sync now => exact hground _ (effect_syncNames auth now).2
  | welcome epoch memberCount =>
    simp only [step, perform]
    split
    · exact ⟨.refl g, hready⟩
    · next hjoined =>
      -- Before it joined there is no epoch, so none is left behind.
      have hnone : g.epoch = none := by
        rw [← Option.not_isSome_iff_eq_none, ← hready]
        exact hjoined
      refine ⟨⟨?_, le_rfl⟩, rfl⟩
      rw [hnone]
      exact Nat.zero_le _
  | commit memberCount isAdmin currentAdminFingerprint =>
    refine ⟨⟨?_, le_rfl⟩, ?_⟩
    · change g.epoch.getD 0 ≤ (g.epoch.map (· + 1)).getD 0
      rcases g.epoch with - | epoch
      · exact le_rfl
      · exact Nat.le_succ epoch
    · change g.joined = (g.epoch.map (· + 1)).isSome
      rw [Option.isSome_map, hready]
  | absorbRoster roster =>
    refine ⟨⟨le_rfl, ?_⟩, hready⟩
    change ((g.org.bind (·.roster)).map (·.version)).getD 0 ≤
      (((g.org.map (·.absorb roster)).bind (·.roster)).map (·.version)).getD 0
    rcases g.org with - | org
    · exact le_rfl
    · exact version_le_absorb org roster

/-- A name that is kept stays sound as epoch and roster move on. -/
theorem Sound.same (h : Sound g) (hsame : SameName g g') (hahead : Ahead g g')
    (hready : g'.joined = g'.epoch.isSome) : Sound g' where
  ready := hready
  label c hc := by
    rw [hsame.label]
    exact h.label c (hsame.names ▸ hc)
  previousLabel c hc := by
    rw [hsame.names] at hc ⊢
    exact h.previousLabel c hc
  current c hc := (h.current c (hsame.names ▸ hc)).mono hahead
  previous c hc := (h.previous c (hsame.names ▸ hc)).mono hahead

theorem ready_of_ground (hg : g.joined = g.epoch.isSome) (h : g'.ground = g.ground) :
    g'.joined = g'.epoch.isSome := by
  obtain ⟨hjoined, hepoch, -⟩ : g'.joined = g.joined ∧ g'.epoch = g.epoch ∧ g'.org = g.org := by
    simpa [ground] using h
  rw [hjoined, hepoch, hg]

/-- Installing a certificate that is not ahead keeps the session sound. -/
theorem Sound.install (h : Sound g) (hreach : Reaches g certificate.change.revision)
    (hinstall : g.installName auth f certificate pending = .ok g') : Sound g' := by
  obtain ⟨-, hnames, hlabel, hground⟩ := installName_eq_ok hinstall
  have hahead : Ahead g g' := .of_ground hground
  have hcurrent : g'.names.current = some certificate := by rw [hnames]; rfl
  -- What is kept for a rejection is what was current, or what was kept before.
  have hprevious : g'.names.previous = g.names.current ∧ g'.names.previousLabel = g.label ∨
      g'.names.previous = g.names.previous ∧
        g'.names.previousLabel = g.names.previousLabel := by
    rw [hnames, installedNames]
    split
    · exact .inl ⟨rfl, rfl⟩
    · exact .inr ⟨rfl, rfl⟩
  refine ⟨ready_of_ground h.ready hground, fun c hc => ?_, fun c hc => ?_, fun c hc => ?_,
    fun c hc => ?_⟩
  · rw [hcurrent, Option.mem_some_iff] at hc
    rw [hlabel, hc]
  · obtain ⟨h₁, h₂⟩ | ⟨h₁, h₂⟩ := hprevious
    · rw [h₂]
      exact h.label c (h₁ ▸ hc)
    · rw [h₂]
      exact h.previousLabel c (h₁ ▸ hc)
  · rw [hcurrent, Option.mem_some_iff] at hc
    exact (hc ▸ hreach).mono hahead
  · obtain ⟨h₁, -⟩ | ⟨h₁, -⟩ := hprevious
    · exact (h.current c (h₁ ▸ hc)).mono hahead
    · exact (h.previous c (h₁ ▸ hc)).mono hahead

/-- So does finishing what is pending. -/
theorem Sound.finish (h : Sound g) (hfinish : g.finishPendingName f rejected = .ok g') :
    Sound g' := by
  obtain ⟨-, hnames, hlabel, hground⟩ := finishPendingName_eq_ok hfinish
  have hahead : Ahead g g' := .of_ground hground
  have hready := ready_of_ground h.ready hground
  cases rejected with
  | true =>
    refine ⟨hready, fun c hc => ?_, fun c hc => ?_, fun c hc => ?_, fun c hc => ?_⟩
    · rw [hlabel]
      exact h.previousLabel c (by rwa [hnames] at hc)
    · rw [hnames] at hc
      cases hc
    · exact (h.previous c (by rwa [hnames] at hc)).mono hahead
    · rw [hnames] at hc
      cases hc
  | false =>
    refine ⟨hready, fun c hc => ?_, fun c hc => ?_, fun c hc => ?_, fun c hc => ?_⟩
    · rw [hlabel]
      exact h.label c (by rwa [hnames] at hc)
    · rw [hnames] at hc
      cases hc
    · exact (h.current c (by rwa [hnames] at hc)).mono hahead
    · rw [hnames] at hc
      cases hc

theorem counter_lt_nextCounter {counter : Fin (2 ^ 64)} (h : g.nextCounter = some counter) :
    ∀ c ∈ g.names.current, c.change.revision.counter < counter := by
  intro c hc
  rw [nextCounter] at h
  split at h
  · obtain rfl := Option.some.inj h
    have hlast : (g.names.current.map (·.change.revision.counter)).getD u64Zero =
        c.change.revision.counter := by
      rw [Option.mem_def.1 hc]
      rfl
    rw [Fin.lt_def, ← hlast]
    exact Nat.lt_succ_self _
  · cases h

/-- The own epoch and roster reach a change of the own, and it is newer than the name that
    it replaces. -/
theorem Sound.nextChange (h : Sound g) {counter : Fin (2 ^ 64)} {epoch : Nat} (name : String)
    (now : Nat) (hcounter : g.nextCounter = some counter) (hepoch : g.epoch = some epoch) :
    Reaches g (g.nextChange epoch counter name now).revision ∧ ∀ c ∈ g.names.current,
      c.change.revision < (g.nextChange epoch counter name now).revision := by
  constructor
  · refine ⟨?_, le_rfl⟩
    rw [hepoch]
    exact le_rfl
  · intro c hc
    obtain ⟨hle, hroster⟩ := h.current c hc
    rw [hepoch] at hle
    exact NameRevision.lt_of_le hle hroster (counter_lt_nextCounter hcounter c hc)

/-- Every step keeps a session sound. -/
theorem Sound.step (h : Sound g) (l : NameInput Proof × NameFaults Proof) :
    Sound (g.step auth l) := by
  obtain ⟨hahead, hready⟩ := step_ahead auth l h.ready
  have hfrom : ∀ t, t.ground = g.ground → Ahead t (g.step auth l) := fun t ht =>
    ⟨(Ahead.of_ground ht.symm).epoch.trans hahead.epoch,
      (Ahead.of_ground ht.symm).roster.trans hahead.roster⟩
  have heffect := effect_step auth g l
  generalize g.step auth l = g' at heffect hready hahead hfrom
  cases heffect with
  | keep hsame => exact h.same hsame hahead hready
  | rename hname hsame =>
    obtain ⟨counter, epoch, proof, t, hcounter, hepoch, ht, rfl⟩ := signName_eq_ok hname
    have hsound : Sound t := h.install (h.nextChange _ _ hcounter hepoch).1 ht
    exact hsound.same ⟨hsame.names, hsame.label, hsame.messages⟩
      (hfrom t (installName_eq_ok ht).2.2.2) hready
  | take _ hepoch hroster _ ht hsame =>
    exact (h.install ⟨hepoch, hroster⟩ ht).same hsame (hfrom _ (installName_eq_ok ht).2.2.2) hready
  | finish _ ht hsame =>
    exact (h.finish ht).same hsame (hfrom _ (finishPendingName_eq_ok ht).2.2.2) hready

/-- A session is sound at the end of every run. -/
theorem Sound.run (h : Sound g) (ls : List (NameInput Proof × NameFaults Proof)) :
    Sound (ls.foldl (·.step auth) g) := by
  induction ls generalizing g with
  | nil => exact h
  | cons l ls ih => exact ih (h.step l)

/-! ### Revisions -/

theorem revision_of_same (h : SameName g g') : g'.revision = g.revision := by
  rw [revision, revision, h.names]

theorem revision_install (h : g.installName auth f certificate pending = .ok g') :
    g'.revision = (certificate.change.revision : WithBot NameRevision) := by
  rw [revision, (installName_eq_ok h).2.1]
  rfl

theorem revision_lt_of_forall {r : NameRevision}
    (h : ∀ c ∈ g.names.current, c.change.revision < r) : g.revision < (r : WithBot NameRevision) := by
  rw [revision]
  rcases hcurrent : g.names.current with - | c
  · exact WithBot.bot_lt_coe r
  · exact WithBot.coe_lt_coe.2 (h c hcurrent)

/-- A name that is signed takes the place of an older one. -/
theorem Sound.revision_signName (h : Sound g) {name : String} {now : Nat}
    (hname : g.signName auth f name now = .ok g') : g.revision < g'.revision := by
  obtain ⟨counter, epoch, proof, t, hcounter, hepoch, ht, rfl⟩ := signName_eq_ok hname
  calc g.revision < ((g.nextChange epoch counter name now).revision : WithBot NameRevision) :=
        revision_lt_of_forall (h.nextChange _ _ hcounter hepoch).2
    _ = t.revision := (revision_install ht).symm

/-- The revision only goes back where a pending rename is rejected. -/
theorem Sound.revision_step (h : Sound g) (l : NameInput Proof × NameFaults Proof) :
    g.revision ≤ (g.step auth l).revision ∨
      g.names.pending = true ∧ ∃ t, g.finishPendingName l.2 true = .ok t ∧
        SameName t (g.step auth l) := by
  have heffect := effect_step auth g l
  generalize g.step auth l = g' at heffect ⊢
  cases heffect with
  | keep hsame => exact .inl (revision_of_same hsame).ge
  | rename hname hsame =>
    exact .inl ((h.revision_signName hname).le.trans (revision_of_same hsame).ge)
  | take _ _ _ hnewer ht hsame =>
    refine .inl ((revision_lt_of_forall hnewer).le.trans ?_)
    rw [revision_of_same hsame, revision_install ht]
  | @finish _ rejected t _ hpending ht hsame =>
    cases rejected with
    | true => exact .inr ⟨hpending, t, ht, hsame⟩
    | false =>
      left
      rw [revision_of_same hsame, revision, revision, (finishPendingName_eq_ok ht).2.1]
      exact le_rfl

/-- Where the store refuses the write, nothing happens to the name. -/
theorem sameName_of_refused (h : l.2.write ≠ none) : SameName g (g.step auth l) := by
  have heffect := effect_step auth g l
  generalize g.step auth l = g' at heffect ⊢
  cases heffect with
  | keep hsame => exact hsame
  | rename hname _ =>
    obtain ⟨_, _, _, t, -, -, ht, -⟩ := signName_eq_ok hname
    exact absurd (installName_eq_ok ht).1 h
  | take _ _ _ _ ht _ => exact absurd (installName_eq_ok ht).1 h
  | finish _ ht _ => exact absurd (finishPendingName_eq_ok ht).1 h

/-! ### Pending renames -/

/-- The state `u` is the one before the first rename of the run that is still pending at its
    end: nothing is pending in `u`, and something is ever since. -/
def PendingSince (auth : NameAuth Proof) (g : NamedGroup Proof)
    (ls : List (NameInput Proof × NameFaults Proof)) (u : NamedGroup Proof) : Prop :=
  ∃ before l since, ls = before ++ l :: since ∧ u = before.foldl (·.step auth) g ∧
    u.names.pending = false ∧ (∃ text now, l.1 = .rename text now) ∧
    ∀ part, part <+: since → (part.foldl (·.step auth) (u.step auth l)).names.pending = true

/-- What is pending goes on to be so. -/
theorem PendingSince.concat {ls : List (NameInput Proof × NameFaults Proof)} {u : NamedGroup Proof}
    (h : PendingSince auth g ls u)
    (hpending : ((ls ++ [l]).foldl (·.step auth) g).names.pending = true) :
    PendingSince auth g (ls ++ [l]) u := by
  obtain ⟨before, i, since, rfl, rfl, hbefore, hrename, hsince⟩ := h
  refine ⟨before, i, since ++ [l], by simp, rfl, hbefore, hrename, fun part hpart => ?_⟩
  obtain rfl | hpart := List.prefix_concat_iff.1 hpart
  · simpa [List.foldl_append] using hpending
  · exact hsince part hpart

/-- While a rename is pending, the session keeps what it had before. -/
theorem exists_pendingSince (hstart : g.names.pending = false)
    (ls : List (NameInput Proof × NameFaults Proof))
    (hpending : (ls.foldl (·.step auth) g).names.pending = true) :
    ∃ u, PendingSince auth g ls u ∧
      (ls.foldl (·.step auth) g).names.previous = u.names.current ∧
      (ls.foldl (·.step auth) g).names.previousLabel = u.label := by
  -- By induction on the run, from its end.
  induction ls using List.reverseRecOn with
  | nil => exact absurd hpending (hstart ▸ Bool.false_ne_true)
  | append_singleton ls l ih =>
    have hlast : (ls ++ [l]).foldl (·.step auth) g =
        (ls.foldl (·.step auth) g).step auth l := by
      rw [List.foldl_append]
      rfl
    have heffect := effect_step auth (ls.foldl (·.step auth) g) l
    have hconcat := fun u hu => PendingSince.concat (u := u) hu hpending
    rw [hlast] at hpending ⊢
    generalize hg' : (ls.foldl (·.step auth) g).step auth l = g' at heffect hpending ⊢
    cases heffect with
    | keep hsame =>
      rw [hsame.names] at hpending ⊢
      obtain ⟨u, hu, hprevious⟩ := ih hpending
      exact ⟨u, hconcat u hu, hprevious⟩
    | @rename text name now f t _ hname hsame =>
      obtain ⟨_, _, _, t, -, -, ht, rfl⟩ := signName_eq_ok hname
      have hnames : g'.names = _ := hsame.names.trans (installName_eq_ok ht).2.1
      have hmany : decide (1 < (ls.foldl (·.step auth) g).memberCount) = true := by
        rw [hnames] at hpending
        exact hpending
      rw [hnames, hmany, (installedNames_true _).1, (installedNames_true _).2]
      rcases hwas : (ls.foldl (·.step auth) g).names.pending with - | -
      · -- This rename is the first one.
        refine ⟨ls.foldl (·.step auth) g, ⟨ls, _, [], rfl, rfl, hwas, ⟨text, now, rfl⟩, ?_⟩,
          if_neg (hwas ▸ Bool.false_ne_true), if_neg (hwas ▸ Bool.false_ne_true)⟩
        intro part hpart
        rw [List.prefix_nil.1 hpart]
        change ((ls.foldl (·.step auth) g).step auth _).names.pending = true
        rw [hg', hpending]
      · obtain ⟨u, hu, hprevious, hlabel⟩ := ih hwas
        exact ⟨u, hconcat u hu, (if_pos hwas).trans hprevious, (if_pos hwas).trans hlabel⟩
    | take _ _ _ _ ht hsame =>
      rw [hsame.names, (installName_eq_ok ht).2.1] at hpending
      cases hpending
    | @finish _ rejected _ _ _ ht hsame =>
      rw [hsame.names, (finishPendingName_eq_ok ht).2.1] at hpending
      cases rejected <;> cases hpending

/-- A rejection restores what was before the first pending rename. -/
theorem finish_restores (hstart : g.names.pending = false)
    (ls : List (NameInput Proof × NameFaults Proof))
    (hpending : (ls.foldl (·.step auth) g).names.pending = true) :
    ∃ u, PendingSince auth g ls u ∧ ∀ f t,
      (ls.foldl (·.step auth) g).finishPendingName f true = .ok t →
        t.names.current = u.names.current ∧ t.label = u.label := by
  obtain ⟨u, hu, hprevious, hlabel⟩ := exists_pendingSince hstart ls hpending
  refine ⟨u, hu, fun f t ht => ?_⟩
  obtain ⟨-, hnames, hlabel', -⟩ := finishPendingName_eq_ok ht
  constructor
  · rw [hnames]
    exact hprevious
  · rw [hlabel']
    exact hlabel

/-! ### Certificates of others -/

/-- Of the certificates accepted so far, the current one is the greatest, and none of the
    others says anything else under its revision. Without any, the label is the one the
    session started with. -/
structure Settled (start : Option String) (certificates : List (NameCertificate Proof))
    (g : NamedGroup Proof) : Prop where
  pending : g.names.pending = false
  mem : ∀ c ∈ g.names.current, c ∈ certificates
  greatest : ∀ c ∈ certificates, ∃ cur ∈ g.names.current,
    c.change.revision ≤ cur.change.revision ∧
      (cur.change.revision = c.change.revision → cur.change = c.change)
  label : g.names.current = none → g.label = start

theorem Unnamed.settled (h : Unnamed g) : Settled g.label [] g where
  pending := by rw [h.1]
  mem c hc := by simp [h.1] at hc
  greatest c hc := absurd hc List.not_mem_nil
  label _ := rfl

/-- A certificate that a step accepts is taken in it. -/
theorem accepts_eq_some (h : g.accepts auth l = some certificate) :
    ∃ t, g.takeNameState auth l.2 certificate = .ok t ∧ SameName t (g.step auth l) := by
  obtain ⟨i, f⟩ := l
  rw [accepts] at h
  split at h
  · next epoch sent sender hi =>
    obtain rfl := hi
    split at h
    · next hall =>
      obtain rfl := Option.some.inj h
      obtain ⟨hown, hadmin, hepoch, hok⟩ := hall
      have hstep : g.step auth (.metadata .state epoch (.ok (.state sent)) sender, f) =
          (g.acceptNameState auth f sent).1 := by
        simp [step, perform, acceptNameMetadata, hown, hadmin, hepoch]
      obtain ⟨-, -, herror⟩ | ⟨t, ht, hsame, -⟩ :=
        acceptNameState_cases auth (g := g) (f := f) sent
      · rw [herror] at hok
        cases hok
      · exact ⟨t, ht, hstep ▸ hsame⟩
    · cases h
  · cases h

/-- A step that accepts nothing and is no rename leaves the name, if nothing is pending. -/
theorem sameName_of_accepts_none (hpending : g.names.pending = false)
    (hrename : ∀ text now, l.1 ≠ .rename text now) (h : g.accepts auth l = none) :
    SameName g (g.step auth l) := by
  have heffect := effect_step auth g l
  generalize g.step auth l = g' at heffect ⊢
  cases heffect with
  | keep hsame => exact hsame
  | @rename text _ now => exact absurd rfl (hrename text now)
  | take haccepts =>
    rw [h] at haccepts
    cases haccepts
  | finish hpending' =>
    rw [hpending] at hpending'
    cases hpending'

variable {start : Option String} {certificates : List (NameCertificate Proof)}

theorem Settled.same (h : Settled start certificates g) (hsame : SameName g g') :
    Settled start certificates g' where
  pending := by rw [hsame.names, h.pending]
  mem := by
    rw [hsame.names]
    exact h.mem
  greatest := by
    rw [hsame.names]
    exact h.greatest
  label := by
    rw [hsame.names, hsame.label]
    exact h.label

/-- Taking a certificate keeps the greatest one current. -/
theorem Settled.take (h : Settled start certificates g)
    (htake : g.takeNameState auth f certificate = .ok g') :
    Settled start (certificates ++ [certificate]) g' := by
  obtain ⟨-, -, ⟨hnewer, t, ht, hsame, -⟩ | ⟨rfl, cur, hcur, hle, heq⟩⟩ := takeNameState_eq_ok htake
  · -- It is newer than the current one, and so than all others.
    obtain ⟨-, hnames, -⟩ := installName_eq_ok ht
    have hcurrent : g'.names.current = some certificate := by rw [hsame.names, hnames]; rfl
    refine ⟨?_, fun c hc => ?_, fun c hc => ⟨certificate, hcurrent, ?_⟩, fun hnone => ?_⟩
    · rw [hsame.names, hnames]
      rfl
    · rw [hcurrent, Option.mem_some_iff] at hc
      exact List.mem_append_right _ (List.mem_singleton.2 hc.symm)
    · rcases List.mem_append.1 hc with hc | hc
      · obtain ⟨cur, hcur, hle, -⟩ := h.greatest c hc
        have hlt : c.change.revision < certificate.change.revision :=
          hle.trans_lt (hnewer cur hcur)
        exact ⟨hlt.le, fun heq => absurd heq hlt.ne'⟩
      · rw [List.mem_singleton.1 hc]
        exact ⟨le_rfl, fun _ => rfl⟩
    · rw [hcurrent] at hnone
      cases hnone
  · refine ⟨h.pending, fun c hc => List.mem_append_left _ (h.mem c hc), fun c hc => ?_, h.label⟩
    rcases List.mem_append.1 hc with hc | hc
    · exact h.greatest c hc
    · rw [List.mem_singleton.1 hc]
      exact ⟨cur, hcur, hle, heq⟩

theorem Settled.step (h : Settled start certificates g)
    (hrename : ∀ text now, l.1 ≠ .rename text now) :
    Settled start (certificates ++ (g.accepts auth l).toList) (g.step auth l) := by
  rcases haccepts : g.accepts auth l with - | certificate
  · rw [Option.toList_none, List.append_nil]
    exact h.same (sameName_of_accepts_none h.pending hrename haccepts)
  · obtain ⟨t, ht, hsame⟩ := accepts_eq_some haccepts
    exact (h.take ht).same hsame

variable (auth) in
/-- What was accepted along a run without renames of the user is settled at its end. -/
theorem Settled.run (h : Settled start certificates g)
    (ls : List (NameInput Proof × NameFaults Proof))
    (hrename : ∀ l ∈ ls, ∀ text now, l.1 ≠ .rename text now) :
    Settled start (certificates ++ g.accepted auth ls) (ls.foldl (·.step auth) g) := by
  induction ls generalizing g certificates with
  | nil =>
    rw [accepted, List.append_nil]
    exact h
  | cons l ls ih =>
    rw [accepted, ← List.append_assoc]
    exact ih (h.step (hrename l List.mem_cons_self))
      fun l' hl' => hrename l' (List.mem_cons_of_mem _ hl')

/-- The current change only depends on which certificates were accepted. -/
theorem Settled.change_eq {start' : Option String} {certificates' : List (NameCertificate Proof)}
    (h : Settled start certificates g) (h' : Settled start' certificates' g')
    (hmem : ∀ c, c ∈ certificates ↔ c ∈ certificates') :
    g.names.current.map (·.change) = g'.names.current.map (·.change) := by
  rcases hc : g.names.current with - | c
  · rcases hc' : g'.names.current with - | c'
    · rfl
    · obtain ⟨cur, hcur, -⟩ := h.greatest c' ((hmem c').2 (h'.mem c' hc'))
      rw [hc] at hcur
      cases hcur
  · obtain ⟨c', hc', hle, heq⟩ := h'.greatest c ((hmem c).1 (h.mem c hc))
    obtain ⟨c'', hc'', hge, -⟩ := h.greatest c' ((hmem c').2 (h'.mem c' hc'))
    rw [hc, Option.mem_some_iff] at hc''
    rw [Option.mem_def.1 hc', Option.map_some, Option.map_some,
      heq (le_antisymm (hc'' ▸ hge) hle)]

/-! ## The name of a group -/

/-- What the runs of a session do to the name of its group. -/
structure GoesForward (auth : NameAuth Proof) (g : NamedGroup Proof) : Prop where
  /-- The revision goes back only where a pending rename is rejected. -/
  revision (ls : List (NameInput Proof × NameFaults Proof))
    (l : NameInput Proof × NameFaults Proof) :
    let t := ls.foldl (·.step auth) g
    t.revision ≤ (t.step auth l).revision ∨
      t.names.pending = true ∧ ∃ t', t.finishPendingName l.2 true = .ok t' ∧
        SameName t' (t.step auth l)
  /-- Which restores what was before the first rename that is still pending. -/
  restores (ls : List (NameInput Proof × NameFaults Proof)) :
    let t := ls.foldl (·.step auth) g
    t.names.pending = true → ∃ u, PendingSince auth g ls u ∧
      ∀ f t', t.finishPendingName f true = .ok t' →
        t'.names.current = u.names.current ∧ t'.label = u.label
  /-- The name of the current certificate is the label. -/
  label (ls : List (NameInput Proof × NameFaults Proof)) :
    let t := ls.foldl (·.step auth) g
    ∀ c ∈ t.names.current, t.label = some c.change.name
  /-- A rename that changes the name has a greater revision. -/
  renames (ls : List (NameInput Proof × NameFaults Proof)) (f : NameFaults Proof)
    (text : String) (now : Nat) (t' : NamedGroup Proof) :
    let t := ls.foldl (·.step auth) g
    t.rename auth f text now = .ok t' → t'.label ≠ t.label → t.revision < t'.revision
  /-- Nothing changes where the store refuses the write. -/
  refused (ls : List (NameInput Proof × NameFaults Proof))
    (l : NameInput Proof × NameFaults Proof) :
    let t := ls.foldl (·.step auth) g
    l.2.write ≠ none → SameName t (t.step auth l)

theorem Unnamed.goesForward (h : Unnamed g) : GoesForward auth g where
  revision ls l := (h.sound.run ls).revision_step l
  restores ls := finish_restores (by rw [h.1]) ls
  label ls := (h.sound.run ls).label
  renames ls f text now t' hrename hlabel := by
    obtain rfl | ⟨name, hname⟩ := rename_eq_ok hrename
    · exact absurd rfl hlabel
    · exact (h.sound.run ls).revision_signName hname
  refused ls l := sameName_of_refused

/-- Along every run of every session names go forward, but for rejections, which restore
    what was before. Two members that accepted the same certificates, and did not rename the
    group themselves, end up with the same change and show the same name: the one of a
    certificate if they accepted any, and the one their sessions started with otherwise. -/
theorem shared_name_converges (auth auth' : NameAuth Proof) (g g' : NamedGroup Proof)
    (h : Unnamed g) (h' : Unnamed g') :
    GoesForward auth g ∧
      ∀ ls ls' : List (NameInput Proof × NameFaults Proof),
        (∀ l ∈ ls ++ ls', ∀ text now, l.1 ≠ .rename text now) →
        (∀ c, c ∈ g.accepted auth ls ↔ c ∈ g'.accepted auth' ls') →
        let t := ls.foldl (·.step auth) g
        let t' := ls'.foldl (·.step auth') g'
        t.names.current.map (·.change) = t'.names.current.map (·.change) ∧
          (g.accepted auth ls ≠ [] ∨ g.label = g'.label → t.label = t'.label) := by
  refine ⟨h.goesForward, fun ls ls' hrename hmem => ?_⟩
  have hs := h.settled.run auth ls fun l hl => hrename l (List.mem_append_left _ hl)
  have hs' := h'.settled.run auth' ls' fun l hl => hrename l (List.mem_append_right _ hl)
  rw [List.nil_append] at hs hs'
  have hchange := hs.change_eq hs' hmem
  refine ⟨hchange, fun hstart => ?_⟩
  -- The label is the name of the current certificate, if there is one.
  rcases hc : (ls.foldl (·.step auth) g).names.current with - | c
  · rw [hc, Option.map_none, eq_comm, Option.map_eq_none_iff] at hchange
    obtain hsome | hstart := hstart
    · obtain ⟨c, hcmem⟩ := List.exists_mem_of_ne_nil _ hsome
      obtain ⟨cur, hcur, -⟩ := hs.greatest c hcmem
      rw [hc] at hcur
      cases hcur
    · rw [hs.label hc, hs'.label hchange, hstart]
  · rw [hc, Option.map_some, eq_comm, Option.map_eq_some_iff] at hchange
    obtain ⟨c', hc', hsame⟩ := hchange
    rw [(h.sound.run ls).label c hc, (h'.sound.run ls').label c' hc', hsame]

/-! ### A group of three -/

/-- Proofs that are what they prove, of a sender. -/
def plainAuth (sender : NameSender) : NameAuth (NameSender × NameChange) where
  sign change := .ok (sender, change)
  verify := .ok

def alice : NameSender := ⟨"peer-alice", [0xa1]⟩

/-- The session of a member of the group that `alice` is the admin of, at its first epoch. -/
def memberOf (signer : List UInt8) : NamedGroup (NameSender × NameChange) where
  groupId := "g"
  displayName := "Member"
  signer
  joined := true
  epoch := some 1
  memberCount := 3
  isAdmin := false
  currentAdminFingerprint := "A1"
  org := none
  persistence := true
  names := {}
  label := some "Group"
  messages := {}
  namesLastSync := none
  sent := []

/-- The `n`-th name that `alice` gives to the group. -/
def named (n : Fin (2 ^ 64)) (name : String) : NameCertificate (NameSender × NameChange) :=
  let change := ⟨"g", ⟨1, 0, n, "a1"⟩, name, "Alice", 7⟩
  ⟨change, alice, change⟩

/-- `alice` sends a certificate, and nothing is refused. -/
def hear (certificate : NameCertificate (NameSender × NameChange)) :
    NameInput (NameSender × NameChange) × NameFaults (NameSender × NameChange) :=
  (.metadata .state 1 (.ok (.state certificate)) alice, ⟨none, fun _ => none⟩)

/-- Two members that hear of two names, in different orders, show the later one. -/
theorem shared_name_converges_plans :
    let auth := plainAuth alice
    let first := named 1 "Draft"
    let second := named 2 "Plans"
    let bob := [hear first, hear second].foldl (·.step auth) (memberOf [0xb0])
    let carol := [hear second, hear first, hear second].foldl (·.step auth) (memberOf [0xc0])
    bob.label = carol.label ∧ bob.label = some "Plans" := by
  have hmem : ∀ c, c ∈ (memberOf [0xb0]).accepted (plainAuth alice)
        [hear (named 1 "Draft"), hear (named 2 "Plans")] ↔
      c ∈ (memberOf [0xc0]).accepted (plainAuth alice)
        [hear (named 2 "Plans"), hear (named 1 "Draft"), hear (named 2 "Plans")] := by
    have hb : (memberOf [0xb0]).accepted (plainAuth alice)
        [hear (named 1 "Draft"), hear (named 2 "Plans")] =
          [named 1 "Draft", named 2 "Plans"] := by decide +kernel
    have hc : (memberOf [0xc0]).accepted (plainAuth alice)
        [hear (named 2 "Plans"), hear (named 1 "Draft"), hear (named 2 "Plans")] =
          [named 2 "Plans", named 1 "Draft", named 2 "Plans"] := by decide +kernel
    intro c
    rw [hb, hc]
    simp only [List.mem_cons, List.not_mem_nil, or_false]
    tauto
  have hhear : ∀ certificate, ∀ text now, (hear certificate).1 ≠ .rename text now := nofun
  refine ⟨((shared_name_converges (plainAuth alice) (plainAuth alice) (memberOf [0xb0])
    (memberOf [0xc0]) ⟨rfl, rfl⟩ ⟨rfl, rfl⟩).2 _ _ (fun l hl => ?_) hmem).2 (.inr rfl),
    by decide +kernel⟩
  simp only [List.cons_append, List.nil_append, List.mem_cons, List.not_mem_nil, or_false] at hl
  rcases hl with rfl | rfl | rfl | rfl | rfl <;> exact hhear _

end NamedGroup

end Mosh.Group
