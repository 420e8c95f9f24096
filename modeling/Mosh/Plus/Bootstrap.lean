import Mosh.Library.Base64Url
import Mosh.Library.Hex
import Mosh.Plus.Purchase

/-!
# The start of a renewal series

The devices of an account share one renewal series. The device whose key is the account's draws it
and registers it with the server, the other devices take it from pages of synchronization, and no
device pays before all of a roster have it (`plus/bootstrap.rs`).

* `reconcilePlusRoster`, `acknowledgeSync`, `Bootstrap.commitIfSaved`: what a device knows of the
  others;
* `prepareSeries`, `confirmSeriesRegistered`: the series of the account;
* `prepareCheckout`, `bindCheckoutOffer`, `cancelCheckout`, `saveSchedule`: what a checkout writes;
* `setMainnetVisible`, `prepareRecovery`: what the user sets and asks for;
* `exportSync`: a page for another device;
* `openMainnet`: what a device starts with.
-/

namespace Mosh.Plus

open Checked

/-- What the devices of an account use of libraries, beyond what the purchases do: the identity of
    a device, JSON, and SHA-256. -/
structure DevicesCrypto (Key Json : Type) extends PlusCrypto Key Json where
  /-- The id of the device whose key is the key of an account. -/
  rootDevice : String → Option String
  /-- The hash of the JSON of a series, whether it is registered, and the hash of a roster. -/
  seriesDigest : Option PlusSeries × Bool × String → Option String
  encodePage : Page → Option String
  decodeState : List UInt8 → Option LocalState
  /-- The texts among the fields of the terms of an offer. -/
  parseOffer : String → Option (String → Option String)

variable {Key Json : Type} [DecidableEq Json] (c : DevicesCrypto Key Json)

/-- The series is committed once all members of the roster have acknowledged it. -/
def Bootstrap.commitIfSaved (b : Bootstrap) : Bootstrap :=
  { b with committed := b.committed || b.registered && !b.members.isEmpty &&
      b.members.all (b.acknowledgements.contains ·) }

/-- The record of a row. -/
def LocalState.load : Option (List UInt8) → Except String (Option LocalState)
  | none => .ok none
  | some bytes => (getOr "invalid saved PLUS purchase" (c.decodeState bytes)).map some

/-- A record that must not be replaced by the one of another account. -/
def LocalState.holdsPurchase (state : LocalState) : Bool := !state.mainnet.orders.isEmpty

namespace PlusRuntime

variable (s : PlusRuntime Key)

/-- What a device starts with: the row of its store, unless that is another account's. -/
def openMainnet (row : Option (List UInt8)) (accountId : String) (issuer : Issuer Key)
    (writer : String) : Except String (PlusRuntime Key) := do
  discard (subjectMessage accountId)
  let state := (← LocalState.load c row).getD { accountId := accountId }
  check "PLUS purchase belongs to a different account"
    (state.accountId = accountId || !state.holdsPurchase)
  return ⟨row, issuer, if state.accountId = accountId then state else { accountId := accountId },
    writer⟩

/-- A save that writes what the account has bought. -/
def saveMainnet (mainnet : MainnetState) (refused : Option String) :
    Except String (PlusRuntime Key) :=
  s.save c.toPlusCrypto { s.state with mainnet := mainnet } refused

def saveBootstrap (bootstrap : Bootstrap) (refused : Option String) :
    Except String (PlusRuntime Key) :=
  s.saveMainnet c { s.state.mainnet with bootstrap := bootstrap } refused

/-! ### The roster and the series -/

/-- The roster that the device link has verified. -/
def reconcilePlusRoster (roster initializer : String) (members : List String)
    (refused : Option String) : Except String (PlusRuntime Key) :=
  let b := s.state.mainnet.bootstrap
  if s.issuer.mainnetKeyId.isNone then .ok s
  else if 64 < members.length ∨ roster = "" ∨ initializer = "" then
    .error "invalid PLUS device roster"
  else if b.roster = roster ∧ b.initializer = initializer ∧ b.members = members then .ok s
  else
    -- acknowledgements are of a roster
    let known := if b.roster = roster then b.acknowledgements else ∅
    s.saveBootstrap c (Bootstrap.commitIfSaved { b with
      roster := roster
      initializer := initializer
      members := members
      acknowledgements := if b.registered then known.insert s.writer else known }) refused

def canInitializeSeries : Bool :=
  s.writer = s.state.mainnet.bootstrap.initializer &&
    s.state.mainnet.bootstrap.members.contains s.writer && !s.state.mainnet.bootstrap.conflict

def checkoutReady : Bool :=
  s.state.mainnet.series.isSome && s.state.mainnet.bootstrap.registered &&
    s.state.mainnet.bootstrap.committed && !s.state.mainnet.bootstrap.conflict &&
    s.state.mainnet.bootstrap.members.contains s.writer

def saveSeries (id token : String) (refused : Option String) :
    Except String (PlusRuntime Key) := do
  check "invalid PLUS renewal series" (s.issuer.mainnetKeyId.isSome && id ≠ "" &&
    id.utf8ByteSize ≤ 128 && 32 ≤ token.utf8ByteSize && token.utf8ByteSize ≤ 128)
  check "PLUS renewal series already exists" (s.state.mainnet.series.all (· = ⟨id, token⟩))
  s.saveMainnet c { s.state.mainnet with series := some ⟨id, token⟩ } refused

/-- The series of the account, drawn where there is none yet. -/
def prepareSeries (random : List UInt8) (refused : Option String) :
    Except String (PlusSeries × PlusRuntime Key) := do
  check "PLUS is waiting for the original device to synchronize" s.canInitializeSeries
  match s.state.mainnet.series with
  | some series => return (series, s)
  | none => do
    let next ← s.saveSeries c (Hex.encode (random.take 24))
      (Hex.encode (random.drop 24)) refused
    let series ← getOr "missing PLUS series" next.state.mainnet.series
    return (series, next)

def confirmSeriesRegistered (id : String) (refused : Option String) :
    Except String (PlusRuntime Key) := do
  check "PLUS series registration mismatch"
    (s.canInitializeSeries && s.state.mainnet.series.any (·.id = id))
  let b := s.state.mainnet.bootstrap
  s.saveBootstrap c (Bootstrap.commitIfSaved { b with
    registered := true
    acknowledgements := b.acknowledgements.insert s.writer }) refused

def seriesDigest : Except String String :=
  getOr "PLUS series encoding failed" (c.seriesDigest (s.state.mainnet.series,
    s.state.mainnet.bootstrap.registered, s.state.mainnet.bootstrap.roster))

/-- Another device says what it has saved. -/
def acknowledgeSync (device digest : String) (refused : Option String) :
    Except String (PlusRuntime Key) :=
  let b := s.state.mainnet.bootstrap
  if !b.registered || !b.members.contains device then .ok s
  else do
    let own ← s.seriesDigest c
    if own ≠ digest || b.acknowledgements.contains device then return s
    s.saveBootstrap c (Bootstrap.commitIfSaved { b with
      acknowledgements := b.acknowledgements.insert device }) refused

/-! ### Checkouts and settings -/

def cancelCheckout (refused : Option String) : Except String (PlusRuntime Key) := do
  check "not a production PLUS account" s.issuer.mainnetKeyId.isSome
  s.saveMainnet c { s.state.mainnet with checkoutIntent := none } refused

def prepareCheckout (asset : String) (random : List UInt8) (refused : Option String) :
    Except String (PlusCheckoutIntent × PlusRuntime Key) := do
  check "PLUS checkout is not ready" (s.checkoutReady && (asset = "USDC" || asset = "CLXAI"))
  match s.state.mainnet.checkoutIntent with
  | some intent =>
    check "PLUS checkout is already pending" (intent.asset = asset)
    return (intent, s)
  | none =>
    let intent : PlusCheckoutIntent := ⟨Hex.encode random, asset, none⟩
    let next ← s.saveMainnet c { s.state.mainnet with checkoutIntent := some intent } refused
    return (intent, next)

def bindCheckoutOffer (json : String) (refused : Option String) :
    Except String (PlusCheckoutIntent × PlusRuntime Key) := do
  check "PLUS checkout terms exceed size limit" (json.utf8ByteSize ≤ 4096)
  let offer ← getOr "invalid PLUS checkout terms" (c.parseOffer json)
  let intent ← getOr "no PLUS checkout" s.state.mainnet.checkoutIntent
  check "PLUS checkout terms mismatch" (offer "asset" = some intent.asset &&
    offer "issuer_key_id" = s.issuer.mainnetKeyId && offer "network" = some "solana-mainnet" &&
    offer "product" = some "mosh-plus-supporter-30d")
  check "PLUS checkout terms already fixed" (intent.offerJson.all (· = json))
  let intent := { intent with offerJson := some json }
  let next ← s.saveMainnet c { s.state.mainnet with checkoutIntent := some intent } refused
  return (intent, next)

def saveSchedule (id : String) (reservedUntilMs : Nat) (refused : Option String) :
    Except String (PlusRuntime Key) := do
  check "invalid PLUS renewal schedule"
    (s.state.mainnet.series.any (·.id = id) && reservedUntilMs % dayMs = 0)
  s.saveMainnet c { s.state.mainnet with
    reservedUntilMs := some (max (s.state.mainnet.reservedUntilMs.getD 0) reservedUntilMs) } refused

/-- Whether others see what the account has. A change counts up. -/
def setMainnetVisible (visible : Bool) (refused : Option String) :
    Except String (PlusRuntime Key) := do
  let m := s.state.mainnet
  check "PLUS revision exhausted" (s.state.visible = visible || m.visibilityCounter + 1 < 2 ^ 64)
  s.save c.toPlusCrypto { s.state with
    visible := visible
    everVisible := s.state.everVisible || visible
    mainnet := if s.state.visible = visible then m else { m with
      visibilityCounter := m.visibilityCounter + 1
      visibilityWriter := s.writer } } refused

/-- A session for the recovery by a wallet, unless there is one that has not ended. -/
def prepareRecovery (now : Nat) (random : List UInt8) (refused : Option String) :
    Except String (PlusRuntime Key) := do
  check "PLUS recovery is waiting for account synchronization" s.checkoutReady
  if s.state.mainnet.recovery.any (now < ·.expiresAtMs) then return s
  let seed := (s.state.mainnet.recovery.map (·.seed)).getD (random.take 32)
  check "invalid recovery deadline" (now + 900000 < 2 ^ 64)
  s.saveMainnet c { s.state.mainnet with recovery := some {
    seed := seed
    id := Base64Url.encode ((random.drop 32).take 24)
    pollToken := Base64Url.encode (random.drop 56)
    expiresAtMs := now + 900000
    url := none
    orders := ∅ } } refused

/-! ### Pages for other devices -/

/-- Four orders after an id, with all that belongs to them. -/
def exportItems (after : Option String) : List Item :=
  ((s.state.mainnet.orders.toList.filter fun row => after.all (· < row.1)).take 4).map
    fun (id, order) => ⟨order, s.state.mainnet.orderWriters[id]?.getD "",
      s.state.mainnet.prepared[id]?, s.state.mainnet.certificates[id]?⟩

def exportPage (issuer : String) (after : Option String) : Page :=
  let items := s.exportItems after
  { account := s.state.accountId
    issuer := issuer
    -- a series that is not registered stays on its device
    series := if s.state.mainnet.bootstrap.registered then s.state.mainnet.series else none
    committed := s.state.mainnet.bootstrap.committed
    counter := s.state.mainnet.visibilityCounter
    writer := s.state.mainnet.visibilityWriter
    visible := s.state.visible
    items := items
    next := if items.length = 4 then items.getLast?.map (·.order.id) else none }

def exportSync (after : Option String) : Except String (Option String) :=
  match s.issuer.mainnetKeyId with
  | none => .ok none
  | some issuer => do
    let json ← getOr "PLUS sync encoding failed" (c.encodePage (s.exportPage issuer after))
    check "PLUS sync page exceeds size limit" (json.utf8ByteSize ≤ 24000)
    return some json

end PlusRuntime

end Mosh.Plus
