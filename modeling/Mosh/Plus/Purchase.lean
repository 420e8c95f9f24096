import Mosh.Plus.Coverage
import Mosh.Plus.Orders

/-!
# The purchases of an account

An account keeps its orders, what it has prepared for them and the certificates that it got for
them in one record (`plus/purchase.rs`). They come from the server (`plus/mainnet.rs`), from other
devices of the account (`plus/sync.rs`) and from the recovery by a wallet (`plus/recovery.rs`).

* `saveMainnetOrder`: an order of the server;
* `prepareOrderIssuance`, `completeOrderIssuance`: the blind signature for an order;
* `mergeSync`: a page of another device;
* `saveRecoveryStatus`: the orders that a wallet paid;
* `run`: a call of any of these.
-/

namespace Mosh.Plus

open Checked

/-! ## What is stored -/

inductive PlusPaymentStatus
  | awaitingPayment | paid | issued
  deriving DecidableEq, Repr

namespace PlusPaymentStatus

def rank : PlusPaymentStatus → Fin 3
  | awaitingPayment => 0
  | paid => 1
  | issued => 2

instance : LinearOrder PlusPaymentStatus :=
  LinearOrder.lift' rank fun a b h => by cases a <;> cases b <;> first | rfl | cases h

end PlusPaymentStatus

/-- An order, with all that is stored of it. -/
structure Order extends PlusOrder where
  status : PlusPaymentStatus
  accessToken : Option String
  transactionSignature : Option String
  expiresAtMs : Option Nat
  blindSignatureB64 : Option String
  issuerKeyId : Option String
  seriesId : Option String
  validFromMs : Option Nat
  requestId : Option String
  deriving DecidableEq, Repr

/-- The fields of the offer. -/
def Order.sameOffer (o other : Order) : Bool :=
  o.toPlusOrder = other.toPlusOrder && o.issuerKeyId = other.issuerKeyId &&
    o.seriesId = other.seriesId && o.requestId = other.requestId

structure PlusSeries where
  id : String
  accessToken : String
  deriving DecidableEq, Repr

structure PreparedIssuance where
  accountId : String
  expiresAtMs : Nat
  blindedMessageB64 : String
  secretB64 : String
  mainnet : Option MainnetClaims
  deriving DecidableEq, Repr

def PreparedIssuance.«matches» (prepared : PreparedIssuance) (account : String)
    («from» «until» : Option Nat) (issuerKeyId : Option String) : Bool :=
  prepared.accountId = account && some prepared.expiresAtMs = «until» &&
    prepared.mainnet.map (·.validFromMs) = «from» &&
    prepared.mainnet.map (·.issuerKeyId) = issuerKeyId &&
    prepared.blindedMessageB64.utf8ByteSize ≤ 700 && prepared.secretB64.utf8ByteSize ≤ 700

structure PlusCheckoutIntent where
  requestId : String
  asset : String
  offerJson : Option String
  deriving DecidableEq, Repr

structure Bootstrap where
  roster : String := ""
  initializer : String := ""
  members : List String := []
  registered : Bool := false
  committed : Bool := false
  conflict : Bool := false
  acknowledgements : Std.ExtTreeSet String compare := ∅

structure RecoveryState where
  seed : List UInt8
  id : String
  pollToken : String
  expiresAtMs : Nat
  url : Option String
  orders : Std.ExtTreeSet String compare

structure MainnetState where
  series : Option PlusSeries := none
  orders : Std.ExtTreeMap String Order compare := ∅
  prepared : Std.ExtTreeMap String PreparedIssuance compare := ∅
  certificates : Certificates := ∅
  visibilityCounter : Nat := 0
  visibilityWriter : String := ""
  bootstrap : Bootstrap := {}
  orderWriters : Std.ExtTreeMap String String compare := ∅
  checkoutIntent : Option PlusCheckoutIntent := none
  reservedUntilMs : Option Nat := none
  recovery : Option RecoveryState := none

/-- The record of an account. -/
structure LocalState where
  accountId : String
  visible : Bool := false
  everVisible : Bool := false
  mainnet : MainnetState := {}

/-! ## What arrives -/

/-- An order of another device, with all that belongs to it. -/
structure Item where
  order : Order
  writer : String
  prepared : Option PreparedIssuance
  certificate : Option Certificate
  deriving DecidableEq, Repr

structure Page where
  account : String
  issuer : String
  series : Option PlusSeries
  committed : Bool
  counter : Nat
  writer : String
  visible : Bool
  items : List Item
  next : Option String
  deriving DecidableEq, Repr

structure RecoveryStatus where
  id : String
  code : String
  expiresAtMs : Nat
  url : String
  orders : List Order
  deriving DecidableEq, Repr

/-- The URL of a recovery, as the url crate reads it. -/
structure RecoveryUrl where
  scheme : String
  username : String
  password : Option String
  query : Option String
  fragment : Option String
  path : String
  deriving DecidableEq, Repr

/-- What the purchases use of libraries: blind signatures, JSON and URLs. -/
structure PlusCrypto (Key Json : Type) extends BlindRsa Key where
  /-- Blind a message under metadata, with the randomness that is drawn: the blinded message and
      the secret. -/
  blind : Key → List UInt8 → List UInt8 → List UInt8 → Option (List UInt8 × List UInt8)
  finalize : Key → List UInt8 → List UInt8 × List UInt8 → List UInt8 → List UInt8 →
    Option (List UInt8)
  /-- The code of a recovery, which is a hash of the key of the seed. -/
  recoveryCode : List UInt8 → String
  parseOrder : String → Option Order
  parsePage : String → Option Page
  parseStatus : String → Option RecoveryStatus
  /-- The fields of the terms of a checkout, if they are an object, and a field of an order. -/
  parseTerms : String → Option (Option (List (String × Json)))
  quoteField : Order → String → Option Json
  parsePaymentUrl : String → Option PaymentUrl
  parseRecoveryUrl : String → Option RecoveryUrl
  encodeState : LocalState → Option (List UInt8)

variable {Key Json : Type} [DecidableEq Json] (c : PlusCrypto Key Json)

/-- The text of a refusal. An overflow does not occur. -/
def PlusFault.text : PlusFault → String
  | .refused message => message
  | .overflow => "overflow"

def Order.validate (o : Order) : Except String Unit :=
  (o.toPlusOrder.validate c.parsePaymentUrl).mapError (·.text)

def PlusCheckoutIntent.validateQuote (intent : PlusCheckoutIntent) (order : Order) :
    Except String Unit :=
  match intent.offerJson with
  | none => .ok ()
  | some terms => do
    let terms ← getOr "invalid PLUS checkout terms" (c.parseTerms terms)
    check "PLUS checkout quote changed"
      (terms.any fun terms => terms.all fun field => c.quoteField order field.1 = some field.2)

namespace Issuer

variable (issuer : Issuer Key)

def prepareClaims (accountId : String) (expiresAtMs : Nat) (mainnet : Option MainnetClaims)
    (random : List UInt8) : Except String PreparedIssuance := do
  check "invalid PLUS issuance expiry" (expiresAtMs ≠ 0 && expiresAtMs % dayMs = 0)
  let metadata := claimsMetadata expiresAtMs mainnet
  let message ← subjectMessage accountId
  let key ← getOr "invalid PLUS metadata" (c.derivePublicKeyForMetadata issuer.key metadata)
  let blinding ← getOr "PLUS blinding failed" (c.blind key message metadata random)
  return ⟨accountId, expiresAtMs, Base64.encode blinding.1, Base64.encode blinding.2, mainnet⟩

def finalize (prepared : PreparedIssuance) (reply : String) (nowMs : Nat) :
    Except String Certificate := do
  let metadata := claimsMetadata prepared.expiresAtMs prepared.mainnet
  let message ← subjectMessage prepared.accountId
  let key ← getOr "invalid PLUS metadata" (c.derivePublicKeyForMetadata issuer.key metadata)
  let blinded ← decodeProof prepared.blindedMessageB64 700
  let secret ← decodeProof prepared.secretB64 700
  let reply ← decodeProof reply 700
  let signature ← getOr "invalid PLUS issuance reply"
    (c.finalize key reply (blinded, secret) message metadata)
  let certificate : Certificate :=
    ⟨prepared.accountId, prepared.expiresAtMs, Base64.encode signature, prepared.mainnet⟩
  issuer.verifyClaims c.toBlindRsa certificate prepared.accountId
  check "PLUS certificate expired" (nowMs < certificate.expiresAtMs)
  return certificate

end Issuer

/-! ## The runtime -/

/-- The runtime of an account, with the row that its store has. -/
structure PlusRuntime (Key : Type) where
  row : Option (List UInt8)
  issuer : Issuer Key
  state : LocalState
  writer : String

namespace PlusRuntime

variable (s : PlusRuntime Key)

/-- The state and the row are replaced together. The store may refuse the write. -/
def save (next : LocalState) (refused : Option String) : Except String (PlusRuntime Key) := do
  let bytes ← getOr "PLUS purchase encoding failed" (c.encodeState next)
  match refused with
  | some error => throw error
  | none => return { s with
      row := some bytes
      state := next }

/-! ### Orders of the server -/

/-- An order that is known goes on with its access token, and there is room for a new one. -/
def acceptOrder (order : Order) : Except String Order :=
  match s.state.mainnet.orders[order.id]? with
  | some old => do
    check "PLUS order changed after acceptance" (old.sameOffer order && old.status ≤ order.status &&
      old.expiresAtMs.all (some · = order.expiresAtMs) &&
      old.validFromMs.all (some · = order.validFromMs))
    return { order with accessToken := old.accessToken }
  | none => do
    check "PLUS order limit reached" (s.state.mainnet.orders.size < 512)
    return order

/-- The intent that a new order has to answer, and what is left of it. -/
def answerIntent (order : Order) : Except String (Option PlusCheckoutIntent) :=
  if s.state.mainnet.orders.contains order.id then .ok s.state.mainnet.checkoutIntent
  else
    match s.state.mainnet.checkoutIntent with
    | none => .ok none
    | some intent => do
      check "PLUS checkout response mismatch"
        (order.requestId = some intent.requestId && order.asset = some intent.asset)
      intent.validateQuote c order
      return none

def saveMainnetOrder (json : String) (refused : Option String) :
    Except String (PlusRuntime Key) := do
  check "PLUS order exceeds size limit" (json.utf8ByteSize ≤ 16384)
  let order ← getOr "invalid PLUS order" (c.parseOrder json)
  order.validate c
  check "PLUS order issuer/series mismatch" (order.issuerKeyId = s.issuer.mainnetKeyId &&
    order.network = "solana-mainnet" && order.seriesId = s.state.mainnet.series.map (·.id))
  let order ← s.acceptOrder order
  check "invalid PLUS order capability"
    (order.accessToken.any fun token => 32 ≤ token.utf8ByteSize && token.utf8ByteSize ≤ 128)
  let intent ← s.answerIntent c order
  s.save c { s.state with mainnet := { s.state.mainnet with
    checkoutIntent := intent
    orderWriters := s.state.mainnet.orderWriters.insertIfNew order.id s.writer
    orders := s.state.mainnet.orders.insert order.id order } } refused

/-! ### Issuance -/

def prepareOrderIssuance (id : String) (random : List UInt8) (refused : Option String) :
    Except String (String × PlusRuntime Key) :=
  match s.state.mainnet.prepared[id]? with
  | some prepared => .ok (prepared.blindedMessageB64, s)
  | none => do
    check "PLUS issuance is waiting for its device to synchronize"
      (s.state.mainnet.orderWriters[id]?.all (· = s.writer))
    let order ← getOr "no PLUS order" s.state.mainnet.orders[id]?
    check "PLUS payment is not ready" (order.status ≠ .awaitingPayment)
    let issuerKeyId ← getOr "not mainnet" s.issuer.mainnetKeyId
    let validFromMs ← getOr "missing PLUS start" order.validFromMs
    let untilMs ← getOr "missing PLUS expiry" order.expiresAtMs
    check "invalid PLUS interval" (validFromMs < untilMs && validFromMs % dayMs = 0)
    let prepared ← s.issuer.prepareClaims c s.state.accountId untilMs
      (some ⟨issuerKeyId, validFromMs⟩) random
    let next ← s.save c { s.state with mainnet := { s.state.mainnet with
      prepared := s.state.mainnet.prepared.insert id prepared } } refused
    return (prepared.blindedMessageB64, next)

def completeOrderIssuance (id reply : String) (now : Nat) (refused : Option String) :
    Except String (PlusRuntime Key) := do
  let prepared ← getOr "no pending PLUS issuance" s.state.mainnet.prepared[id]?
  let certificate ← s.issuer.finalize c prepared reply now
  let order ← getOr "no PLUS order" s.state.mainnet.orders[id]?
  s.save c { s.state with mainnet := { s.state.mainnet with
    certificates := s.state.mainnet.certificates.insert id certificate
    orders := s.state.mainnet.orders.insert id { order with status := .issued } } } refused

/-! ### Pages of other devices -/

/-- The series of a page. A conflict is saved, and ends the call. -/
def mergeSyncSeries (series : Option PlusSeries) (committed : Bool) (refused : Option String) :
    Except (String × PlusRuntime Key) LocalState :=
  match series with
  | none => if committed then .error ("missing committed PLUS series", s) else .ok s.state
  | some series =>
    if series.id.isEmpty ∨ 128 < series.id.utf8ByteSize ∨ series.accessToken.utf8ByteSize < 32 ∨
        128 < series.accessToken.utf8ByteSize then .error ("invalid PLUS series", s)
    else if s.state.mainnet.series.any (· ≠ series) then
      match s.save c { s.state with mainnet := { s.state.mainnet with
          bootstrap := { s.state.mainnet.bootstrap with conflict := true } } } refused with
      | .error e => .error (e, s)
      | .ok s => .error ("conflicting PLUS renewal series", s)
    else .ok { s.state with mainnet := { s.state.mainnet with
      series := some series
      bootstrap := { s.state.mainnet.bootstrap with
        registered := true
        committed := s.state.mainnet.bootstrap.committed || committed
        acknowledgements := s.state.mainnet.bootstrap.acknowledgements.insert s.writer } } }

/-- The later visibility stays. -/
def mergeVisibility (next : LocalState) (page : Page) : Except String LocalState :=
  let known := (next.mainnet.visibilityCounter, next.mainnet.visibilityWriter)
  if toLex known < toLex (page.counter, page.writer) then
    .ok { next with
      visible := page.visible
      mainnet := { next.mainnet with
        visibilityCounter := page.counter
        visibilityWriter := page.writer } }
  else if known = (page.counter, page.writer) ∧ next.visible ≠ page.visible then
    .error "conflicting PLUS visibility"
  else .ok next

def mergeSyncCertificate (state : MainnetState) (item : Item) : Except String Certificates :=
  match item.certificate with
  | none => .ok state.certificates
  | some certificate => do
    s.issuer.verifyClaims c.toBlindRsa certificate s.state.accountId
    check "synchronized PLUS certificate interval mismatch"
      (certificate.expiresAtMs = item.order.expiresAtMs.getD 0 &&
        certificate.mainnet.map (·.validFromMs) = item.order.validFromMs)
    return state.certificates.insert item.order.id certificate

def mergeSyncPrepared (state : MainnetState) (item : Item) :
    Except String (Std.ExtTreeMap String PreparedIssuance compare) :=
  match item.prepared with
  | none => .ok state.prepared
  | some prepared => do
    check "invalid PLUS issuance state" (prepared.matches s.state.accountId item.order.validFromMs
      item.order.expiresAtMs item.order.issuerKeyId)
    return state.prepared.insert item.order.id prepared

/-- An order takes the place of the one that is stored, unless that one is further on. -/
def mergeSyncItem (state : MainnetState) (item : Item) : Except String MainnetState := do
  item.order.validate c
  check "invalid synchronized PLUS order" (item.writer ≠ "" && item.writer.utf8ByteSize ≤ 128 &&
    item.order.issuerKeyId = s.issuer.mainnetKeyId && item.order.network = "solana-mainnet")
  let old := state.orders[item.order.id]?
  check "conflicting PLUS order" (old.all fun old => old.sameOffer item.order &&
    state.orderWriters[item.order.id]?.all (· = item.writer))
  if old.any fun old => item.order.status < old.status then return state
  check "conflicting PLUS interval" (old.all fun old =>
    old.validFromMs.all (some · = item.order.validFromMs) &&
      old.expiresAtMs.all (some · = item.order.expiresAtMs))
  let certificates ← s.mergeSyncCertificate c state item
  let prepared ← s.mergeSyncPrepared state item
  return { state with
    certificates := certificates
    prepared := prepared
    orderWriters := state.orderWriters.insertIfNew item.order.id item.writer
    orders := state.orders.insert item.order.id item.order }

/-- What a page leaves of the state, its series merged already. -/
def mergeSyncPage (next : LocalState) (page : Page) : Except String LocalState := do
  let next ← mergeVisibility next page
  let next := { next with everVisible := next.everVisible || 0 < page.counter }
  let mainnet ← page.items.foldlM (s.mergeSyncItem c) next.mainnet
  check "PLUS order limit reached" (mainnet.orders.size ≤ 512)
  return { next with mainnet := mainnet }

def mergeSync (json : String) (refused : Option String) :
    Except String (Option String) × PlusRuntime Key :=
  if 24000 < json.utf8ByteSize then (.error "PLUS sync page exceeds size limit", s)
  else
    match c.parsePage json with
    | none => (.error "invalid PLUS sync page", s)
    | some page =>
      if page.account ≠ s.state.accountId ∨ s.issuer.mainnetKeyId ≠ some page.issuer ∨
          4 < page.items.length ∨ 128 < page.writer.utf8ByteSize then
        (.error "PLUS sync account/issuer mismatch", s)
      else
        match s.mergeSyncSeries c page.series page.committed refused with
        | .error (e, s) => (.error e, s)
        | .ok next =>
          match s.mergeSyncPage c next page >>= (s.save c · refused) with
          | .error e => (.error e, s)
          | .ok s => (.ok page.next, s)

/-! ### Recovery by a wallet -/

def RecoveryStatus.validate (status : RecoveryStatus) (id code : String) (now : Nat) :
    Except String Unit := do
  let url ← getOr "invalid PLUS recovery URL" (c.parseRecoveryUrl status.url)
  check "PLUS recovery session mismatch" (status.id = id && status.code = code &&
    now < status.expiresAtMs && status.expiresAtMs ≤ min (now + 86400000) (2 ^ 64 - 1) &&
    status.orders.length ≤ 32 && (url.scheme = "http" || url.scheme = "https") &&
    url.username.isEmpty && url.password.isNone && url.query.isNone && url.fragment.isNone &&
    url.path = "/recover/" ++ id)

/-- A recovered order has no access token of its own. -/
def mergeRecoveredOrder (now : Nat) (next : MainnetState) (order : Order) :
    Except String MainnetState := do
  order.validate c
  check "invalid recovered PLUS interval" (order.network = "solana-mainnet" &&
    order.issuerKeyId = s.issuer.mainnetKeyId && order.validFromMs.isSome &&
    order.expiresAtMs.any (now < ·))
  let old := next.orders[order.id]?
  check "recovered PLUS order changed" (old.all fun old => old.sameOffer order &&
    old.validFromMs = order.validFromMs && old.expiresAtMs = order.expiresAtMs)
  let recovery ← getOr "no recovery session" next.recovery
  return { next with
    orderWriters := next.orderWriters.insertIfNew order.id s.writer
    recovery := some { recovery with orders := recovery.orders.insert order.id }
    orders := next.orders.insert order.id { order with accessToken := old.bind (·.accessToken) } }

def saveRecoveryStatus (json : String) (now : Nat) (refused : Option String) :
    Except String (PlusRuntime Key) := do
  check "PLUS recovery response exceeds size limit" (json.utf8ByteSize ≤ 65536)
  let status ← getOr "invalid PLUS recovery response" (c.parseStatus json)
  let recovery ← getOr "no PLUS recovery session" s.state.mainnet.recovery
  RecoveryStatus.validate c status recovery.id (c.recoveryCode recovery.seed) now
  let mainnet ← status.orders.foldlM (s.mergeRecoveredOrder c now) s.state.mainnet
  check "PLUS order limit reached" (mainnet.orders.size ≤ 512)
  let recovery ← getOr "no recovery session" mainnet.recovery
  s.save c { s.state with mainnet := { mainnet with
    recovery := some { recovery with
      url := some status.url
      expiresAtMs := status.expiresAtMs } } } refused

/-! ## Calls -/

/-- The calls that write orders, each with what the store answers to the write. -/
inductive Call
  | saveOrder (json : String) (refused : Option String)
  | mergeSync (json : String) (refused : Option String)
  | saveRecoveryStatus (json : String) (now : Nat) (refused : Option String)
  | prepareOrderIssuance (id : String) (random : List UInt8) (refused : Option String)
  | completeOrderIssuance (id reply : String) (now : Nat) (refused : Option String)

/-- What came of a call that leaves the runtime as it was if it fails. -/
def outcome (x : Except String (PlusRuntime Key)) : Except String Unit × PlusRuntime Key :=
  match x with
  | .error e => (.error e, s)
  | .ok s => (.ok (), s)

def run : Call → Except String Unit × PlusRuntime Key
  | .saveOrder json refused => s.outcome (s.saveMainnetOrder c json refused)
  | .mergeSync json refused =>
    let (result, s) := s.mergeSync c json refused
    (result.map fun _ => (), s)
  | .saveRecoveryStatus json now refused => s.outcome (s.saveRecoveryStatus c json now refused)
  | .prepareOrderIssuance id random refused =>
    s.outcome ((s.prepareOrderIssuance c id random refused).map (·.2))
  | .completeOrderIssuance id reply now refused =>
    s.outcome (s.completeOrderIssuance c id reply now refused)

end PlusRuntime

end Mosh.Plus
