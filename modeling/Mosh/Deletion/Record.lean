import Mathlib

/-!
# Deletion records

A deletion is a record (`message_deletion/book.rs`) that names its target by a key.
A *personal* one hides a message from its owner, on all devices of the account. A
*shared* one erases it for everyone: it carries the signed request of the user who
wants the message gone, and is confirmed once somebody else acknowledges that it is
saved. Records with the same storage key are versions of one record, and `merged`
says which of two of them stays.

* `merged_self`: merging a record with itself does nothing.
* `matches_effective`: a personal alias that is the target itself is no alias.
-/

namespace Mosh.Deletion

/-- For whom a message is deleted. -/
inductive DeleteScope
  | forMe | forEveryone
  deriving DecidableEq, Repr

/-- How far a deletion is. -/
inductive DeletionStatus
  | pending | confirmed | rejected
  deriving DecidableEq, Repr

/-- What is left of an erased message. -/
structure DeletionMarker where
  scope : DeleteScope
  status : DeletionStatus
  administrator : Option String
  deriving DecidableEq, Repr

/-- The proof of an original send. -/
structure MessageOrigin where
  conversation : String
  id : String
  contentHash : String
  author : String
  signature : String
  ownership : Option String
  deriving DecidableEq, Repr

/-- What stays of a message when its content is erased. -/
structure MessageMetadata where
  origin : Option MessageOrigin := none
  deletion : Option DeletionMarker := none
  deletionKey : Option String := none
  personalCorrelation : Option String := none
  canDeleteForEveryone : Bool := false
  localOnly : Bool := false
  isOwn : Option Bool := none
  deriving DecidableEq, Repr

/-- The request to delete a message for everyone, signed by its actor. -/
structure DeleteRequest where
  operation : String
  target : MessageOrigin
  actor : String
  actorName : String
  moderated : Bool
  epoch : Nat
  signature : String
  ownership : Option String
  deriving DecidableEq, Repr

/-- The receipt of a user who saved a deletion. -/
structure DeleteAck where
  requestDigest : String
  actor : String
  signature : String
  ownership : Option String
  deriving DecidableEq, Repr

/-- A deletion. -/
structure DeletionRecord where
  context : String
  key : String
  personalCorrelation : Option String
  scope : DeleteScope
  owner : String
  localOnly : Bool
  status : DeletionStatus
  administrator : Option String
  request : Option DeleteRequest
  acknowledgement : Option DeleteAck
  deriving DecidableEq, Repr

namespace DeletionRecord

/-- The actor of the acknowledgement, below all actors if there is none. -/
def actor (r : DeletionRecord) : WithBot String := r.acknowledgement.map (·.actor)

/-- The record is sent to the devices of the account. -/
def visibleToAccount (r : DeletionRecord) (user : String) : Bool :=
  (r.scope = .forMe && r.owner = user && !r.localOnly) ||
    (r.scope = .forEveryone && r.status ≠ .rejected)

/-- Which of two versions of a record stays. -/
def merged (self incoming : DeletionRecord) : DeletionRecord :=
  if self.scope = .forMe ∧ self.personalCorrelation = none ∧
      incoming.personalCorrelation ≠ none then incoming
  else if self.status = .confirmed ∧
      (incoming.status ≠ .confirmed ∨ self.actor ≤ incoming.actor) then self
  else if self.status = .rejected ∧ incoming.status = .pending then self
  else incoming

/-- The operation of the request, if there is one. -/
def operation (r : DeletionRecord) : String := (r.request.map (·.operation)).getD ""

/-- The key of the record in the journal. -/
def storageKey (r : DeletionRecord) : String :=
  r.context ++ "\x01" ++ r.owner ++ "\x01" ++
    (if r.scope = .forMe then "personal" else "shared") ++ "\x01" ++ r.key ++ ":" ++ r.operation

/-- The record deletes the message with the target key and the personal alias. -/
def «matches» (r : DeletionRecord) (target : String) (personalCorrelation : Option String) :
    Bool :=
  r.key = target ||
    (r.scope = .forMe && (r.personalCorrelation = some target ||
      personalCorrelation.any fun key => r.key = key || r.personalCorrelation = some key))

/-- What the record leaves of a message: a rejected one hides it from the user alone. -/
def marker (r : DeletionRecord) : DeletionMarker where
  scope := if r.status = .rejected then .forMe else r.scope
  status := r.status
  administrator := r.administrator

/-- Merging a record with itself does nothing. -/
@[simp]
theorem merged_self (r : DeletionRecord) : r.merged r = r := by
  rw [merged]
  split_ifs <;> rfl

/-- One of two records stays. -/
theorem merged_eq_or (a b : DeletionRecord) : a.merged b = a ∨ a.merged b = b := by
  rw [merged]
  split_ifs <;> simp

/-- An alias that is the target itself makes no difference. -/
theorem matches_effective (r : DeletionRecord) (target : String) (correlation : Option String) :
    r.matches target (correlation.filter (· ≠ target)) = r.matches target correlation := by
  cases correlation with
  | none => rfl
  | some a =>
    by_cases ha : a = target
    · subst ha
      by_cases hk : r.key = a <;> by_cases hp : r.personalCorrelation = some a <;>
        simp [«matches», Option.filter, hk, hp]
    · simp [Option.filter, ha]

end DeletionRecord

end Mosh.Deletion
