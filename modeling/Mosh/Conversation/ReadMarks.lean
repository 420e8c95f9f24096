import Mosh.Deletion.Target
import Mathlib.Data.List.Forall2

/-!
# Read marks

What the user has seen of a conversation (`conversation/read_marks.rs`) is two numbers: the
time from which messages are counted, and how many of the messages counted since have been
on screen. Which messages count is read off the log at every poll, so a message that is
erased in between is still to be counted as it was.

* `incoming_startingAfter`: nothing that a new mark found in the log is unread;
* `count_markRead`: nothing is unread once everything is read;
* `erase_unread`: the messages that count are the same before and after a message is erased,
  exactly if it was no call and no service line, or is kept out of the count by its author or
  its time;
* `erased_call_unread`: a call that is erased counts from then on.
-/

namespace Mosh.Conversation

open ConversationMessage Deletion

/-- A message of which erasure leaves the author and the time, and clears what makes it a
    service line or a call. -/
class ErasableMessage (M : Type) extends ConversationMessage M where
  author_setMetadata : ∀ m d, author (setMetadata m d) = author m := by intros; rfl
  author_eraseContent : ∀ m, author (eraseContent m) = author m := by intros; rfl
  sentAtMs_setMetadata : ∀ m d, sentAtMs (setMetadata m d) = sentAtMs m := by intros; rfl
  sentAtMs_eraseContent : ∀ m, sentAtMs (eraseContent m) = sentAtMs m := by intros; rfl
  isService_eraseContent : ∀ m, isService (eraseContent m) = false := by intros; rfl
  callId_eraseContent : ∀ m, callId (eraseContent m) = none := by intros; rfl

open ErasableMessage

attribute [simp] author_setMetadata author_eraseContent sentAtMs_setMetadata
  sentAtMs_eraseContent isService_eraseContent callId_eraseContent

instance : ErasableMessage ChatMessage where

instance : ErasableMessage GroupMessage where

instance : ErasableMessage ChannelMessage where

/-- The unread part of a conversation. -/
structure UnreadState where
  count : Nat
  firstUnreadMessageId : Option String
  deriving DecidableEq, Repr

/-- What the user has seen of a conversation. -/
structure ReadMark where
  floorMs : Nat
  seen : Nat
  deriving DecidableEq, Repr

namespace ReadMark

section Code

variable {M : Type} [ConversationMessage M]

/-- A new mark: history already held is read, the rest is not. -/
def startingAfter (log : List M) (nowMs : Nat) : ReadMark where
  floorMs := ((log.filterMap sentAtMs).max?).elim nowMs fun sent => (sent + 1) % 2 ^ 64
  seen := 0

/-- The message is this installation's own: its record says so, or its author is. -/
def own (ownAuthor : String) (m : M) : Bool :=
  (metadata m).bind (·.isOwn) = some true || author m = ownAuthor

/-- The message was sent since the floor; one without a time was. -/
def sinceFloor (mark : ReadMark) (m : M) : Bool := (sentAtMs m).getD mark.floorMs ≥ mark.floorMs

/-- The message can be unread. -/
def counts (mark : ReadMark) (ownAuthor : String) (m : M) : Bool :=
  !own ownAuthor m && !isService m && (callId m).isNone && mark.sinceFloor m

/-- The order of messages: by time, then by id. -/
def sendOrder (a b : M) : Bool :=
  (compareLex (compareOn sentAtMs) (compareOn messageId) a b).isLE

/-- The messages that can be unread, in send order. -/
def incoming (mark : ReadMark) (log : List M) (ownAuthor : String) : List M :=
  (log.filter (mark.counts ownAuthor)).mergeSort sendOrder

/-- What is unread. -/
def state (mark : ReadMark) (log : List M) (ownAuthor : String) : UnreadState :=
  let incoming := mark.incoming log ownAuthor
  let seen := min mark.seen incoming.length
  { count := (incoming.length - seen) % 2 ^ 32
    firstUnreadMessageId := incoming[seen]?.bind messageId }

/-- Everything incoming is now seen. -/
def markRead (mark : ReadMark) (log : List M) (ownAuthor : String) : ReadMark :=
  { mark with seen := (mark.incoming log ownAuthor).length % 2 ^ 32 }

/-- Nothing that a new mark found in the log is unread, apart from messages without a time. -/
theorem incoming_startingAfter {log : List M} {nowMs : Nat} {ownAuthor : String} {m : M}
    {sent : Nat} (hm : m ∈ log) (hsent : sentAtMs m = some sent)
    (hbound : ∀ m ∈ log, ∀ sent, sentAtMs m = some sent → sent + 1 < 2 ^ 64) :
    m ∉ (startingAfter log nowMs).incoming log ownAuthor := by
  have hmem : sent ∈ log.filterMap sentAtMs := List.mem_filterMap.2 ⟨m, hm, hsent⟩
  obtain ⟨newest, hnewest⟩ : ∃ newest, (log.filterMap sentAtMs).max? = some newest :=
    Option.isSome_iff_exists.1 (List.isSome_max?_of_mem hmem)
  obtain ⟨hin, hmax⟩ := List.max?_eq_some_iff.1 hnewest
  obtain ⟨last, hlast, htime⟩ := List.mem_filterMap.1 hin
  have hlt : newest + 1 < 2 ^ 64 := hbound last hlast newest htime
  have hle : sent ≤ newest := hmax sent hmem
  rw [incoming, List.mem_mergeSort, List.mem_filter, not_and]
  intro _
  have hfloor : (startingAfter log nowMs).floorMs = newest + 1 := by
    rw [startingAfter, hnewest]
    exact Nat.mod_eq_of_lt hlt
  have hsince : (startingAfter log nowMs).sinceFloor m = false := by
    rw [sinceFloor, hsent, hfloor, Option.getD_some]
    exact decide_eq_false (by omega)
  rw [counts, hsince, Bool.and_false]
  exact Bool.false_ne_true

/-- Nothing is unread once everything is read, if `seen` can hold the number. -/
theorem count_markRead {mark : ReadMark} {log : List M} {ownAuthor : String}
    (hlen : (mark.incoming log ownAuthor).length < 2 ^ 32) :
    (mark.markRead log ownAuthor).state log ownAuthor = ⟨0, none⟩ := by
  have hincoming : (mark.markRead log ownAuthor).incoming log ownAuthor =
      mark.incoming log ownAuthor := rfl
  have hseen : (mark.markRead log ownAuthor).seen = (mark.incoming log ownAuthor).length :=
    Nat.mod_eq_of_lt hlen
  rw [state, hincoming, hseen, Nat.min_self, Nat.sub_self, List.getElem?_eq_none le_rfl]
  rfl

/-- What is unread depends on the number of messages that count and on their ids. -/
theorem state_congr {mark : ReadMark} {ownAuthor : String} {log log' : List M}
    (h : (mark.incoming log' ownAuthor).map messageId = (mark.incoming log ownAuthor).map messageId) :
    mark.state log' ownAuthor = mark.state log ownAuthor := by
  have hlen : (mark.incoming log' ownAuthor).length = (mark.incoming log ownAuthor).length := by
    simpa using congrArg List.length h
  have hid : ∀ i : Nat, (mark.incoming log' ownAuthor)[i]?.bind (fun m : M => messageId m) =
      (mark.incoming log ownAuthor)[i]?.bind (fun m : M => messageId m) := by
    intro i
    have hi := congrArg (fun ids => ids[i]?.bind id) h
    simpa only [List.getElem?_map, Option.bind_map, Function.id_comp] using hi
  rw [state, state, hlen, hid]

end Code

/-! ## Replacing a message in a log -/

section Replace

variable {α : Type} {R : α → α → Prop}

/-- Lists that are related stay so when they are sorted, if the order cannot tell related
    values apart. -/
theorem forall₂_mergeSort {le : α → α → Bool}
    (hle : ∀ a a' b b', R a a' → R b b' → le a b = le a' b') {l l' : List α}
    (h : List.Forall₂ R l l') : List.Forall₂ R (l.mergeSort le) (l'.mergeSort le) := by
  -- both lists are projections of one list of pairs, which can be sorted by either side
  obtain ⟨pairs, hpairs, rfl, rfl⟩ : ∃ pairs : List (α × α), (∀ p ∈ pairs, R p.1 p.2) ∧
      pairs.map Prod.fst = l ∧ pairs.map Prod.snd = l' := by
    induction h with
    | nil => exact ⟨[], List.forall_mem_nil _, rfl, rfl⟩
    | @cons a b l l' hab _ ih =>
      obtain ⟨pairs, hpairs, rfl, rfl⟩ := ih
      exact ⟨(a, b) :: pairs, List.forall_mem_cons.2 ⟨hab, hpairs⟩, rfl, rfl⟩
  let r : α × α → α × α → Bool := fun p q => le p.1 q.1
  have hfst : (pairs.mergeSort r).map Prod.fst = (pairs.map Prod.fst).mergeSort le :=
    List.map_mergeSort fun _ _ _ _ => rfl
  have hsnd : (pairs.mergeSort r).map Prod.snd = (pairs.map Prod.snd).mergeSort le :=
    List.map_mergeSort fun p hp q hq => hle _ _ _ _ (hpairs p hp) (hpairs q hq)
  rw [← hfst, ← hsnd, List.forall₂_map_left_iff, List.forall₂_map_right_iff, List.forall₂_same]
  exact fun p hp => hpairs p (List.mem_mergeSort.1 hp)

/-- The one value is the other, or replaces it. -/
def Replaced (old new a b : α) : Prop := b = a ∨ a = old ∧ b = new

/-- One value of a list is replaced. -/
theorem forall₂_set {l : List α} {index : Nat} {old : α} (h : l[index]? = some old) (new : α) :
    List.Forall₂ (Replaced old new) l (l.set index new) := by
  induction l generalizing index with
  | nil => exact List.Forall₂.nil
  | cons a l ih =>
    rcases index with _ | index
    · obtain rfl : a = old := by simpa using h
      exact List.Forall₂.cons (.inr ⟨rfl, rfl⟩) (List.forall₂_same.2 fun _ _ => .inl rfl)
    · exact List.Forall₂.cons (.inl rfl) (ih (by simpa using h))

end Replace

/-! ## Erasing a message -/

variable {M : Type} [ErasableMessage M] {mark : ReadMark} {ownAuthor : String} {m : M}
  {marker : DeletionMarker} {key : String} {correlation : Option String} {localOnly : Bool}

@[simp]
theorem author_erase : author (erase m marker key correlation localOnly) = author m := by
  rw [erase, author_eraseContent, author_setMetadata]

@[simp]
theorem sentAtMs_erase : sentAtMs (erase m marker key correlation localOnly) = sentAtMs m := by
  rw [erase, sentAtMs_eraseContent, sentAtMs_setMetadata]

@[simp]
theorem own_erase : own ownAuthor (erase m marker key correlation localOnly) = own ownAuthor m := by
  have hown : (metadata (erase m marker key correlation localOnly)).bind (·.isOwn) =
      (metadata m).bind (·.isOwn) := by
    rw [metadata_erase]
    rcases hmeta : metadata m with _ | d <;> simp [erasedMetadata, hmeta]
  rw [own, own, hown, author_erase]

/-- An erased message counts if nothing but its content spoke against it. -/
theorem counts_erase : mark.counts ownAuthor (erase m marker key correlation localOnly) =
    (!own ownAuthor m && mark.sinceFloor m) := by
  have hsince : mark.sinceFloor (erase m marker key correlation localOnly) = mark.sinceFloor m := by
    rw [sinceFloor, sinceFloor, sentAtMs_erase]
  have hservice : isService (erase m marker key correlation localOnly) = false :=
    isService_eraseContent _
  have hcall : callId (erase m marker key correlation localOnly) = none := callId_eraseContent _
  rw [counts, own_erase, hsince, hservice, hcall]
  simp

/-- The message is kept out of the count by its content alone: it is a service line or a call,
    someone else's, and sent since the floor. -/
def hiddenByContent (mark : ReadMark) (ownAuthor : String) (m : M) : Bool :=
  (isService m || (callId m).isSome) && !own ownAuthor m && mark.sinceFloor m

/-- Erasure does not change if a message counts, unless its content alone kept it out. -/
theorem counts_erase_eq (h : mark.hiddenByContent ownAuthor m = false) :
    mark.counts ownAuthor (erase m marker key correlation localOnly) =
      mark.counts ownAuthor m := by
  rw [counts_erase, counts, ← Option.not_isSome]
  rw [hiddenByContent] at h
  revert h
  cases isService m <;> cases (callId m).isSome <;> cases own ownAuthor m <;>
    cases mark.sinceFloor m <;> decide

/-- A message and its erased form are at the same place in the order. -/
theorem sendOrder_congr {erased a a' b b' : M}
    (herased : erased = erase m marker key correlation localOnly)
    (ha : Replaced m erased a a') (hb : Replaced m erased b b') :
    sendOrder a b = sendOrder a' b' := by
  have hsame : ∀ {a a' : M}, Replaced m erased a a' →
      sentAtMs a' = sentAtMs a ∧ messageId a' = messageId a := by
    rintro a a' (rfl | ⟨rfl, rfl⟩)
    · exact ⟨rfl, rfl⟩
    · rw [herased]
      exact ⟨sentAtMs_erase, messageId_erase⟩
  obtain ⟨hta, hia⟩ := hsame ha
  obtain ⟨htb, hib⟩ := hsame hb
  rw [sendOrder, sendOrder, compareLex, compareLex, compareOn, compareOn, compareOn, compareOn,
    hta, hia, htb, hib]

/-- The messages that count are the same up to the one that is erased. -/
theorem incoming_erase {log : List M} {index : Nat} (hm : log[index]? = some m)
    (h : mark.hiddenByContent ownAuthor m = false) :
    List.Forall₂ (Replaced m (erase m marker key correlation localOnly))
      (mark.incoming log ownAuthor)
      (mark.incoming (log.set index (erase m marker key correlation localOnly)) ownAuthor) := by
  refine forall₂_mergeSort (fun a a' b b' ha hb => sendOrder_congr rfl ha hb) ?_
  refine List.rel_filter ?_ (forall₂_set hm _)
  rintro a b (rfl | ⟨rfl, rfl⟩)
  · exact Iff.rfl
  · exact Bool.eq_iff_iff.1 (counts_erase_eq h).symm

/-- One more message counts if the content of the erased one had kept it out. -/
theorem length_incoming_erase {log : List M} {index : Nat} (hm : log[index]? = some m)
    (h : mark.hiddenByContent ownAuthor m = true) :
    (mark.incoming (log.set index (erase m marker key correlation localOnly)) ownAuthor).length =
      (mark.incoming log ownAuthor).length + 1 := by
  obtain ⟨hindex, rfl⟩ := List.getElem?_eq_some_iff.1 hm
  rw [hiddenByContent, Bool.and_eq_true, Bool.and_eq_true] at h
  obtain ⟨⟨hkind, hown⟩, hsince⟩ := h
  have hbefore : mark.counts ownAuthor log[index] = false := by
    rw [counts, ← Option.not_isSome]
    revert hkind
    cases isService log[index] <;> cases (callId log[index]).isSome <;> simp
  have hafter : mark.counts ownAuthor (erase log[index] marker key correlation localOnly) = true := by
    rw [counts_erase, hown, hsince]
    rfl
  rw [incoming, incoming, List.length_mergeSort, List.length_mergeSort,
    ← List.countP_eq_length_filter, ← List.countP_eq_length_filter, List.countP_set hindex,
    hbefore, hafter]
  rfl

/-- The messages that count are the same before and after a message is erased, and so is what
    is unread of them, exactly if the message was no service line and no call, or would not
    have counted anyway. -/
theorem erase_unread (mark : ReadMark) (log : List M) (ownAuthor : String) (index : Nat) (m : M)
    (hm : log[index]? = some m) (marker : DeletionMarker) (key : String)
    (correlation : Option String) (localOnly : Bool) :
    let erased := erase m marker key correlation localOnly
    (List.Forall₂ (Replaced m erased) (mark.incoming log ownAuthor)
        (mark.incoming (log.set index erased) ownAuthor) ∧
      mark.state (log.set index erased) ownAuthor = mark.state log ownAuthor) ↔
    (isService m = false ∧ callId m = none) ∨ own ownAuthor m = true ∨
      mark.sinceFloor m = false := by
  intro erased
  have hhidden : mark.hiddenByContent ownAuthor m = false ↔
      (isService m = false ∧ callId m = none) ∨ own ownAuthor m = true ∨
        mark.sinceFloor m = false := by
    rw [hiddenByContent, ← Option.not_isSome_iff_eq_none, Bool.not_eq_true]
    cases isService m <;> cases (callId m).isSome <;> cases own ownAuthor m <;>
      cases mark.sinceFloor m <;> decide
  rw [← hhidden]
  constructor
  · rintro ⟨hrel, -⟩
    by_contra h
    have hmore : (mark.incoming (log.set index erased) ownAuthor).length =
        (mark.incoming log ownAuthor).length + 1 := length_incoming_erase hm (by simpa using h)
    have hsame := hrel.length_eq
    omega
  · intro h
    have hrel : List.Forall₂ (Replaced m erased) (mark.incoming log ownAuthor)
        (mark.incoming (log.set index erased) ownAuthor) := incoming_erase hm h
    refine ⟨hrel, state_congr ?_⟩
    rw [← List.forall₂_eq_eq_eq, List.forall₂_map_left_iff, List.forall₂_map_right_iff]
    refine hrel.flip.imp ?_
    rintro _ a (rfl | ⟨rfl, rfl⟩)
    · rfl
    · exact messageId_erase

/-- A greeting that is erased stays the first unread message. -/
theorem erase_unread_greeting :
    let hello : ChatMessage :=
      { fromDevice := "bob", body := "hello", messageId := some "m1", sentAtMs := some 2000 }
    let erased := erase hello ⟨.forMe, .confirmed, none⟩ "key" none false
    let mark : ReadMark := ⟨1000, 0⟩
    mark.state [erased] "alice" = mark.state [hello] "alice" := by
  intro hello erased mark
  exact ((erase_unread mark [hello] "alice" 0 hello rfl ⟨.forMe, .confirmed, none⟩ "key" none
    false).2 (.inl ⟨rfl, rfl⟩)).2

/-- A missed call is not counted, and counts once the user deletes it. -/
theorem erased_call_unread :
    let call : ChatMessage :=
      { metadata := some { isOwn := some false }, fromDevice := "bob", body := "",
        messageId := some "m1", sentAtMs := some 2000, callEvent := some ⟨"missed", 0, "c1"⟩ }
    let erased := erase call ⟨.forMe, .confirmed, none⟩ "key" none false
    let mark : ReadMark := ⟨1000, 0⟩
    mark.state [call] "alice" = ⟨0, none⟩ ∧
      mark.state ([call].set 0 erased) "alice" = ⟨1, some "m1"⟩ ∧
      ¬ List.Forall₂ (Replaced call erased) (mark.incoming [call] "alice")
        (mark.incoming ([call].set 0 erased) "alice") := by
  intro call erased mark
  have hbefore : mark.incoming [call] "alice" = [] := by
    rw [incoming, show [call].filter (mark.counts "alice") = [] by decide, List.mergeSort_nil]
  have hafter : mark.incoming ([call].set 0 erased) "alice" = [erased] := by
    rw [incoming, show ([call].set 0 erased).filter (mark.counts "alice") = [erased] by decide,
      List.mergeSort_singleton]
  refine ⟨by rw [state, hbefore]; decide, by rw [state, hafter]; decide, ?_⟩
  rw [hbefore, hafter]
  exact fun h => nomatch h

end ReadMark

end Mosh.Conversation
