import Mosh.Channel.Session

/-!
# The log of a channel

What frames, sends and deletions do with the rows of a channel's log. A row stays where it is, as
it was or erased, and others come behind it: what a member sends, and what comes in frames.

* `Change`: how the rows of a log change; `Moved`, `Moves`: how a log and a session do;
* `Sound`: a text with a proof was signed, and no two texts have one id; `Sound.change`: this
  stays so if the texts that come are `Fresh`;
* `moves_handleMessage`, `moves_send`, `moves_attach`, `moves_erase`: what calls add is fresh.
-/

namespace Mosh.Channel

open Checked
open Conversation ConversationMessage Deletion
open DeviceLink (textBytes)

variable {Seed : Type}

/-! ## The rows of a log -/

/-- A row after a while: as it was, but for its delivery, or erased. -/
structure Follows (r r' : ChannelMessage) : Prop where
  id : r'.messageId = r.messageId
  origin : origin r' = origin r
  body : r'.body = r.body ∨ r'.body = ""

theorem Follows.refl (r : ChannelMessage) : Follows r r := ⟨rfl, rfl, .inl rfl⟩

theorem Follows.trans {r r' r'' : ChannelMessage} (h : Follows r r') (h' : Follows r' r'') :
    Follows r r'' where
  id := h'.id.trans h.id
  origin := h'.origin.trans h.origin
  body := by
    rcases h'.body with heq | hempty
    · rw [heq]
      exact h.body
    · exact .inr hempty

/-- Two rows are not texts with one id. -/
def Apart (r r' : ChannelMessage) : Prop :=
  r.body ≠ "" → r'.body ≠ "" → r.messageId ≠ r'.messageId

/-- The rows of a log change in place, and rows are added that may be added. -/
inductive Change (New : List ChannelMessage → ChannelMessage → Prop) (rows : List ChannelMessage) :
    List ChannelMessage → Prop
  | refl : Change New rows rows
  | follow {before after : List ChannelMessage} (h : Change New rows before)
      (hfollow : List.Forall₂ Follows before after) : Change New rows after
  | append {before : List ChannelMessage} (h : Change New rows before) (m : ChannelMessage)
      (hm : New before m) : Change New rows (before ++ [m])

theorem follows_refl (rows : List ChannelMessage) : List.Forall₂ Follows rows rows :=
  List.forall₂_same.2 fun r _ => .refl r

theorem exists_follows {rows rows' : List ChannelMessage} (h : List.Forall₂ Follows rows rows') :
    ∀ r ∈ rows, ∃ r' ∈ rows', Follows r r' := by
  induction h with
  | nil => exact fun _ hr => absurd hr List.not_mem_nil
  | @cons a b rows rows' hab _ ih =>
    intro r hr
    obtain rfl | hr := List.mem_cons.1 hr
    · exact ⟨b, List.mem_cons_self, hab⟩
    · obtain ⟨r', hr', hfollows⟩ := ih r hr
      exact ⟨r', List.mem_cons_of_mem _ hr', hfollows⟩

theorem exists_followed {rows rows' : List ChannelMessage} (h : List.Forall₂ Follows rows rows') :
    ∀ r' ∈ rows', ∃ r ∈ rows, Follows r r' := by
  induction h with
  | nil => exact fun _ hr => absurd hr List.not_mem_nil
  | @cons a b rows rows' hab _ ih =>
    intro r' hr'
    obtain rfl | hr' := List.mem_cons.1 hr'
    · exact ⟨a, List.mem_cons_self, hab⟩
    · obtain ⟨r, hr, hfollows⟩ := ih r' hr'
      exact ⟨r, List.mem_cons_of_mem _ hr, hfollows⟩

/-- One row is followed by another one in its place. -/
theorem follows_set {rows : List ChannelMessage} {index : Nat} {r r' : ChannelMessage}
    (hr : rows[index]? = some r) (h : Follows r r') :
    List.Forall₂ Follows rows (rows.set index r') := by
  induction rows generalizing index with
  | nil => cases hr
  | cons a rows ih =>
    cases index with
    | zero =>
      obtain rfl := Option.some.inj hr
      exact .cons h (follows_refl rows)
    | succ index => exact .cons (.refl a) (ih hr)

theorem Follows.ne_empty {r r' : ChannelMessage} (h : Follows r r') (hbody : r'.body ≠ "") :
    r'.body = r.body := h.body.resolve_right hbody

theorem Apart.follows {r r' a a' : ChannelMessage} (h : Apart r a) (hr : Follows r r')
    (ha : Follows a a') : Apart r' a' := by
  intro hr' ha'
  rw [hr.id, ha.id]
  exact h (hr.ne_empty hr' ▸ hr') (ha.ne_empty ha' ▸ ha')

theorem pairwise_follows {rows rows' : List ChannelMessage} (h : List.Forall₂ Follows rows rows')
    (hrows : rows.Pairwise Apart) : rows'.Pairwise Apart := by
  induction h with
  | nil => exact .nil
  | @cons a b rows rows' hab hrest ih =>
    obtain ⟨ha, hrows⟩ := List.pairwise_cons.1 hrows
    refine List.pairwise_cons.2 ⟨fun r' hr' => ?_, ih hrows⟩
    obtain ⟨r, hr, hfollows⟩ := exists_followed hrest r' hr'
    exact (ha r hr).follows hab hfollows

namespace Change

variable {New : List ChannelMessage → ChannelMessage → Prop}
  {rows before after : List ChannelMessage}

theorem trans (h : Change New rows before) (h' : Change New before after) :
    Change New rows after := by
  induction h' with
  | refl => exact h
  | follow _ hfollow ih => exact .follow ih hfollow
  | append _ m hm ih => exact .append ih m hm

/-- No row is lost. -/
theorem exists_follows (h : Change New rows after) :
    ∀ r ∈ rows, ∃ r' ∈ after, Follows r r' := by
  induction h with
  | refl => exact fun r hr => ⟨r, hr, .refl r⟩
  | follow _ hfollow ih =>
    intro r hr
    obtain ⟨r', hr', hfollows⟩ := ih r hr
    obtain ⟨r'', hr'', hfollows'⟩ := Channel.exists_follows hfollow r' hr'
    exact ⟨r'', hr'', hfollows.trans hfollows'⟩
  | append _ m hm ih =>
    intro r hr
    obtain ⟨r', hr', hfollows⟩ := ih r hr
    exact ⟨r', List.mem_append_left _ hr', hfollows⟩

end Change

/-! ## What may be added -/

section Signed

variable {ι : Type} (c : ChannelCrypto Seed) (keys : ι → String)
  (signed : ι → List (MessageOrigin × Bytes)) (context : String)

/-- A text with a proof by a member was signed by the member, for the channel and under its id. -/
def Signed (r : ChannelMessage) : Prop :=
  ∀ o, origin r = some o → r.body ≠ "" → ∀ k, o.author = keys k →
    ∃ x ∈ signed k, x.1.conversation = context ∧ some x.1.id = r.messageId ∧
      c.sha256 x.2 = c.sha256 (textBytes r.body)

/-- A row that may be added: what it says was signed, and no other text has its id. -/
def Fresh (rows : List ChannelMessage) (m : ChannelMessage) : Prop :=
  Signed c keys signed context m ∧ ∀ r ∈ rows, Apart r m

/-- The texts of a log were signed, and have different ids. -/
structure Sound (rows : List ChannelMessage) : Prop where
  signed : ∀ r ∈ rows, Signed c keys signed context r
  apart : rows.Pairwise Apart

variable {c keys signed context} {rows rows' : List ChannelMessage} {m : ChannelMessage}

theorem Signed.follows {r r' : ChannelMessage} (h : Signed c keys signed context r)
    (hr : Follows r r') : Signed c keys signed context r' := by
  intro o ho hbody k hk
  rw [hr.id, hr.ne_empty hbody]
  exact h o (hr.origin ▸ ho) (hr.ne_empty hbody ▸ hbody) k hk

/-- What has no text says nothing. -/
theorem fresh_of_empty (hbody : m.body = "") : Fresh c keys signed context rows m :=
  ⟨fun _ _ h => absurd hbody h, fun _ _ _ h => absurd hbody h⟩

theorem Sound.change (h : Sound c keys signed context rows)
    (hchange : Change (Fresh c keys signed context) rows rows') :
    Sound c keys signed context rows' := by
  induction hchange with
  | refl => exact h
  | follow _ hfollow ih =>
    refine ⟨fun r' hr' => ?_, pairwise_follows hfollow ih.apart⟩
    obtain ⟨r, hr, hfollows⟩ := exists_followed hfollow r' hr'
    exact (ih.signed r hr).follows hfollows
  | append _ m hm ih =>
    refine ⟨fun r hr => ?_, List.pairwise_append.2 ⟨ih.apart, List.pairwise_singleton _ _,
      fun r hr a ha => ?_⟩⟩
    · obtain hr | hr := List.mem_append.1 hr
      · exact ih.signed r hr
      · exact List.mem_singleton.1 hr ▸ hm.1
    · exact List.mem_singleton.1 ha ▸ hm.2 r hr

/-- What members sign later does not matter. -/
theorem Sound.mono {signed' : ι → List (MessageOrigin × Bytes)}
    (h : Sound c keys signed context rows) (hsigned : ∀ k, ∀ x ∈ signed k, x ∈ signed' k) :
    Sound c keys signed' context rows where
  signed r hr o ho hbody k hk := by
    obtain ⟨x, hx, hrest⟩ := h.signed r hr o ho hbody k hk
    exact ⟨x, hsigned k x hx, hrest⟩
  apart := h.apart

end Signed

/-! ## Logs -/

section Logs

variable {New : List ChannelMessage → ChannelMessage → Prop}
  {log log' log'' : MessageLog ChannelMessage}

/-- The rows of a log change in place. -/
structure InPlace (log log' : MessageLog ChannelMessage) : Prop where
  rows : List.Forall₂ Follows log.messages log'.messages
  erasedIds : log'.erasedIds = log.erasedIds

theorem InPlace.refl (log : MessageLog ChannelMessage) : InPlace log log :=
  ⟨follows_refl _, rfl⟩

/-- A log changes: ids that are erased from now on are ids of rows. -/
structure Moved (New : List ChannelMessage → ChannelMessage → Prop)
    (log log' : MessageLog ChannelMessage) : Prop where
  rows : Change New log.messages log'.messages
  erasedIds : ∀ id ∈ log'.erasedIds,
    id ∈ log.erasedIds ∨ ∃ r ∈ log'.messages, r.messageId = some id

theorem Moved.refl (log : MessageLog ChannelMessage) : Moved New log log :=
  ⟨.refl, fun _ => .inl⟩

theorem InPlace.moved (h : InPlace log log') : Moved New log log' :=
  ⟨.follow .refl h.rows, fun _ hid => .inl (h.erasedIds ▸ hid)⟩

theorem Moved.trans (h : Moved New log log') (h' : Moved New log' log'') :
    Moved New log log'' where
  rows := h.rows.trans h'.rows
  erasedIds id hid := by
    rcases h'.erasedIds id hid with hid | hrow
    · refine (h.erasedIds id hid).imp_right fun ⟨r, hr, hrid⟩ => ?_
      obtain ⟨r', hr', hfollows⟩ := h'.rows.exists_follows r hr
      exact ⟨r', hr', hfollows.id.trans hrid⟩
    · exact .inr hrow

/-- What is remembered with a row is its id. -/
theorem mem_rememberErasure {m : ChannelMessage} {id : String}
    (hid : id ∈ (log.rememberErasure m).erasedIds) :
    id ∈ log.erasedIds ∨ m.messageId = some id := by
  rw [MessageLog.rememberErasure] at hid
  split at hid
  · next heq =>
    rcases Finset.mem_insert.1 hid with rfl | hid
    · exact .inr heq
    · exact .inl hid
  · exact .inl hid

theorem moved_push {m : ChannelMessage} (hm : New log.messages m) : Moved New log (log.push m) := by
  rw [MessageLog.push]
  split
  · exact ⟨.refl, fun _ => .inl⟩
  · refine ⟨?_, fun id hid => ?_⟩
    · change Change New log.messages ((log.touch.rememberErasure m).messages ++ [m])
      rw [MessageLog.messages_rememberErasure]
      exact .append .refl m hm
    · exact (mem_rememberErasure hid).imp_right fun hid =>
        ⟨m, List.mem_append_right _ (List.mem_singleton.2 rfl), hid⟩

/-- A message is appended, unless its id is erased. -/
theorem mem_push {m : ChannelMessage} {id : String} (hid : m.messageId = some id)
    (hnew : id ∉ log.erasedIds) : m ∈ (log.push m).messages := by
  have hknows : log.touch.knowsErased m = false := by
    change m.messageId.any _ = false
    rw [hid, Option.any_some, MessageLog.erasedIds_touch]
    exact decide_eq_false hnew
  rw [MessageLog.push, if_neg (by rw [hknows]; exact Bool.false_ne_true)]
  exact List.mem_append_right _ (List.mem_singleton.2 rfl)

theorem moved_replace {index : Nat} {r r' : ChannelMessage} (hr : log.messages[index]? = some r)
    (h : Follows r r') : Moved New log (log.replace index r') := by
  have hrows : (log.replace index r').messages = log.messages.set index r' := by
    rw [MessageLog.replace]
    dsimp only
    rw [MessageLog.messages_rememberErasure, MessageLog.messages_touch]
  refine ⟨?_, fun id hid => ?_⟩
  · rw [hrows]
    exact .follow .refl (follows_set hr h)
  · rw [hrows]
    exact (mem_rememberErasure hid).imp_right fun hid =>
      ⟨r', List.mem_set (List.getElem?_eq_some_iff.1 hr).1 _, hid⟩

theorem follows_setDelivery (m : ChannelMessage) (d : MessageDeliveryMeta) :
    Follows m (setDelivery m d) := ⟨rfl, rfl, .inl rfl⟩

theorem inPlace_markDelivery (id : String) (status : MessageDeliveryStatus) (error : Option String)
    (retryCount : Nat) : InPlace log (log.markDelivery id status error retryCount).1 := by
  rw [MessageLog.markDelivery, MessageLog.findMut]
  split
  · next index hindex =>
    refine ⟨?_, rfl⟩
    change List.Forall₂ Follows log.messages (log.messages.modify index _)
    rw [List.modify_eq_set_getElem?]
    cases hrow : log.messages[index]? with
    | none => exact follows_refl _
    | some r => exact follows_set hrow (follows_setDelivery r _)
  · exact ⟨follows_refl _, rfl⟩

/-- A message whose id is new goes behind the others. -/
theorem messages_upsert {m : ChannelMessage} {id : String} (hid : m.messageId = some id)
    (hnew : ∀ r ∈ log.messages, r.messageId ≠ some id) :
    (log.upsert m).messages = log.messages ++ [m] ∧
      (log.upsert m).erasedIds = (log.touch.rememberErasure m).erasedIds := by
  have hposition : (log.touch.rememberErasure m).position id = none := by
    rw [MessageLog.position, MessageLog.messages_rememberErasure, List.findIdx?_eq_none_iff]
    intro r hr
    exact decide_eq_false (hnew r hr)
  rw [MessageLog.upsert]
  have hbind : (messageId m).bind (log.touch.rememberErasure m).position = none := by
    change m.messageId.bind _ = none
    rw [hid, Option.bind_some, hposition]
  rw [hbind]
  dsimp only
  rw [MessageLog.messages_rememberErasure, MessageLog.messages_touch]
  exact ⟨rfl, rfl⟩

theorem moved_upsert {m : ChannelMessage} {id : String} (hid : m.messageId = some id)
    (hnew : ∀ r ∈ log.messages, r.messageId ≠ some id) (hm : New log.messages m) :
    Moved New log (log.upsert m) := by
  obtain ⟨hrows, herased⟩ := messages_upsert hid hnew
  refine ⟨?_, fun id' hid' => ?_⟩
  · rw [hrows]
    exact .append .refl m hm
  · rw [herased] at hid'
    rw [hrows]
    exact (mem_rememberErasure hid').imp_right fun hid' =>
      ⟨m, List.mem_append_right _ (List.mem_singleton.2 rfl), hid'⟩

variable (codec : OutboxCodec ChannelMessage) {o : Outbox ChannelMessage}

theorem log_syncMessageJson (id : String) {result : Except String Unit × Outbox ChannelMessage}
    (h : o.syncMessageJson codec id = result) : result.2.log = o.log := by
  obtain rfl := h
  exact (o.syncMessageJson_frame codec id).1

theorem inPlace_of_markDelivery {id : String} {status : MessageDeliveryStatus}
    {error : Option String} {retryCount : Nat}
    {result : MessageLog ChannelMessage × Except String Unit}
    (h : log.markDelivery id status error retryCount = result) : InPlace log result.1 := by
  obtain rfl := h
  exact inPlace_markDelivery id status error retryCount

theorem inPlace_settle (now : Nat) (id : String) (outcome : Except String Unit) (onSent : OnSent) :
    InPlace o.log (o.settle codec now id outcome onSent).2.log := by
  rcases outcome with error | ⟨⟩
  · simp only [Outbox.settle]
    split
    · next heq => exact inPlace_of_markDelivery heq
    · next heq =>
      split
      · next heq' =>
        rw [log_syncMessageJson codec id heq']
        exact inPlace_of_markDelivery heq
      · next heq' =>
        rw [log_syncMessageJson codec id heq']
        exact inPlace_of_markDelivery heq
  · simp only [Outbox.settle]
    split
    · next heq => exact inPlace_of_markDelivery heq
    · next heq =>
      cases onSent with
      | forget => exact inPlace_of_markDelivery heq
      | retain =>
        dsimp only
        split
        · next heq' =>
          rw [log_syncMessageJson codec id heq']
          exact inPlace_of_markDelivery heq
        · next heq' =>
          rw [log_syncMessageJson codec id heq']
          exact inPlace_of_markDelivery heq

theorem inPlace_reopen (id : String) : InPlace o.log (o.reopen codec id).2.log := by
  simp only [Outbox.reopen, Outbox.reopenAs]
  split
  · exact .refl _
  · split
    · exact .refl _
    · split
      · next heq => exact inPlace_of_markDelivery heq
      · next heq =>
        split
        · next heq' =>
          rw [log_syncMessageJson codec id heq']
          exact inPlace_of_markDelivery heq
        · next heq' =>
          rw [log_syncMessageJson codec id heq']
          exact inPlace_of_markDelivery heq

theorem moved_open {now : Nat} {m : ChannelMessage} {id conversation : String} {payload : Bytes}
    {size : Nat} {result : Except String Prepared × Outbox ChannelMessage}
    (h : o.open codec now m conversation payload size = result) (hid : m.messageId = some id)
    (hnew : ∀ r ∈ o.log.messages, r.messageId ≠ some id) (hm : New o.log.messages m) :
    Moved New o.log result.2.log := by
  have hupsert := moved_upsert hid hnew hm
  obtain rfl := h
  simp only [Outbox.open, Outbox.file]
  split
  · next heq => exact hupsert.trans (inPlace_of_markDelivery heq).moved
  · next heq =>
    split
    · exact hupsert.trans (inPlace_of_markDelivery heq).moved
    · exact hupsert.trans (inPlace_of_markDelivery heq).moved

end Logs

/-! ## Sessions -/

namespace ChannelSession

variable {ι : Type} {c : ChannelCrypto Seed} {codec : OutboxCodec ChannelMessage} {env : Env}
  {keys : ι → String} {signed : ι → List (MessageOrigin × Bytes)} {s s' : ChannelSession Seed}
  {payload : Bytes} {m : ChannelMessage}

/-- The rows of the log. -/
def rows (s : ChannelSession Seed) : List ChannelMessage := s.messages.messages

/-- A session changes: it stays that of its channel and its member. -/
structure Moves (New : List ChannelMessage → ChannelMessage → Prop) (s s' : ChannelSession Seed) :
    Prop where
  name : s'.name = s.name
  node : s'.node = s.node
  fingerprint : s'.deviceFingerprint = s.deviceFingerprint
  log : Moved New s.messages s'.messages

variable {New : List ChannelMessage → ChannelMessage → Prop}

theorem Moves.refl (s : ChannelSession Seed) : Moves New s s := ⟨rfl, rfl, rfl, .refl _⟩

theorem Moves.trans {s'' : ChannelSession Seed} (h : Moves New s s') (h' : Moves New s' s'') :
    Moves New s s'' :=
  ⟨h'.name.trans h.name, h'.node.trans h.node, h'.fingerprint.trans h.fingerprint,
    h.log.trans h'.log⟩

/-- What is said of a message is verified by its proof. -/
structure Verified (c : ChannelCrypto Seed) (context : String) (m : ChannelMessage)
    (o : MessageOrigin) : Prop where
  signature : o.verifySignature c.toDeletionCrypto = .ok ()
  conversation : o.conversation = context
  id : some o.id = m.messageId
  content : o.contentHash = c.sha256 (textBytes m.body)

theorem id_ne_empty {d : DeletionCrypto} {o : MessageOrigin} (h : o.verifySignature d = .ok ()) :
    o.id ≠ "" := by
  intro hid
  rw [MessageOrigin.verifySignature] at h
  cases ho : o.ownership with
  | none =>
    simp [ho, hid] at h
    cases h
  | some proof =>
    simp [ho, hid] at h
    generalize verifyOwnership d proof o.author = root at h
    cases root with
    | error e => cases h
    | ok root => cases h

theorem verified_of_verifyOrigin {o : MessageOrigin} (h : s.verifyOrigin c m o = .ok ()) :
    Verified c s.context m o := by
  simp only [verifyOrigin, MessageOrigin.verify, bind_eq_ok, mapError_eq_ok, check_eq_ok,
    decide_eq_true_eq] at h
  obtain ⟨⟨⟩, ⟨⟨⟩, ⟨hconversation, hid, hcontent⟩, hsignature⟩, -⟩ := h
  refine ⟨hsignature, hconversation, ?_, hcontent⟩
  cases hm : m.messageId with
  | none => exact absurd (hid.trans (by rw [hm]; rfl)) (id_ne_empty hsignature)
  | some id =>
    rw [hm] at hid
    exact congrArg some hid

/-- A text that is decoded has an id, and its proof is verified. -/
theorem decode_spec (h : s.decodeChannelMessage c env payload = .ok m) :
    ∃ envelope, c.parseMessage payload = .ok envelope ∧ origin m = origin envelope ∧
      (∃ id, m.messageId = some id ∧ id ≠ "") ∧
      ∀ o, origin m = some o → Verified c s.context m o := by
  simp only [decodeChannelMessage, bind_eq_ok, mapError_eq_ok, check_eq_ok] at h
  obtain ⟨envelope, hparse, ⟨⟩, -, proved, hproved, owned, howned, h⟩ := h
  refine ⟨envelope, hparse, ?_⟩
  rw [withOrigin] at hproved
  split at hproved
  · -- without a proof the text keeps its id, or gets one
    next horigin =>
    obtain rfl := Except.ok.inj hproved
    obtain rfl := Except.ok.inj howned
    rw [prepareLegacyMessage] at h
    split at h
    · simp only [bind_eq_ok, mapError_eq_ok] at h
      obtain ⟨json, -, heq⟩ := h
      obtain rfl := Except.ok.inj heq
      refine ⟨horigin.symm, ⟨_, rfl, ?_⟩, fun o ho => (by cases ho)⟩
      simp
    · next hid =>
      obtain rfl := Except.ok.inj h
      refine ⟨horigin.symm, ?_, fun o ho => (by cases ho)⟩
      cases hm : envelope.messageId with
      | none => exact absurd (by simp [hm, origin, metadata]) hid
      | some id => exact ⟨id, rfl, fun hempty => hid (by simp [hm, hempty, origin, metadata])⟩
  · next o horigin =>
    rw [bind_eq_ok] at hproved
    obtain ⟨⟨⟩, hverify, heq⟩ := hproved
    obtain rfl := Except.ok.inj heq
    have hverified := verified_of_verifyOrigin hverify
    -- the metadata gets a note, and nothing else changes
    obtain ⟨isOwn, rfl⟩ : ∃ isOwn, owned = { envelope with
        metadata := some { origin := some o, isOwn := isOwn } } := by
      simp only [setVerifiedOwnership, Option.bind_some, Option.map_some, bind_eq_ok] at howned
      obtain ⟨authority, -, heq⟩ := howned
      exact ⟨_, (Except.ok.inj heq).symm⟩
    have hid : envelope.messageId.isSome := by
      rw [← hverified.id]
      rfl
    obtain ⟨id, hid⟩ := Option.isSome_iff_exists.1 hid
    rw [prepareLegacyMessage, if_neg (by simp [origin, metadata])] at h
    obtain rfl := Except.ok.inj h
    refine ⟨horigin.symm, ⟨id, hid, ?_⟩, fun o' ho' => ?_⟩
    · rintro rfl
      exact id_ne_empty hverified.signature (Option.some.inj (hverified.id.trans hid))
    · obtain rfl := Option.some.inj ho'
      exact ⟨hverified.signature, hverified.conversation, hverified.id, hverified.content⟩

/-! ### What goes into the log -/

variable (c keys signed) in
/-- A text with a proof for a conversation that verifies by the key of a member says what the member
    has signed. -/
def Unforged (context : String) (payload : Bytes) : Prop :=
  ∀ m o, c.parseMessage payload = .ok m → origin m = some o → o.conversation = context →
    o.verifySignature c.toDeletionCrypto = .ok () → ∀ k, o.author = keys k →
    ∃ x ∈ signed k, x.1.conversation = context ∧ x.1.id = o.id ∧ x.1.contentHash = o.contentHash

variable (c signed) in
/-- What is signed are hashes of contents. -/
def Hashed : Prop := ∀ k, ∀ x ∈ signed k, x.1.contentHash = c.sha256 x.2

theorem signed_of_decode (hunforged : Unforged c keys signed s.context payload)
    (hhashed : Hashed c signed) (h : s.decodeChannelMessage c env payload = .ok m) :
    Signed c keys signed s.context m := by
  obtain ⟨envelope, hparse, horigin, -, hverified⟩ := decode_spec h
  intro o ho _ k hk
  have hv := hverified o ho
  obtain ⟨x, hx, hconversation, hid, hcontent⟩ :=
    hunforged envelope o hparse (horigin ▸ ho) hv.conversation hv.signature k hk
  refine ⟨x, hx, hconversation, ?_, ?_⟩
  · rw [hid, hv.id]
  · rw [← hhashed k x hx, hcontent, hv.content]

theorem log_stamp (log : MessageLog ChannelMessage) (now : Nat) (occurrence : String) :
    (log.stamp now occurrence m).2.messages = log.messages ∧
      (log.stamp now occurrence m).2.erasedIds = log.erasedIds := by
  simp only [MessageLog.stamp]
  split
  · exact ⟨rfl, rfl⟩
  · exact ⟨rfl, rfl⟩

theorem moved_pushStamped {log : MessageLog ChannelMessage} {now : Nat} {occurrence : String}
    (hm : New log.messages (log.stamp now occurrence m).1) :
    Moved New log (log.pushStamped now occurrence m) := by
  obtain ⟨hrows, herased⟩ := log_stamp (m := m) log now occurrence
  have h : Moved New (log.stamp now occurrence m).2 (log.pushStamped now occurrence m) :=
    moved_push (hrows ▸ hm)
  refine ⟨?_, ?_⟩
  · rw [← hrows]
    exact h.rows
  · rw [← herased]
    exact h.erasedIds

/-- A message that has an id keeps it. -/
theorem stamp_of_id {log : MessageLog ChannelMessage} {id : String} (hid : m.messageId = some id)
    (hne : id ≠ "") (now : Nat) (occurrence : String) :
    log.stamp now occurrence m = (setSentAtMs m ((sentAtMs m).getD now), log) := by
  rw [MessageLog.stamp, if_neg]
  change ¬(m.messageId.getD "").isEmpty
  rw [hid]
  simpa using hne

theorem follows_setSentAtMs (m : ChannelMessage) (sentAt : Nat) :
    Follows m (setSentAtMs m sentAt) := ⟨rfl, rfl, .inl rfl⟩

theorem Fresh.follows {rows : List ChannelMessage} {context : String} {m' : ChannelMessage}
    (h : Fresh c keys signed context rows m) (hm : Follows m m') :
    Fresh c keys signed context rows m' :=
  ⟨h.1.follows hm, fun r hr => (h.2 r hr).follows (.refl r) hm⟩

/-- What a session does with a text: it goes into the log if no row has its id. -/
theorem moves_pushOnce {id : String} (hid : m.messageId = some id) (hne : id ≠ "")
    (hm : Signed c keys signed s.context m) :
    Moves (Fresh c keys signed s.context) s (s.pushOnce env m).1 := by
  rw [pushOnce]
  split
  · split
    · exact .refl s
    · exact .refl s
  · next hnew =>
    split
    · exact .refl s
    · refine ⟨rfl, rfl, rfl, moved_pushStamped ?_⟩
      rw [stamp_of_id hid hne]
      refine Fresh.follows ⟨hm, fun r hr _ _ heq => hnew ?_⟩ (follows_setSentAtMs m _)
      exact List.any_eq_true.2 ⟨r, hr, decide_eq_true heq⟩

theorem moves_handleText (hunforged : Unforged c keys signed s.context payload)
    (hhashed : Hashed c signed) :
    Moves (Fresh c keys signed s.context) s (s.handleText c env payload).1 := by
  rw [handleText]
  split
  · exact .refl s
  · next m hdecode =>
    obtain ⟨-, -, -, ⟨id, hid, hne⟩, -⟩ := decode_spec hdecode
    exact moves_pushOnce hid hne (signed_of_decode hunforged hhashed hdecode)

theorem moves_acceptIncomingManifest {fromDevice fromFingerprint : String} {offer : AttachmentOffer}
    (h : s.acceptIncomingManifest c env fromDevice fromFingerprint offer = .ok s') :
    Moves (Fresh c keys signed s.context) s s' := by
  simp only [acceptIncomingManifest, bind_eq_ok] at h
  obtain ⟨-, -, isOwn, -, accepted, -, heq⟩ := h
  obtain rfl := Except.ok.inj heq
  cases accepted with
  | none => exact .refl s
  | some descriptor =>
    refine ⟨rfl, rfl, rfl, moved_pushStamped (fresh_of_empty ?_)⟩
    rw [MessageLog.stamp]
    split
    · rfl
    · rfl

theorem moves_seenBefore (channel : String) (payload : Bytes) :
    Moves New s (s.seenBefore c channel payload).2 := by
  rw [seenBefore]
  split
  · exact .refl s
  · exact ⟨rfl, rfl, rfl, .refl _⟩

theorem moves_handleBlob :
    Moves (Fresh c keys signed s.context) s (s.handleBlob c env payload).1 := by
  rw [handleBlob]
  split
  · exact .refl s
  · exact .refl s
  · have hseen : Moves (Fresh c keys signed s.context) s (s.seenBefore c s.blobTopic payload).2 :=
      moves_seenBefore s.blobTopic payload
    split
    · next s₁ heq =>
      rw [heq] at hseen
      exact hseen
    · next s₁ heq =>
      rw [heq] at hseen
      split
      · split
        · exact hseen
        · simp only [attempt]
          split
          · exact hseen
          · next s₂ haccept =>
            have h : Moves (Fresh c keys signed s₁.context) s₁ s₂ :=
              moves_acceptIncomingManifest haccept
            rw [show s₁.context = s.context by rw [context, context, hseen.name]] at h
            exact hseen.trans h
      · exact hseen

variable (env) in
/-- A frame can add to the log what was signed, under an id that is new. -/
theorem moves_handleMessage (channel : String)
    (hunforged : Unforged c keys signed s.context payload) (hhashed : Hashed c signed) :
    Moves (Fresh c keys signed s.context) s (s.handleMessage c env channel payload).1 := by
  rw [handleMessage]
  split
  · exact moves_handleBlob
  · have hseen : Moves (Fresh c keys signed s.context) s (s.seenBefore c channel payload).2 :=
      moves_seenBefore channel payload
    split
    · next s₁ heq =>
      rw [heq] at hseen
      exact hseen
    · next s₁ heq =>
      rw [heq] at hseen
      have hcontext : s₁.context = s.context := by rw [context, context, hseen.name]
      split
      · have h : Moves (Fresh c keys signed s₁.context) s₁ (s₁.handleText c env payload).1 :=
          moves_handleText (hcontext ▸ hunforged) hhashed
        rw [hcontext] at h
        exact hseen.trans h
      · exact hseen

/-! ### What is sent -/

/-- The id of the next text that is sent. -/
def sentId (s : ChannelSession Seed) (env : Env) : String :=
  toString env.now ++ "-" ++ MessageLog.sixDigits s.messages.ids ++ "-" ++ env.occurrence

/-- A message without an id gets a new one. -/
theorem stamp_of_none {log : MessageLog ChannelMessage} (hid : m.messageId = none)
    (hsent : m.sentAtMs = none) (now : Nat) (occurrence : String) :
    log.stamp now occurrence m =
      (setMessageId (setSentAtMs m now)
        (toString now ++ "-" ++ MessageLog.sixDigits log.ids ++ "-" ++ occurrence),
        { log with ids := log.ids + 1 }) := by
  have hempty : ((messageId (setSentAtMs m now)).getD "").isEmpty = true := by
    change (m.messageId.getD "").isEmpty = true
    rw [hid]
    rfl
  have htime : (sentAtMs m).getD now = now := by
    change m.sentAtMs.getD now = now
    rw [hsent, Option.getD_none]
  rw [MessageLog.stamp]
  dsimp only
  rw [htime, if_pos hempty]
  rfl

theorem signOrigin_spec {id : String} {content : Bytes} {o : MessageOrigin}
    (h : s.signOrigin c env id content = .ok o) :
    o.conversation = s.context ∧ o.id = id ∧ o.contentHash = c.sha256 content ∧
      o.author = c.keyHex s.node := by
  simp only [signOrigin, MessageOrigin.signed, bind_eq_ok, mapError_eq_ok] at h
  obtain ⟨⟨⟩, -, ownership, -, input, -, heq⟩ := h
  obtain rfl := Except.ok.inj heq
  exact ⟨rfl, rfl, rfl, rfl⟩

/-- What is said under an id is signed for the session's channel, with its hash. -/
structure Said (c : ChannelCrypto Seed) (s : ChannelSession Seed) (id : String)
    (said : List (MessageOrigin × Bytes)) : Prop where
  once : said.length ≤ 1
  id : ∀ x ∈ said, x.1.id = id
  hash : ∀ x ∈ said, x.1.contentHash = c.sha256 x.2

theorem said_nil (id : String) : Said c s id [] :=
  ⟨Nat.zero_le 1, fun _ hx => absurd hx List.not_mem_nil,
    fun _ hx => absurd hx List.not_mem_nil⟩

theorem said_singleton {id : String} {content : Bytes} {o : MessageOrigin}
    (h : s.signOrigin c env id content = .ok o) : Said c s id [(o, content)] := by
  obtain ⟨-, hid, hhash, -⟩ := signOrigin_spec h
  refine ⟨Nat.le_refl 1, fun x hx => ?_, fun x hx => ?_⟩
  · rw [List.mem_singleton.1 hx]
    exact hid
  · rw [List.mem_singleton.1 hx]
    exact hhash

theorem moves_withOutbox {o : Outbox ChannelMessage} (h : Moved New s.messages o.log) :
    Moves New s (s.withOutbox o) := ⟨rfl, rfl, rfl, h⟩

theorem moves_publishPrepared (persisted published : Except String Unit) (prepared : Prepared) :
    Moves New s (s.publishPrepared codec env persisted published prepared).1 := by
  simp only [publishPrepared]
  split
  · have h := inPlace_settle (o := s.outbox) codec env.now prepared.messageId
      (.error ‹String›) .retain
    split
    · next heq => exact moves_withOutbox (heq ▸ h).moved
    · next heq => exact moves_withOutbox (heq ▸ h).moved
  · have h := inPlace_settle (o := s.outbox) codec env.now prepared.messageId published .forget
    split
    · next heq => exact moves_withOutbox (heq ▸ h).moved
    · next heq => exact moves_withOutbox (heq ▸ h).moved

theorem moves_retryMessage (id : String) (persisted published : Except String Unit) :
    Moves New s (s.retryMessage codec env id persisted published).1 := by
  rw [retryMessage]
  have h := inPlace_reopen (o := s.outbox) codec id
  split
  · next heq => exact moves_withOutbox (heq ▸ h).moved
  · next heq => exact (moves_withOutbox (heq ▸ h).moved).trans (moves_publishPrepared _ _ _)

theorem said_send (body : String) (persisted published : Except String Unit) :
    Said c s (s.sentId env) (s.send c codec env body persisted published).2.2 := by
  rw [send]
  split
  · exact said_nil _
  · rw [stamp_of_none (by rfl) (by rfl)]
    dsimp only
    split
    · exact said_nil _
    · next o hsign =>
      have hsaid : Said c s (s.sentId env) [(o, textBytes body)] := said_singleton hsign
      split
      · exact hsaid
      · split
        · exact hsaid
        · exact hsaid

/-- A send adds its text to the log, if its id is new. -/
theorem moves_send {body : String} {persisted published : Except String Unit}
    (hnew : ∀ r ∈ s.rows, r.messageId ≠ some (s.sentId env))
    (hsaid : ∀ k, keys k = c.keyHex s.node →
      ∀ x ∈ (s.send c codec env body persisted published).2.2, x ∈ signed k) :
    Moves (Fresh c keys signed s.context) s (s.send c codec env body persisted published).1 := by
  simp only [send] at hsaid ⊢
  split
  · exact .refl s
  · next hfits =>
    rw [if_neg hfits] at hsaid
    rw [stamp_of_none (by rfl) (by rfl)] at hsaid ⊢
    dsimp only at hsaid ⊢
    have hids : Moves (Fresh c keys signed s.context) s
        { s with messages := { s.messages with ids := s.messages.ids + 1 } } :=
      ⟨rfl, rfl, rfl, .refl, fun _ => .inl⟩
    split
    · exact hids
    · next o hsign =>
      rw [hsign] at hsaid
      dsimp only at hsaid
      obtain ⟨hconversation, hid, -, hauthor⟩ := signOrigin_spec hsign
      split
      · exact hids
      · next payload hjson =>
        rw [hjson] at hsaid
        dsimp only at hsaid
        -- the text is signed by its author, and nothing else has its id
        have hfresh : Fresh c keys signed s.context s.rows {
            metadata := some { origin := some o }
            fromDevice := s.displayName
            fromFingerprint := s.deviceFingerprint
            body := body
            messageId := some (s.sentId env)
            sentAtMs := some env.now } := by
          refine ⟨fun o' ho' _ k hk => ?_, fun r hr _ _ => hnew r hr⟩
          obtain rfl := Option.some.inj ho'
          refine ⟨(o, textBytes body), hsaid k (hk.symm.trans hauthor) _ ?_, hconversation,
            congrArg some hid, rfl⟩
          split
          · exact List.mem_singleton.2 rfl
          · exact List.mem_singleton.2 rfl
        split
        · next heq =>
          exact hids.trans (moves_withOutbox (moved_open codec heq rfl hnew hfresh))
        · next heq =>
          exact (hids.trans (moves_withOutbox (moved_open codec heq rfl hnew hfresh))).trans
            (moves_publishPrepared _ _ _)

theorem said_attach (id : String) (manifest : AttachmentManifest)
    (descriptor : AttachmentDescriptor) (published : Except String Unit) :
    Said c s id (s.attach c env id manifest descriptor published).2.2 := by
  rw [attach]
  split
  · exact said_nil _
  · next o hsign =>
    have hsaid : Said c s id [(o, manifest.bytes)] := said_singleton hsign
    split
    · exact hsaid
    · exact hsaid

theorem moves_attach (id : String) (manifest : AttachmentManifest)
    (descriptor : AttachmentDescriptor) (published : Except String Unit) :
    Moves (Fresh c keys signed s.context) s
      (s.attach c env id manifest descriptor published).1 := by
  rw [attach]
  split
  · exact .refl s
  · split
    · exact .refl s
    · refine ⟨rfl, rfl, rfl, moved_pushStamped (fresh_of_empty ?_)⟩
      rw [MessageLog.stamp]
      split
      · rfl
      · rfl

theorem follows_erase (r : ChannelMessage) (marker : DeletionMarker) (key : String)
    (correlation : Option String) (localOnly : Bool) :
    Follows r (Deletion.erase r marker key correlation localOnly) where
  id := messageId_erase (m := r)
  origin := by
    rw [origin, metadata_erase]
    change ((metadata r).getD {}).origin = (metadata r).bind (·.origin)
    cases metadata r with
    | none => rfl
    | some data => rfl
  body := .inr rfl

theorem moves_erase {index : Nat} {r : ChannelMessage} (hr : s.messages.messages[index]? = some r)
    (marker : DeletionMarker) (key : String) (correlation : Option String) (localOnly : Bool) :
    Moves New s { s with
      messages := s.messages.replace index (Deletion.erase r marker key correlation localOnly) } :=
  ⟨rfl, rfl, rfl, moved_replace hr (follows_erase r marker key correlation localOnly)⟩

end ChannelSession

end Mosh.Channel
