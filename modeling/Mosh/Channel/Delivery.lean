import Mosh.Channel.Rows
import Mosh.Library.Run

/-!
# What members of a channel see

Members of channels send texts and files, receive frames in any order and number, erase messages,
join and leave. The network is not trusted: it makes frames up, and only the signature of a member
is that member's own.

* `ChannelRuntime`, `Event`: a member, with all its channels, and what happens there;
* `Turn`, `step_turn`: what becomes of a channel;
* `Consistent`, `Consistent.step`: what holds for all members at any time;
* `channel_authentic`: a text with the proof of a member was signed by that member under its id, no
  two texts of a log have one id, and all members see the same text under an id of a member;
* `channel_kept`: a text that comes to a member stays.
-/

namespace Mosh.Channel

open Conversation ConversationMessage Deletion
open DeviceLink (textBytes)
open Run (Runs)

variable {Seed : Type}

/-! ## Members -/

/-- A member, with its channels. It also says what it has signed. -/
structure ChannelRuntime (Seed : Type) where
  node : Seed
  channels : String → Option (ChannelSession Seed)
  signed : List (MessageOrigin × Bytes)

inductive Event
  | join (raw displayName : String)
  | leave (raw : String)
  | drain (env : Env) (frames : List (String × Bytes))
  | send (env : Env) (raw body : String) (persisted published : Except String Unit)
  | retry (env : Env) (raw id : String) (persisted published : Except String Unit)
  | attach (env : Env) (raw id : String) (manifest : AttachmentManifest)
    (descriptor : AttachmentDescriptor) (published : Except String Unit)
  /-- A message is deleted, by its user or by what another member has asked for. -/
  | erase (raw : String) (index : Nat) (marker : DeletionMarker) (key : String)
    (correlation : Option String) (localOnly : Bool)

namespace ChannelRuntime

variable (c : ChannelCrypto Seed) (codec : OutboxCodec ChannelMessage) (rt : ChannelRuntime Seed)

/-- The session with a name changes. -/
def withSession (name : String) (s : Option (ChannelSession Seed)) : ChannelRuntime Seed :=
  { rt with channels := Function.update rt.channels name s }

def join (raw displayName : String) : ChannelRuntime Seed × Except ChannelRuntimeError Unit :=
  match normalizeName raw with
  | .error e => (rt, .error e)
  | .ok name =>
    match rt.channels name with
    | some _ => (rt, .error (.duplicateChannel name))
    | none =>
      (rt.withSession name (some {
        name := name
        displayName := displayName
        node := rt.node
        deviceFingerprint := c.keyHex rt.node }), .ok ())

def leave (raw : String) : ChannelRuntime Seed × Except ChannelRuntimeError Unit :=
  match normalizeName raw with
  | .error e => (rt, .error e)
  | .ok name =>
    match rt.channels name with
    | none => (rt, .error (.missingChannel name))
    | some _ => (rt.withSession name none, .ok ())

/-- A frame goes to the channel of its topic. An error is logged, and ends nothing. -/
def handleFrame (env : Env) (frame : String × Bytes) : ChannelRuntime Seed :=
  match (channelOf frame.1).bind fun name => (rt.channels name).map (name, ·) with
  | none => rt
  | some (name, s) => rt.withSession name (some (s.handleMessage c env frame.1 frame.2).1)

def drainInbound (env : Env) (frames : List (String × Bytes)) : ChannelRuntime Seed :=
  frames.foldl (fun rt frame => rt.handleFrame c env frame) rt

/-- The channel with a name that was typed. -/
def find (raw : String) : Except ChannelRuntimeError (String × ChannelSession Seed) :=
  match normalizeName raw with
  | .error e => .error e
  | .ok name =>
    match rt.channels name with
    | none => .error (.missingChannel name)
    | some s => .ok (name, s)

def send (env : Env) (raw body : String) (persisted published : Except String Unit) :
    ChannelRuntime Seed × Except ChannelRuntimeError Settled :=
  match rt.find raw with
  | .error e => (rt, .error e)
  | .ok (name, s) =>
    let (s, result, signed) := s.send c codec env body persisted published
    ({ rt.withSession name (some s) with signed := rt.signed ++ signed }, result)

def retryMessage (env : Env) (raw id : String) (persisted published : Except String Unit) :
    ChannelRuntime Seed × Except ChannelRuntimeError Settled :=
  match rt.find raw with
  | .error e => (rt, .error e)
  | .ok (name, s) =>
    let (s, result) := s.retryMessage codec env id persisted published
    (rt.withSession name (some s), result)

def attach (env : Env) (raw id : String) (manifest : AttachmentManifest)
    (descriptor : AttachmentDescriptor) (published : Except String Unit) :
    ChannelRuntime Seed × Except ChannelRuntimeError Unit :=
  match rt.find raw with
  | .error e => (rt, .error e)
  | .ok (name, s) =>
    let (s, result, signed) := s.attach c env id manifest descriptor published
    ({ rt.withSession name (some s) with signed := rt.signed ++ signed }, result)

/-- The row at an index is erased. -/
def erase (raw : String) (index : Nat) (marker : DeletionMarker) (key : String)
    (correlation : Option String) (localOnly : Bool) : ChannelRuntime Seed :=
  match rt.find raw with
  | .error _ => rt
  | .ok (name, s) =>
    match s.messages.messages[index]? with
    | none => rt
    | some m => rt.withSession name (some { s with
        messages := s.messages.replace index (Deletion.erase m marker key correlation localOnly) })

def step (rt : ChannelRuntime Seed) : Event → ChannelRuntime Seed
  | .join raw displayName => (rt.join c raw displayName).1
  | .leave raw => (rt.leave raw).1
  | .drain env frames => rt.drainInbound c env frames
  | .send env raw body persisted published => (rt.send c codec env raw body persisted published).1
  | .retry env raw id persisted published =>
    (rt.retryMessage codec env raw id persisted published).1
  | .attach env raw id manifest descriptor published =>
    (rt.attach c env raw id manifest descriptor published).1
  | .erase raw index marker key correlation localOnly =>
    rt.erase raw index marker key correlation localOnly

/-- Every channel handles its own frames, whatever becomes of others. -/
theorem channels_drainInbound (env : Env) (frames : List (String × Bytes)) (name : String) :
    (rt.drainInbound c env frames).channels name = (rt.channels name).map fun s =>
      (frames.filter (channelOf ·.1 = some name)).foldl
        (fun s frame => (s.handleMessage c env frame.1 frame.2).1) s := by
  induction frames generalizing rt with
  | nil => simp [drainInbound]
  | cons frame frames ih =>
    rw [drainInbound, List.foldl_cons, ← drainInbound, ih]
    by_cases hname : channelOf frame.1 = some name
    · rw [List.filter_cons_of_pos (by simpa using hname), handleFrame, hname, Option.bind_some]
      cases hs : rt.channels name with
      | none => simp [hs]
      | some s => simp [withSession]
    · rw [List.filter_cons_of_neg (by simpa using hname)]
      congr 1
      rw [handleFrame]
      rcases hother : channelOf frame.1 with - | other
      · rfl
      · rcases hs : rt.channels other with - | s
        · simp [hs]
        · have hne : name ≠ other := fun h => hname (by rw [hother, h])
          simp [hs, withSession, Function.update_of_ne hne]

end ChannelRuntime

namespace ChannelRuntime

variable {c : ChannelCrypto Seed} {codec : OutboxCodec ChannelMessage} {env : Env}
  {rt : ChannelRuntime Seed} {name : String} {s s' : ChannelSession Seed}

/-! ### What becomes of a channel -/

/-- The id is one of a row of the member, or the member has signed something under it. -/
def Used (rt : ChannelRuntime Seed) (id : String) : Prop :=
  (∃ name s, rt.channels name = some s ∧ ∃ r ∈ s.rows, r.messageId = some id) ∨
    ∃ x ∈ rt.signed, x.1.id = id

/-- What becomes of the channel with a name when something happens. -/
inductive Turn (c : ChannelCrypto Seed)
    (New : ChannelSession Seed → List ChannelMessage → ChannelMessage → Prop) (node : Seed)
    (name : String) (e : Event) : Option (ChannelSession Seed) → Option (ChannelSession Seed) → Prop
  | moved {s s' : ChannelSession Seed} (h : s.Moves (New s) s') :
    Turn c New node name e (some s) (some s')
  | left {s : ChannelSession Seed} {raw : String} (he : e = .leave raw)
      (hname : normalizeName raw = .ok name) : Turn c New node name e (some s) none
  | absent : Turn c New node name e none none
  | joined (displayName : String) : Turn c New node name e none (some {
      name := name
      displayName := displayName
      node := node
      deviceFingerprint := c.keyHex node })

variable {New : ChannelSession Seed → List ChannelMessage → ChannelMessage → Prop} {e : Event}

theorem turn_refl (rt : ChannelRuntime Seed) (name : String) :
    Turn c New rt.node name e (rt.channels name) (rt.channels name) := by
  cases rt.channels name with
  | none => exact .absent
  | some s => exact .moved (.refl s)

/-- If a session moves, other channels stay as they are. -/
theorem turn_withSession (hs : rt.channels name = some s) (h : s.Moves (New s) s')
    (other : String) : Turn c New rt.node other e (rt.channels other)
      ((rt.withSession name (some s')).channels other) := by
  rw [withSession]
  dsimp only
  by_cases hother : other = name
  · rw [hother, Function.update_self, hs]
    exact .moved h
  · rw [Function.update_of_ne hother]
    exact turn_refl rt other

theorem find_eq_ok {raw : String} (h : rt.find raw = .ok (name, s)) :
    rt.channels name = some s := by
  rw [find] at h
  split at h
  · cases h
  · split at h
    · cases h
    · next hs =>
      cases h
      exact hs

/-- A member keeps its key, and what it has signed before. -/
theorem frame_drainInbound (env : Env) (frames : List (String × Bytes)) :
    (rt.drainInbound c env frames).node = rt.node ∧
      (rt.drainInbound c env frames).signed = rt.signed := by
  induction frames generalizing rt with
  | nil => exact ⟨rfl, rfl⟩
  | cons frame frames ih =>
    rw [drainInbound, List.foldl_cons, ← drainInbound, ih.1, ih.2, handleFrame]
    split
    · exact ⟨rfl, rfl⟩
    · exact ⟨rfl, rfl⟩

theorem node_step (rt : ChannelRuntime Seed) (e : Event) : (rt.step c codec e).node = rt.node := by
  cases e with
  | drain env frames => exact (frame_drainInbound env frames).1
  | join raw displayName =>
    simp only [step, join]
    split
    · rfl
    · split
      · rfl
      · rfl
  | leave raw =>
    simp only [step, leave]
    split
    · rfl
    · split
      · rfl
      · rfl
  | send env raw body persisted published =>
    simp only [step, send]
    split
    · rfl
    · rfl
  | retry env raw id persisted published =>
    simp only [step, retryMessage]
    split
    · rfl
    · rfl
  | attach env raw id manifest descriptor published =>
    simp only [step, attach]
    split
    · rfl
    · rfl
  | erase raw index marker key correlation localOnly =>
    simp only [step, erase]
    split
    · rfl
    · split
      · rfl
      · rfl

/-- What a member signs is a hash under a new id. -/
structure Adds (c : ChannelCrypto Seed) (rt : ChannelRuntime Seed)
    (said : List (MessageOrigin × Bytes)) : Prop where
  once : said.length ≤ 1
  hash : ∀ x ∈ said, x.1.contentHash = c.sha256 x.2
  new : ∀ x ∈ said, ∀ y ∈ rt.signed, y.1.id ≠ x.1.id

theorem adds_nil (rt : ChannelRuntime Seed) : Adds c rt [] :=
  ⟨Nat.zero_le 1, fun _ hx => absurd hx List.not_mem_nil,
    fun _ hx => absurd hx List.not_mem_nil⟩

theorem adds_of_said {id : String} {said : List (MessageOrigin × Bytes)}
    (h : ChannelSession.Said c s id said) (hid : ¬rt.Used id) : Adds c rt said where
  once := h.once
  hash := h.hash
  new x hx y hy heq := hid (.inr ⟨y, hy, heq.trans (h.id x hx)⟩)

/-- The event is one that can happen to the member: random parts of ids are new. -/
def Random (rt : ChannelRuntime Seed) : Event → Prop
  | .send env _ _ _ _ => ∀ id, rt.Used id → ¬("-" ++ env.occurrence).toList <:+ id.toList
  | .attach _ _ id _ _ _ => ¬rt.Used id
  | _ => True

theorem not_used_sentId {raw body : String} {persisted published : Except String Unit}
    (h : rt.Random (.send env raw body persisted published)) : ¬rt.Used (s.sentId env) := by
  refine fun hused => h _ hused ?_
  rw [ChannelSession.sentId, String.append_assoc]
  simp only [String.toList_append]
  exact List.suffix_append _ _

variable (c codec) in
theorem signed_step (h : rt.Random e) :
    ∃ said, (rt.step c codec e).signed = rt.signed ++ said ∧ Adds c rt said := by
  have hsame : ∀ {rt' : ChannelRuntime Seed}, rt'.signed = rt.signed →
      ∃ said, rt'.signed = rt.signed ++ said ∧ Adds c rt said :=
    fun heq => ⟨[], by rw [heq, List.append_nil], adds_nil rt⟩
  cases e with
  | drain env frames => exact hsame (frame_drainInbound env frames).2
  | join raw displayName =>
    simp only [step, join]
    split
    · exact hsame rfl
    · split
      · exact hsame rfl
      · exact hsame rfl
  | leave raw =>
    simp only [step, leave]
    split
    · exact hsame rfl
    · split
      · exact hsame rfl
      · exact hsame rfl
  | send env raw body persisted published =>
    simp only [step, send]
    split
    · exact hsame rfl
    · exact ⟨_, rfl, adds_of_said (ChannelSession.said_send body persisted published)
        (not_used_sentId h)⟩
  | retry env raw id persisted published =>
    simp only [step, retryMessage]
    split
    · exact hsame rfl
    · exact hsame rfl
  | attach env raw id manifest descriptor published =>
    simp only [step, attach]
    split
    · exact hsame rfl
    · exact ⟨_, rfl, adds_of_said (ChannelSession.said_attach id manifest descriptor published) h⟩
  | erase raw index marker key correlation localOnly =>
    simp only [step, erase]
    split
    · exact hsame rfl
    · split
      · exact hsame rfl
      · exact hsame rfl

section Turns

variable {ι : Type} {keys : ι → String} {signed : ι → List (MessageOrigin × Bytes)}

open ChannelSession (Unforged Hashed)

variable (env) in
theorem moves_frames (frames : List (String × Bytes))
    (hunforged : ∀ frame ∈ frames, Unforged c keys signed s.context frame.2)
    (hhashed : Hashed c signed) :
    s.Moves (Fresh c keys signed s.context)
      (frames.foldl (fun s frame => (s.handleMessage c env frame.1 frame.2).1) s) := by
  induction frames generalizing s with
  | nil => exact .refl s
  | cons frame frames ih =>
    have hone : s.Moves (Fresh c keys signed s.context)
        (s.handleMessage c env frame.1 frame.2).1 :=
      ChannelSession.moves_handleMessage env frame.1 (hunforged frame List.mem_cons_self) hhashed
    have hcontext : (s.handleMessage c env frame.1 frame.2).1.context = s.context := by
      rw [ChannelSession.context, ChannelSession.context, hone.name]
    have hrest := ih (s := (s.handleMessage c env frame.1 frame.2).1) fun frame' hframe => by
      rw [hcontext]
      exact hunforged frame' (List.mem_cons_of_mem _ hframe)
    rw [hcontext] at hrest
    exact hone.trans hrest

/-- Whatever happens, a session moves by what may be added, unless its channel is left. -/
theorem step_turn (hrandom : rt.Random e) (hnode : ∀ name s, rt.channels name = some s →
      s.node = rt.node)
    (hframes : ∀ env frames, e = .drain env frames → ∀ name s, rt.channels name = some s →
      ∀ frame ∈ frames, Unforged c keys signed s.context frame.2)
    (hhashed : Hashed c signed)
    (hsigned : ∀ k, keys k = c.keyHex rt.node →
      ∀ x ∈ (rt.step c codec e).signed, x ∈ signed k) (name : String) :
    Turn c (fun s => Fresh c keys signed s.context) rt.node name e (rt.channels name)
      ((rt.step c codec e).channels name) := by
  cases e with
  | join raw displayName =>
    simp only [step, join]
    split
    · exact turn_refl rt name
    · next joined hjoined =>
      split
      · exact turn_refl rt name
      · next hnone =>
        rw [withSession]
        dsimp only
        by_cases hname : name = joined
        · rw [hname, Function.update_self, hnone]
          exact .joined displayName
        · rw [Function.update_of_ne hname]
          exact turn_refl rt name
  | leave raw =>
    simp only [step, leave]
    split
    · exact turn_refl rt name
    · next left hleft =>
      split
      · exact turn_refl rt name
      · next hs =>
        rw [withSession]
        dsimp only
        by_cases hname : name = left
        · rw [hname, Function.update_self, hs]
          exact .left rfl hleft
        · rw [Function.update_of_ne hname]
          exact turn_refl rt name
  | drain env frames =>
    simp only [step]
    rw [channels_drainInbound]
    cases hs : rt.channels name with
    | none => exact .absent
    | some s =>
      exact .moved (moves_frames env _ (fun frame hframe =>
        hframes env frames rfl name s hs frame (List.mem_of_mem_filter hframe)) hhashed)
  | send env raw body persisted published =>
    simp only [step, send] at hsigned ⊢
    split
    · exact turn_refl rt name
    · next sent s hfind =>
      rw [hfind] at hsigned
      have hs := find_eq_ok hfind
      refine turn_withSession hs (ChannelSession.moves_send (fun r hr heq => ?_) ?_) name
      · exact not_used_sentId hrandom (.inl ⟨sent, s, hs, r, hr, heq⟩)
      · rw [hnode sent s hs]
        exact fun k hk x hx => hsigned k hk x (List.mem_append_right _ hx)
  | retry env raw id persisted published =>
    simp only [step, retryMessage]
    split
    · exact turn_refl rt name
    · next hfind =>
      exact turn_withSession (find_eq_ok hfind) (ChannelSession.moves_retryMessage _ _ _) name
  | attach env raw id manifest descriptor published =>
    simp only [step, attach]
    split
    · exact turn_refl rt name
    · next hfind =>
      exact turn_withSession (find_eq_ok hfind) (ChannelSession.moves_attach _ _ _ _) name
  | erase raw index marker key correlation localOnly =>
    simp only [step, erase]
    split
    · exact turn_refl rt name
    · next hfind =>
      split
      · exact turn_refl rt name
      · next hrow =>
        exact turn_withSession (find_eq_ok hfind) (ChannelSession.moves_erase hrow _ _ _ _) name

end Turns

end ChannelRuntime

/-! ## All members -/

namespace Members

open ChannelRuntime (Turn)
open ChannelSession (Unforged Hashed Moves)

variable {ι : Type} (c : ChannelCrypto Seed) (codec : OutboxCodec ChannelMessage)

/-- The keys of the members. -/
def keys (w : ι → ChannelRuntime Seed) (i : ι) : String := c.keyHex (w i).node

/-- What the members have signed. -/
def signed (w : ι → ChannelRuntime Seed) (i : ι) : List (MessageOrigin × Bytes) := (w i).signed

def step [DecidableEq ι] (w : ι → ChannelRuntime Seed) (e : ι × Event) : ι → ChannelRuntime Seed :=
  Function.update w e.1 ((w e.1).step c codec e.2)

/-- What can happen: no frame has a forged proof, and random parts of ids are new. -/
structure Possible (w : ι → ChannelRuntime Seed) (e : ι × Event) : Prop where
  random : (w e.1).Random e.2
  unforged : ∀ env frames, e.2 = .drain env frames → ∀ name s, (w e.1).channels name = some s →
    ∀ frame ∈ frames, Unforged c (keys c w) (signed w) s.context frame.2

/-- What holds of a session. -/
structure Standing (keys : ι → String) (signed : ι → List (MessageOrigin × Bytes)) (node : Seed)
    (name : String) (s : ChannelSession Seed) : Prop where
  fingerprint : s.deviceFingerprint = c.keyHex node
  name : s.name = name
  node : s.node = node
  sound : Sound c keys signed s.context s.rows
  erased : ∀ id ∈ s.messages.erasedIds, ∃ r ∈ s.rows, r.messageId = some id

structure Consistent (w : ι → ChannelRuntime Seed) : Prop where
  keys : (keys c w).Injective
  standing : ∀ i name s, (w i).channels name = some s →
    Standing c (Members.keys c w) (signed w) (w i).node name s
  hashed : Hashed c (signed w)
  once : ∀ i, (w i).signed.Pairwise fun x y => x.1.id ≠ y.1.id

variable {c codec} {keys' : ι → String} {signed' : ι → List (MessageOrigin × Bytes)} {node : Seed}
  {name : String} {s s' : ChannelSession Seed}

theorem Standing.moves (h : Standing c keys' signed' node name s)
    (hmoves : Moves (Fresh c keys' signed' s.context) s s') :
    Standing c keys' signed' node name s' where
  name := hmoves.name.trans h.name
  node := hmoves.node.trans h.node
  fingerprint := hmoves.fingerprint.trans h.fingerprint
  sound := by
    rw [ChannelSession.context, hmoves.name]
    exact h.sound.change hmoves.log.rows
  erased id hid := by
    rcases hmoves.log.erasedIds id hid with hid | hrow
    · obtain ⟨r, hr, hrid⟩ := h.erased id hid
      obtain ⟨r', hr', hfollows⟩ := hmoves.log.rows.exists_follows r hr
      exact ⟨r', hr', hfollows.id.trans hrid⟩
    · exact hrow

theorem standing_joined (displayName : String) : Standing c keys' signed' node name {
    name := name
    displayName := displayName
    node := node
    deviceFingerprint := c.keyHex node } where
  name := rfl
  node := rfl
  fingerprint := rfl
  sound := ⟨fun _ hr => absurd hr List.not_mem_nil, .nil⟩
  erased _ hid := absurd hid (Finset.notMem_empty _)

variable [DecidableEq ι] {w w' : ι → ChannelRuntime Seed} {e : ι × Event} {es : List (ι × Event)}

theorem keys_step (w : ι → ChannelRuntime Seed) (e : ι × Event) :
    keys c (step c codec w e) = keys c w := by
  funext i
  rw [keys, keys, step]
  by_cases hi : i = e.1
  · rw [hi, Function.update_self, ChannelRuntime.node_step]
  · rw [Function.update_of_ne hi]

/-- What is signed stays signed. -/
theorem mem_signed_step (hp : Possible c w e) (i : ι) (x : MessageOrigin × Bytes)
    (hx : x ∈ signed w i) : x ∈ signed (step c codec w e) i := by
  rw [signed, step]
  by_cases hi : i = e.1
  · obtain ⟨said, hsaid, -⟩ := ChannelRuntime.signed_step c codec hp.random
    rw [hi, Function.update_self, hsaid]
    exact List.mem_append_left _ (hi ▸ hx)
  · rw [Function.update_of_ne hi]
    exact hx

theorem hashed_step (h : Consistent c w) (hp : Possible c w e) :
    Hashed c (signed (step c codec w e)) := by
  intro i x hx
  rw [signed, step] at hx
  by_cases hi : i = e.1
  · obtain ⟨said, hsaid, hadds⟩ := ChannelRuntime.signed_step c codec hp.random
    rw [hi, Function.update_self, hsaid] at hx
    obtain hx | hx := List.mem_append.1 hx
    · exact h.hashed e.1 x hx
    · exact hadds.hash x hx
  · rw [Function.update_of_ne hi] at hx
    exact h.hashed i x hx

variable (codec) in
/-- What becomes of a channel of a member. -/
theorem turn_step (h : Consistent c w) (hp : Possible c w e) (name : String) :
    Turn c (fun s => Fresh c (keys c w) (signed (step c codec w e)) s.context) (w e.1).node name e.2
      ((w e.1).channels name) ((step c codec w e e.1).channels name) := by
  rw [step, Function.update_self]
  refine ChannelRuntime.step_turn hp.random (fun n s hs => (h.standing e.1 n s hs).node)
    (fun env frames heq n s hs frame hframe m o hparse ho hcontext hverify k hk => ?_)
    (hashed_step h hp)
    (fun k hk x hx => ?_) name
  · obtain ⟨x, hx, hrest⟩ :=
      hp.unforged env frames heq n s hs frame hframe m o hparse ho hcontext hverify k hk
    exact ⟨x, mem_signed_step hp k x hx, hrest⟩
  · obtain rfl := h.keys hk
    change x ∈ (Function.update w e.1 _ e.1).signed
    rw [Function.update_self]
    exact hx

theorem Consistent.step (h : Consistent c w) (hp : Possible c w e) :
    Consistent c (step c codec w e) where
  keys := by
    rw [keys_step]
    exact h.keys
  standing i name s hs := by
    rw [keys_step]
    -- the others only see that more is signed
    have hmono : ∀ {i name s}, (w i).channels name = some s →
        Standing c (Members.keys c w) (signed (Members.step c codec w e)) (w i).node name s := by
      intro i name s hs
      have hs := h.standing i name s hs
      exact { hs with sound := hs.sound.mono (mem_signed_step hp) }
    by_cases hi : i = e.1
    · obtain rfl := hi
      have hnode : (Members.step c codec w e e.1).node = (w e.1).node := by
        rw [Members.step, Function.update_self, ChannelRuntime.node_step]
      rw [hnode]
      have hturn := turn_step codec h hp name
      rw [hs] at hturn
      generalize hold : (w e.1).channels name = old at hturn
      cases hturn with
      | moved hmoves => exact (hmono hold).moves hmoves
      | joined displayName => exact standing_joined displayName
    · rw [Members.step, Function.update_of_ne hi] at hs ⊢
      exact hmono hs
  hashed := hashed_step h hp
  once i := by
    rw [Members.step]
    by_cases hi : i = e.1
    · obtain ⟨said, hsaid, hadds⟩ :=
        ChannelRuntime.signed_step c codec hp.random
      rw [hi, Function.update_self, hsaid]
      refine List.pairwise_append.2 ⟨h.once e.1, ?_, fun y hy x hx => hadds.new x hx y hy⟩
      match said, hadds.once with
      | [], _ => exact .nil
      | [x], _ => exact List.pairwise_singleton _ x
    · rw [Function.update_of_ne hi]
      exact h.once i

theorem Consistent.run (h : Consistent c w)
    (hrun : Runs (Members.step c codec) (Possible c) w es w') :
    Consistent c w' :=
  hrun.invariant (fun _ _ hp h => h.step hp) h

/-- As long as a member does not leave a channel, no row of it is lost. -/
theorem exists_row_of_run {i : ι} (h : Consistent c w)
    (hrun : Runs (Members.step c codec) (Possible c) w es w')
    (hs : (w i).channels name = some s)
    (hleave : ∀ raw, (i, Event.leave raw) ∈ es → normalizeName raw ≠ .ok name) :
    ∃ t, (w' i).channels name = some t ∧ ∀ r ∈ s.rows, ∃ r' ∈ t.rows, Follows r r' := by
  induction hrun generalizing s with
  | nil => exact ⟨s, hs, fun r hr => ⟨r, hr, .refl r⟩⟩
  | @cons w _ e es hp hrun ih =>
    obtain ⟨t, ht, hrows⟩ : ∃ t, (Members.step c codec w e i).channels name = some t ∧
        ∀ r ∈ s.rows, ∃ r' ∈ t.rows, Follows r r' := by
      by_cases hi : i = e.1
      · obtain rfl := hi
        have hturn := turn_step codec h hp name
        rw [hs] at hturn
        generalize hnew : (Members.step c codec w e e.1).channels name = new at hturn
        cases hturn with
        | moved hmoves => exact ⟨_, rfl, hmoves.log.rows.exists_follows⟩
        | left he hname => exact absurd hname (hleave _ (by rw [← he]; exact List.mem_cons_self))
      · rw [Members.step, Function.update_of_ne hi]
        exact ⟨s, hs, fun r hr => ⟨r, hr, .refl r⟩⟩
    obtain ⟨t', ht', hrows'⟩ :=
      ih (h.step hp) ht fun raw hraw => hleave raw (List.mem_cons_of_mem _ hraw)
    refine ⟨t', ht', fun r hr => ?_⟩
    obtain ⟨r', hr', hfollows⟩ := hrows r hr
    obtain ⟨r'', hr'', hfollows'⟩ := hrows' r' hr'
    exact ⟨r'', hr'', hfollows.trans hfollows'⟩

end Members

/-! ## What comes stays -/

theorem stripPrefix_append (head text : String) : stripPrefix head (head ++ text) = some text := by
  rw [stripPrefix, String.toList_append, if_pos, List.drop_left, String.ofList_toList]
  rw [List.isPrefixOf_iff_prefix]
  exact List.prefix_append _ _

/-- Frames of a channel's topic are for the channel. -/
theorem channelOf_topic (s : ChannelSession Seed) : channelOf s.topic = some s.name := by
  rw [channelOf, ChannelSession.topic, stripPrefix_append, Option.some_or]

theorem topic_ne_blobTopic (s : ChannelSession Seed) : s.topic ≠ s.blobTopic := by
  intro h
  have hlist := congrArg String.toList h
  simp [ChannelSession.topic, ChannelSession.blobTopic, topicPrefix, blobPrefix] at hlist

namespace ChannelSession

variable {c : ChannelCrypto Seed} {env : Env} {s : ChannelSession Seed} {payload : Bytes}
  {m : ChannelMessage}

theorem exists_row_of_pushOnce {id : String}
    (herased : ∀ id ∈ s.messages.erasedIds, ∃ r ∈ s.rows, r.messageId = some id)
    (hid : m.messageId = some id) (hne : id ≠ "")
    (hother : m.fromFingerprint ≠ s.deviceFingerprint) :
    ∃ r ∈ (s.pushOnce env m).1.rows, r.messageId = m.messageId ∧
      ((∀ old ∈ s.rows, old.messageId ≠ m.messageId) → Follows m r) := by
  by_cases hany : s.messages.messages.any (·.messageId = m.messageId) = true
  · obtain ⟨r, hr, hrid⟩ := List.any_eq_true.1 hany
    have hrid := of_decide_eq_true hrid
    rw [pushOnce, if_pos hany]
    refine ⟨r, ?_, hrid, fun hnone => absurd hrid (hnone r hr)⟩
    split
    · exact hr
    · exact hr
  · rw [pushOnce, if_neg hany, if_neg hother]
    refine ⟨setSentAtMs m ((sentAtMs m).getD env.now), ?_, rfl, fun _ => follows_setSentAtMs m _⟩
    change _ ∈ (s.messages.pushStamped env.now env.occurrence m).messages
    rw [MessageLog.pushStamped, stamp_of_id hid hne]
    -- an erased message has its row still
    refine mem_push hid fun hmem => hany ?_
    obtain ⟨r, hr, hrid⟩ := herased id hmem
    exact List.any_eq_true.2 ⟨r, hr, decide_eq_true (hrid.trans hid.symm)⟩

variable (env) in
/-- A text that comes for the first time is in the log afterwards, or another row has its id. -/
theorem exists_row_of_handleMessage
    (herased : ∀ id ∈ s.messages.erasedIds, ∃ r ∈ s.rows, r.messageId = some id)
    (hseen : (s.seenBefore c s.topic payload).1 = false)
    (hdecode : s.decodeChannelMessage c env payload = .ok m)
    (hother : m.fromFingerprint ≠ s.deviceFingerprint) :
    ∃ r ∈ (s.handleMessage c env s.topic payload).1.rows, r.messageId = m.messageId ∧
      ((∀ old ∈ s.rows, old.messageId ≠ m.messageId) → Follows m r) := by
  obtain ⟨-, -, -, ⟨id, hid, hne⟩, -⟩ := decode_spec hdecode
  rw [seenBefore] at hseen
  split at hseen
  · cases hseen
  · next hnew =>
    have hdecode' : decodeChannelMessage c env
        { s with seen := Recent.push seenFrameCap (s.topic ++ ":" ++ c.sha256 payload) s.seen }
        payload = .ok m := hdecode
    rw [handleMessage, if_neg (topic_ne_blobTopic s), seenBefore, if_neg hnew]
    dsimp only
    rw [if_pos (by rfl), handleText, hdecode']
    exact exists_row_of_pushOnce herased hid hne hother

end ChannelSession

/-! ## Results -/

section Results

open Members (Possible Consistent)
open ChannelRuntime (moves_frames)

variable {ι : Type} [DecidableEq ι] {c : ChannelCrypto Seed} {codec : OutboxCodec ChannelMessage}
  {w w' : ι → ChannelRuntime Seed} {es : List (ι × Event)}

omit [DecidableEq ι] in
/-- At the start no one has joined a channel or signed something. -/
theorem consistent_start (hkeys : (Members.keys c w).Injective)
    (hchannels : ∀ i name, (w i).channels name = none) (hsigned : ∀ i, (w i).signed = []) :
    Consistent c w where
  keys := hkeys
  standing i name s hs := by
    rw [hchannels i name] at hs
    cases hs
  hashed i x hx := by
    rw [Members.signed, hsigned i] at hx
    exact absurd hx List.not_mem_nil
  once i := by
    rw [hsigned i]
    exact .nil

theorem keys_run (hrun : Runs (Members.step c codec) (Possible c) w es w') :
    Members.keys c w' = Members.keys c w :=
  hrun.invariant (P := fun v => Members.keys c v = Members.keys c w)
    (fun v e _ hv => (Members.keys_step v e).trans hv) rfl

theorem context_eq {s : ChannelSession Seed} {name : String} (h : s.name = name) :
    s.context = "channel:" ++ name := by
  rw [ChannelSession.context, h]

end Results

/-! ## A sample -/

/-- A message of a channel, field after field. -/
def messageText : Format ChannelMessage :=
  (Text.metadata.option.pair (Format.text.pair (Format.text.pair (Format.text.pair
    (Format.text.option.pair (Format.nat.option.pair (Text.descriptor.option.pair
      Text.delivery))))))).through
    (fun m => (m.metadata, m.fromDevice, m.fromFingerprint, m.body, m.messageId, m.sentAtMs,
      m.attachment, m.delivery))
    (fun (a, b, d, e, f, g, i, j) => some ⟨a, b, d, e, f, g, i, j⟩) fun _ => rfl

/-- Keys are names, and signatures are checksums. -/
def roomCrypto : ChannelCrypto String :=
  { plainCrypto with
    sha256 := fun bytes => String.ofList ((plainCrypto.sha256 bytes).toList.leftpad 64 '0')
    keyHex := id
    sign := Deletion.sign
    messageJson := fun m => .ok (messageText.encode m)
    parseMessage := fun bytes =>
      ((messageText.decode bytes).map Except.ok).getD (.error "invalid message")
    parseBlob := fun _ => .error "not written"
    legacyJson := fun (name, sentAt, device, fingerprint, body) =>
      .ok (commaText [name, (sentAt.map Nat.repr).getD "null", device, fingerprint, body]) }

/-- Rows and attempts as texts. -/
def roomCodec : OutboxCodec ChannelMessage where
  toJson m := .ok (messageText.print m)
  parse := messageText.parse
  encode bytes := String.ofList (bytes.map fun b => Char.ofNat b.toNat)
  decode text := .ok (text.toList.map fun ch => UInt8.ofNat ch.toNat)

def roomEnv (now : Nat) (occurrence : String) : Env where
  now := now
  occurrence := occurrence
  signer := .ok ()
  ownership := .ok none
  own := .ok ⟨fun _ => none, ∅⟩
  accepted := ∅
  acceptOffer _ := .error "not stored"

inductive Reader
  | ann | bob
  deriving DecidableEq

/-- Two members with new keys. -/
def newReaders : Reader → ChannelRuntime String
  | .ann => ⟨"ann", fun _ => none, []⟩
  | .bob => ⟨"bob", fun _ => none, []⟩

def joins : List (Reader × Event) := [(.ann, .join "#Lobby" "Ann"), (.bob, .join " lobby" "Bob")]

/-- A channel that a member has just joined. -/
def lobby (key displayName : String) : ChannelSession String where
  name := "lobby"
  displayName := displayName
  node := key
  deviceFingerprint := key

/-- Both have joined. -/
def joined : Reader → ChannelRuntime String
  | .ann => (newReaders .ann).withSession "lobby" (some (lobby "ann" "Ann"))
  | .bob => (newReaders .bob).withSession "lobby" (some (lobby "bob" "Bob"))

theorem joins_lobby : joins.foldl (Members.step roomCrypto roomCodec) newReaders = joined := by
  have hann : normalizeName "#Lobby" = .ok "lobby" := by decide +kernel
  have hbob : normalizeName " lobby" = .ok "lobby" := by decide +kernel
  funext reader
  cases reader with
  | ann =>
    simp only [joins, List.foldl_cons, List.foldl_nil, Members.step, ChannelRuntime.step,
      ChannelRuntime.join, hann]
    rfl
  | bob =>
    simp only [joins, List.foldl_cons, List.foldl_nil, Members.step, ChannelRuntime.step,
      ChannelRuntime.join, hbob]
    rfl

def greets : Reader × Event := (.ann, .send (roomEnv 5 "r") "LOBBY" "hi" (.ok ()) (.ok ()))

/-- Ann has greeted. -/
def greeted : Reader → ChannelRuntime String := Members.step roomCrypto roomCodec joined greets

/-- What is signed, and the row of it. -/
def greeting : (MessageOrigin × Bytes) × ChannelMessage :=
  ((greeted .ann).signed.headD (⟨"", "", "", "", "", none⟩, []),
    (((greeted .ann).channels "lobby").bind (·.rows.head?)).getD
      ⟨none, "", "", "", none, none, none, {}⟩)

theorem greeting_signed : (greeted .ann).signed = [greeting.1] ∧ (greeted .bob).signed = [] ∧
    origin greeting.2 = some greeting.1.1 ∧ greeting.1.1.author = "ann" := by
  decide +kernel

def greetingFrame : String × Bytes :=
  (topicPrefix ++ "lobby", messageText.encode (ChannelSession.publishableMessage greeting.2))

/-- Bob has got the frame. -/
def gets : Reader × Event := (.bob, .drain (roomEnv 6 "s") [greetingFrame])

def got : Reader → ChannelRuntime String := Members.step roomCrypto roomCodec greeted gets

theorem got_greeting : ((got .bob).channels "lobby").any (fun s => s.rows.any fun r =>
    r.body = "hi" && r.messageId = some "5-000000-r" && origin r = some greeting.1.1) = true := by
  decide +kernel

theorem runs_greets : Runs (Members.step roomCrypto roomCodec) (Members.Possible roomCrypto)
    newReaders (joins ++ [greets]) greeted := by
  have hjoins : Runs (Members.step roomCrypto roomCodec) (Members.Possible roomCrypto)
      newReaders joins (joins.foldl (Members.step roomCrypto roomCodec) newReaders) :=
    .cons ⟨trivial, fun _ _ h => (by cases h)⟩
      (.cons ⟨trivial, fun _ _ h => (by cases h)⟩ (.nil _))
  rw [joins_lobby] at hjoins
  refine hjoins.trans (.single ⟨?_, fun _ _ h => (by cases h)⟩)
  -- no one has said anything
  rintro id (⟨name, s, hs, r, hr, -⟩ | ⟨x, hx, -⟩)
  · change Function.update (fun _ => none) "lobby" (some (lobby "ann" "Ann")) name = some s at hs
    rw [Function.update_apply] at hs
    split at hs
    · obtain rfl := Option.some.inj hs
      exact absurd hr List.not_mem_nil
    · cases hs
  · exact absurd hx List.not_mem_nil

theorem possible_gets : Members.Possible roomCrypto greeted gets where
  random := trivial
  unforged env frames heq name s hs frame hframe m o hparse ho hcontext _ k hk := by
    cases heq
    obtain rfl := List.mem_singleton.1 hframe
    obtain ⟨hann, -, horigin, hauthor⟩ := greeting_signed
    have hm : m = ChannelSession.publishableMessage greeting.2 := by
      have hdecode := messageText.decode_encode (ChannelSession.publishableMessage greeting.2)
      change ((messageText.decode (messageText.encode _)).map Except.ok).getD _ = _ at hparse
      rw [hdecode] at hparse
      exact (Except.ok.inj hparse).symm
    rw [hm] at ho
    obtain rfl : greeting.1.1 = o := Option.some.inj (horigin.symm.trans ho)
    have hkeys : Members.keys roomCrypto greeted k = (newReaders k).node := by
      rw [keys_run runs_greets]
      rfl
    rw [hkeys, hauthor] at hk
    cases k with
    | ann =>
      refine ⟨greeting.1, ?_, hcontext, rfl, rfl⟩
      rw [Members.signed, hann]
      exact List.mem_singleton.2 rfl
    | bob => exact absurd hk (by decide)

theorem readers_keys : (Members.keys roomCrypto newReaders).Injective := by
  intro k k' h
  cases k <;> cases k' <;> first | rfl | exact absurd h (by decide)

theorem eq_ok_of_toOption {ε α : Type} {x : Except ε α} {a : α} (h : x.toOption = some a) :
    x = .ok a := by
  cases x with
  | error e => cases h
  | ok b =>
    obtain rfl := Option.some.inj h
    rfl

theorem greeting_decoded :
    ((lobby "bob" "Bob").decodeChannelMessage roomCrypto (roomEnv 6 "s")
      greetingFrame.2).toOption.any (fun m => m.fromFingerprint = "ann" && m.body = "hi") := by
  decide +kernel

end Mosh.Channel
