import Mosh.DeviceLink.Roster

/-!
# Removed devices

A device that was admitted somewhere at one state of its roster may be removed, and
added again, in a later state. The queries of this module (`device_link/roster.rs`)
look at the entries that a roster has more than the one of the admission: an
addition grants access again, but does not renew what was admitted before a removal.

* `revocation_monotone`: the queries agree with each other along every chain of
  extensions. What is revoked stays revoked, and the first removal is a roster of its
  own that every verifier accepts.
-/

namespace Mosh.DeviceLink

/-- The roster of an account is its entries. -/
abbrev DeviceRoster := List Authorization

variable {Key Signature : Type} (c : RosterCrypto Key Signature)

namespace DeviceRoster

/-- The account is named by the key of its first device. -/
def userId (roster : DeviceRoster) : String :=
  (roster.head?.map (·.device.signingPublicKey)).getD ""

/-- The active devices of a roster. -/
def devices (roster : DeviceRoster) : Except DeviceLinkError (List DeviceDescriptor) :=
  verifyDevices c roster

/-- The roster is accepted and starts with the entries of the base. -/
def «extends» (roster base : DeviceRoster) : Except DeviceLinkError Bool := do
  let _ ← roster.devices c
  return base.isPrefixOf roster

/-- The entry removes the device. -/
def removes (target : String) (entry : Authorization) : Bool :=
  entry.device.deviceId = target && entry.version = removalVersion

/-- The device that signed the last removal of the target. -/
def removalAuthor (roster : DeviceRoster) (target : String) :
    Except DeviceLinkError (Option String) := do
  let _ ← roster.devices c
  return (roster.reverse.find? (removes target)).map (·.signer)

/-- The target was removed after the admission. -/
def revokedSince (roster admission : DeviceRoster) (target : String) :
    Except DeviceLinkError Bool := do
  if !(← roster.extends c admission) then throw invalid
  return (roster.drop admission.length).any (removes target)

/-- The device is active, and was not removed after the admission. -/
def authorizesAdmitted (roster admission : DeviceRoster) (device : DeviceDescriptor) :
    Except DeviceLinkError Bool := do
  if ← roster.revokedSince c admission device.deviceId then return false
  return device ∈ (← roster.devices c)

/-- Some device was removed after the base. -/
def hasRemovalSince (roster base : DeviceRoster) : Except DeviceLinkError Bool := do
  if !(← roster.extends c base) then throw invalid
  return (roster.drop base.length).any (·.version = removalVersion)

/-- The roster up to the first removal of the target after the admission. -/
def firstRemovalSince (roster admission : DeviceRoster) (target : String) :
    Except DeviceLinkError (Option DeviceRoster) := do
  if !(← roster.extends c admission) then throw invalid
  return ((roster.drop admission.length).findIdx? (removes target)).map fun index =>
    roster.take (admission.length + index + 1)

/-- The roster extends the base and ends with the removal of the target by the signer. -/
def verifiesRemovalExtension (roster base : DeviceRoster) (target signer : String) :
    Except DeviceLinkError Unit := do
  let some last := roster.getLast? | throw invalid
  if !(← roster.extends c base) || last.version ≠ removalVersion ||
      last.device.deviceId ≠ target || last.signer ≠ signer then throw invalid

/-- The removal is also one of a device that is active in the base. -/
def verifiesRemoval (roster base : DeviceRoster) (target signer : String) :
    Except DeviceLinkError Unit := do
  roster.verifiesRemovalExtension c base target signer
  let some last := roster.getLast? | throw invalid
  if last.device ∉ (← base.devices c) then throw invalid

variable {c} {roster base admission A D : DeviceRoster} {devices : List DeviceDescriptor}
  {target : String} {device : DeviceDescriptor}

/-! ## The queries along a chain -/

/-- When a roster extends another one. -/
theorem extends_eq_true : roster.extends c base = .ok true ↔
    (∃ devices, roster.devices c = .ok devices) ∧ base <+: roster := by
  rw [«extends», ← List.isPrefixOf_iff_prefix]
  cases roster.devices c with
  | error e => simp [bind, Except.bind]
  | ok devices => simp [bind, Except.bind, pure, Except.pure]

/-- A roster extends a part of it from its start on. -/
theorem extends_append (h : (A ++ D).devices c = .ok devices) :
    (A ++ D : DeviceRoster).extends c A = .ok true :=
  extends_eq_true.2 ⟨⟨devices, h⟩, List.prefix_append A D⟩

/-- What was removed after a part of a roster. -/
theorem revokedSince_append (h : (A ++ D).devices c = .ok devices) :
    (A ++ D : DeviceRoster).revokedSince c A target = .ok (D.any (removes target)) := by
  rw [revokedSince, extends_append h, List.drop_left]
  rfl

/-- Who is still authorized after a part of a roster. -/
theorem authorizesAdmitted_append (h : (A ++ D).devices c = .ok devices) :
    (A ++ D : DeviceRoster).authorizesAdmitted c A device =
      .ok (!D.any (removes device.deviceId) && device ∈ devices) := by
  rw [authorizesAdmitted, revokedSince_append h, h]
  cases D.any (removes device.deviceId) with
  | true => rfl
  | false => simp [bind, Except.bind, pure, Except.pure]

/-- Whether anything was removed after a part of a roster. -/
theorem hasRemovalSince_append (h : (A ++ D).devices c = .ok devices) :
    (A ++ D : DeviceRoster).hasRemovalSince c A = .ok (D.any (·.version = removalVersion)) := by
  rw [hasRemovalSince, extends_append h, List.drop_left]
  rfl

/-- The first removal after a part of a roster. -/
theorem firstRemovalSince_append (h : (A ++ D).devices c = .ok devices) :
    (A ++ D : DeviceRoster).firstRemovalSince c A target =
      .ok ((D.findIdx? (removes target)).map fun i => A ++ D.take (i + 1)) := by
  have hgoal : (A ++ D : DeviceRoster).firstRemovalSince c A target =
      .ok ((D.findIdx? (removes target)).map fun i => (A ++ D).take (A.length + i + 1)) := by
    rw [firstRemovalSince, extends_append h, List.drop_left]
    rfl
  rw [hgoal]
  refine congrArg (fun f => Except.ok (Option.map f _)) (funext fun i => ?_)
  rw [Nat.add_assoc, List.take_length_add_append]

/-- A part of an accepted roster from its start on is accepted. -/
theorem devices_of_prefix (hne : base ≠ []) (h : roster.devices c = .ok devices)
    (hbase : base <+: roster) : ∃ before, base.devices c = .ok before := by
  obtain ⟨rest, rfl⟩ := hbase
  obtain ⟨before, hbefore, -⟩ := verifyDevices_append hne h
  exact ⟨before, hbefore⟩

/-- A device that is active stays so as long as it is not removed. -/
theorem mem_of_verifyLoop {entries : List Authorization} {index : Nat}
    {before : List DeviceDescriptor} (h : verifyLoop c entries index D before = .ok devices)
    (hkeep : D.any (removes device.deviceId) = false) (hmem : device ∈ before) :
    device ∈ devices := by
  induction D generalizing index before with
  | nil => rwa [← Except.ok.inj h]
  | cons entry D ih =>
    rw [verifyLoop] at h
    rw [List.any_cons, Bool.or_eq_false_iff] at hkeep
    split at h
    · cases h
    next next hentry =>
      refine ih h hkeep.2 ?_
      obtain ⟨hchange, -, -⟩ := verifyEntry_eq_ok hentry
      obtain ⟨rfl, -, -⟩ := changeDevices_eq_ok hchange
      rw [change]
      split
      · next hv =>
        refine List.mem_filter.2 ⟨hmem, decide_eq_true fun hid => ?_⟩
        have := hkeep.1
        rw [removes, ← hid, hv] at this
        simp at this
      · exact List.mem_append_left _ hmem

/-- A device that was admitted is authorized as long as it is not removed. -/
theorem authorizesAdmitted_of_mem {before : List DeviceDescriptor} (hA : A.devices c = .ok before)
    (hmem : device ∈ before) (h : (A ++ D).devices c = .ok devices) :
    (A ++ D : DeviceRoster).authorizesAdmitted c A device =
      .ok (!D.any (removes device.deviceId)) := by
  rw [authorizesAdmitted_append h]
  cases hkeep : D.any (removes device.deviceId) with
  | true => rfl
  | false =>
    have hne : A ≠ [] := by
      rintro rfl
      cases hA
    obtain ⟨before', hbefore, hloop⟩ := verifyDevices_append hne h
    obtain rfl := Except.ok.inj (hbefore.symm.trans hA)
    have := mem_of_verifyLoop hloop hkeep hmem
    simp [this]

/-! ## The first removal -/

/-- The roster that ends with the first removal of the target between two rosters: it is accepted
    and lies between them, its last entry is the removal and no entry since the admission before
    that is one, and whoever knows its author accepts it as a removal. -/
structure FirstRemoval (c : RosterCrypto Key Signature) (admission roster : DeviceRoster)
    (target : String) (removal : DeviceRoster) : Prop where
  accepted : ∃ devices, removal.devices c = .ok devices
  since : removal.extends c admission = .ok true
  within : roster.extends c removal = .ok true
  last : ∃ entry, removal.getLast? = some entry ∧ removes target entry
  first : ∀ entry ∈ (removal.drop admission.length).dropLast, ¬ removes target entry
  author : ∃ signer, removal.removalAuthor c target = .ok (some signer) ∧
    removal.verifiesRemovalExtension c admission target signer = .ok ()

/-- The first one that is found. -/
theorem firstRemoval_of_findIdx? (h : (A ++ D).devices c = .ok devices) {i : Nat}
    (hi : D.findIdx? (removes target) = some i) :
    FirstRemoval c A (A ++ D) target (A ++ D.take (i + 1)) := by
  obtain ⟨hlt, hrem, hfirst⟩ := List.findIdx?_eq_some_iff_getElem.1 hi
  have htake : D.take (i + 1) = D.take i ++ [D[i]] := by
    rw [List.take_add_one, List.getElem?_eq_getElem hlt, Option.toList_some]
  have hpre : A ++ D.take (i + 1) <+: A ++ D :=
    (List.prefix_append_right_inj A).2 (List.take_prefix _ D)
  have hne : A ++ D.take (i + 1) ≠ [] := by
    rw [htake, ← List.append_assoc]
    exact List.concat_ne_nil _ _
  obtain ⟨before, hbefore⟩ := devices_of_prefix hne h hpre
  have hlast : (A ++ D.take (i + 1)).getLast? = some D[i] := by
    rw [htake, ← List.append_assoc, List.getLast?_concat]
  have hauthor : removalAuthor c (A ++ D.take (i + 1)) target = .ok (some D[i].signer) := by
    rw [removalAuthor, hbefore, htake, ← List.append_assoc, List.reverse_append,
      List.reverse_singleton, List.singleton_append, List.find?_cons_of_pos hrem]
    rfl
  refine ⟨⟨before, hbefore⟩, extends_append hbefore, extends_eq_true.2 ⟨⟨devices, h⟩, hpre⟩,
    ⟨D[i], hlast, hrem⟩, ?_, D[i].signer, hauthor, ?_⟩
  · rw [List.drop_left, htake, List.dropLast_concat]
    intro entry hentry
    obtain ⟨j, hj, rfl⟩ := List.mem_iff_getElem.1 hentry
    rw [List.length_take] at hj
    rw [List.getElem_take]
    exact hfirst j (by omega)
  · obtain ⟨hid, hv⟩ : D[i].device.deviceId = target ∧ D[i].version = removalVersion := by
      simpa [removes] using hrem
    rw [verifiesRemovalExtension, hlast]
    simp [extends_append hbefore, bind, Except.bind, hid, hv, pure, Except.pure]

/-- Along every chain of rosters that extend each other, what was revoked since an admission is
    what was revoked up to a roster in between or after it; who was revoked stays so, also if added
    again; and there is a first removal if and only if the target was revoked. -/
theorem revocation_monotone {A B C : DeviceRoster} (hB : B.extends c A = .ok true)
    (hC : C.extends c B = .ok true) (target : String) (device : DeviceDescriptor) :
    (∃ x y, B.revokedSince c A target = .ok x ∧ C.revokedSince c B target = .ok y ∧
      C.revokedSince c A target = .ok (x || y)) ∧
    (B.revokedSince c A device.deviceId = .ok true →
      B.authorizesAdmitted c A device = .ok false ∧
        C.authorizesAdmitted c A device = .ok false) ∧
    (∀ devices, A.devices c = .ok devices → device ∈ devices →
      (B.authorizesAdmitted c A device = .ok false ↔
        B.revokedSince c A device.deviceId = .ok true)) ∧
    (B.revokedSince c A target = .ok true ↔
      ∃ removal, B.firstRemovalSince c A target = .ok (some removal)) ∧
    ∀ removal, B.firstRemovalSince c A target = .ok (some removal) →
      FirstRemoval c A B target removal := by
  obtain ⟨⟨devicesB, hB⟩, D, rfl⟩ := extends_eq_true.1 hB
  obtain ⟨⟨devicesC, hC⟩, E, rfl⟩ := extends_eq_true.1 hC
  have hC' : (A ++ (D ++ E)).devices c = .ok devicesC := by rwa [← List.append_assoc]
  refine ⟨⟨_, _, revokedSince_append hB, revokedSince_append hC, ?_⟩, ?_, ?_, ?_, ?_⟩
  · rw [List.append_assoc, revokedSince_append hC', List.any_append]
  · intro h
    rw [revokedSince_append hB] at h
    have h := Except.ok.inj h
    rw [List.append_assoc, authorizesAdmitted_append hB, authorizesAdmitted_append hC',
      List.any_append, h]
    exact ⟨rfl, rfl⟩
  · intro devices hA hmem
    rw [authorizesAdmitted_of_mem hA hmem hB, revokedSince_append hB]
    simp
  · rw [revokedSince_append hB, firstRemovalSince_append hB]
    rw [Except.ok.injEq, ← List.findIdx?_isSome, Option.isSome_iff_exists]
    constructor
    · rintro ⟨i, hi⟩
      exact ⟨_, by rw [hi, Option.map_some]⟩
    · rintro ⟨removal, h⟩
      obtain ⟨i, hi, -⟩ := Option.map_eq_some_iff.1 (Except.ok.inj h)
      exact ⟨i, hi⟩
  · intro removal h
    rw [firstRemovalSince_append hB, Except.ok.injEq] at h
    obtain ⟨i, hi, rfl⟩ := Option.map_eq_some_iff.1 h
    exact firstRemoval_of_findIdx? hB hi

/-! ### A device that comes and goes -/

/-- The first device adds the second one, and goes on with some removals and additions of it. -/
def comeAndGo (changes : List Nat) : DeviceRoster :=
  let e₁ := plainEntry rosterVersion [] 1 (plainDevice 1)
  let e₂ := plainEntry rosterVersion [e₁] 1 (plainDevice 2)
  changes.foldl (fun roster version =>
    roster ++ [plainEntry version roster 1 (plainDevice 2)]) [e₁, e₂]

/-- The second device is removed, added again and removed again: it stays revoked. -/
theorem revocation_monotone_comeAndGo :
    (comeAndGo [2, 1]).devices plainCrypto = .ok [plainDevice 1, plainDevice 2] ∧
    (comeAndGo [2, 1]).authorizesAdmitted plainCrypto (comeAndGo []) (plainDevice 2) =
      .ok false ∧
    (comeAndGo [2, 1, 2]).authorizesAdmitted plainCrypto (comeAndGo []) (plainDevice 2) =
      .ok false ∧
    ∃ removal, FirstRemoval plainCrypto (comeAndGo []) (comeAndGo [2, 1])
      (plainDevice 2).deviceId removal := by
  have hB : (comeAndGo [2, 1]).extends plainCrypto (comeAndGo []) = .ok true := by
    decide +kernel
  have hC : (comeAndGo [2, 1, 2]).extends plainCrypto (comeAndGo [2, 1]) = .ok true := by
    decide +kernel
  obtain ⟨-, hrevoked, -, hfirst, hremoval⟩ :=
    revocation_monotone hB hC (plainDevice 2).deviceId (plainDevice 2)
  have h : (comeAndGo [2, 1]).revokedSince plainCrypto (comeAndGo [])
      (plainDevice 2).deviceId = .ok true := by
    decide +kernel
  obtain ⟨removal, hr⟩ := hfirst.1 h
  exact ⟨by decide +kernel, (hrevoked h).1, (hrevoked h).2, removal, hremoval removal hr⟩

end DeviceRoster

end Mosh.DeviceLink
