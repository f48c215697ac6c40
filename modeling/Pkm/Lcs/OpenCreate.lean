import Pkm.Lcs.Agreement
/-!
# When create and open agree

The create looks for the key without the caller's scopes, so it misses the keys of
private hives, or finds those of the global hive of the same name. The flag by which an
open stops at a link means something else to a create, which follows the link. Whether a call runs
into either can be seen from the hives and the links on the way of its path.
-/

namespace Pkm.Lcs

open Bytes List Outcome WalkPoint

/-- A token with more credentials than are allowed is refused by both calls. -/
theorem agrees_of_refused {registry : Registry} {token : RegistryToken} {e : LinuxErrno}
    (h : privateCredentialsAcquireForToken registry token = .error e) (flags : BitVec 32)
    (inputs : CreateInputs) (path : KeyPath) (desiredAccess : BitVec 32) :
    Agrees registry token flags inputs path desiredAccess := by
  constructor
  · intro fd hopen
    obtain ⟨_, -, hopen⟩ := of_bind hopen
    rw [h] at hopen
    cases hopen
  · intro fd entry hcreate
    obtain ⟨_, -, hcreate⟩ := of_bind hcreate
    obtain ⟨_, -, hcreate⟩ := of_bind hcreate
    rw [h] at hcreate
    cases hcreate

/-- **Create and open agree on what a path names**, in every call whose token is refused or whose
path is read alike by both: the hives that the path and its links route to are global ones, and
with the flag it meets no link at its end. The rest of the calls run into one of the two
differences. -/
theorem create_open_agreement {registry : Registry} {token : RegistryToken}
    (hkeyAccess : ∀ sd access, token.keyAccess sd access ≠ .error .enoent)
    {desiredAccess flags : BitVec 32} (hpreflight : openPreflight desiredAccess flags = .ok ())
    {path : KeyPath} (hsame : privateCredentialsAcquireForToken registry token = .ok () →
      SameReading registry token flags path) (inputs : CreateInputs) :
    Agrees registry token flags inputs path desiredAccess := by
  cases hcredentials : privateCredentialsAcquireForToken registry token with
  | error e => exact agrees_of_refused hcredentials flags inputs path desiredAccess
  | ok _ => exact agrees_of_sameReading hkeyAccess hpreflight (hsame hcredentials) inputs

/-! ## Hives of one name -/

namespace Probe

def guid (n : ℕ) : Guid := ⟨List.replicate 16 (BitVec.ofNat 8 n), length_filled n⟩

/-- A caller that is granted what it asks for. -/
def token (scopes : List Guid) : RegistryToken where
  scopeGuids := scopes
  privateLayers := []
  privateLayersTcbAuthorized := false
  userSidComponent := .ok ['S']
  tcbOrAdmin := false
  keyAccess _ desiredAccess := .ok desiredAccess
  createdContainerSd := .ok

def inputs : CreateInputs := ⟨1, [0], .ok (guid 3)⟩

/-- A global hive and one of a scope that are called alike, and two more global hives. -/
def registry : Registry where
  limits := .default
  inRange := LcsLimits.inRange_default
  slots := [⟨1, .active, [⟨"Machine".toList, guid 1, .global⟩,
    ⟨"Machine".toList, guid 2, .privateTo (guid 9)⟩, ⟨"Users".toList, guid 3, .global⟩,
    ⟨"Public".toList, guid 4, .global⟩]⟩]
  numbered := rfl
  layers := []
  nextSequence := 1
  sources := {
    -- a key for every name; below the users it is a link
    lookup := fun _ parent _ =>
      let child := if parent = guid 1 then guid 11 else if parent = guid 2 then guid 12
        else if parent = guid 3 then guid 13 else guid 14
      ⟨[⟨baseLayerName, 0, .guid child⟩], [⟨child, [0], false, child == guid 13⟩]⟩
    readKey := fun _ _ => ⟨['K'], [0], false, false⟩
    queryValues := fun _ _ _ => ⟨[⟨[], baseLayerName, 0, 6,
      "Public\\Data".toList.map fun c => BitVec.ofNat 8 c.toNat⟩], []⟩
    createEntry := fun _ _ _ => .ok
    sdWellFormed := fun _ => true }

end Probe

open Probe in
/-- The token that reaches a private `Machine` opens and creates below `Users` alike, through a
link to a global hive. -/
theorem users_home_agrees :
    Agrees registry (token [guid 9]) 0 inputs (.absolute "Users\\Home".toList)
      keyCreateSubKey := by
  refine create_open_agreement (fun _ _ h => by cases h) (by decide) (fun _ => ?_) _
  refine ⟨fun _ _ _ p hp => ?_, fun h => absurd h (by decide), fun h => absurd h (by decide),
    fun _ _ h => by cases h⟩
  let w := fullWalker registry (token [guid 9])
  have hstart : (KeyPath.absolute "Users\\Home".toList).start w =
      .ok (.hive ⟨1, guid 3⟩ ["Users".toList, "Home".toList]) := by decide +kernel
  have hlink : (hive ⟨1, guid 3⟩ ["Users".toList, "Home".toList]).stretch w false =
      .ok (.link (guid 13) []) := by decide +kernel
  have htarget : w.target 1 (guid 13) =
      .ok (⟨1, guid 4⟩, ["Public".toList, "Data".toList]) := by decide +kernel
  have harrived : (hive ⟨1, guid 4⟩ ["Public".toList, "Data".toList]).stretch w false =
      .ok (.arrived [guid 4, guid 14] ⟨guid 14, [0], false, false⟩) := by decide +kernel
  have hglobal : ∀ n ∈ [3, 4], registry.GlobalRoute ⟨1, guid n⟩ := by
    unfold HiveTable.GlobalRoute
    decide +kernel
  cases hstart.symm.trans hp
  change Along w _ (15 + 1) _
  refine ⟨hglobal 3 (by decide), ?_⟩
  rintro q ⟨hstretch, hfound⟩
  cases hlink.symm.trans hstretch
  cases htarget.symm.trans hfound
  refine ⟨hglobal 4 (by decide), ?_⟩
  rintro q ⟨hstretch, -⟩
  cases harrived.symm.trans hstretch

open Probe in
/-- With the scope an open reaches the key in the private hive, and a create reports the key in
the global one as the one that was there. -/
theorem create_opens_global_shadow :
    let path := KeyPath.absolute "Machine\\App".toList
    let names := ["Machine".toList, "App".toList]
    regOpenKey registry (token [guid 9]) path keyCreateSubKey 0 =
        .ok ⟨1, guid 12, keyCreateSubKey, names, [guid 2, guid 12], false⟩ ∧
      regCreateKey registry (token [guid 9]) inputs path keyCreateSubKey 0 = .ok (.openedExisting
        ⟨1, guid 11, keyCreateSubKey, names, [guid 1, guid 11], false⟩) ∧
      ¬ Agrees registry (token [guid 9]) 0 inputs path keyCreateSubKey := by
  intro path names
  refine (fun hopen hcreate => ⟨hopen, hcreate, fun hagrees => ?_⟩) (by decide +kernel)
    (by decide +kernel)
  obtain ⟨fd, hfd, -, hsame⟩ := hagrees.existing _ hopen
  obtain rfl := CreateOutcome.openedExisting.inj (Except.ok.inj (hcreate.symm.trans hfd))
  cases hsame

end Pkm.Lcs
