import Setu.Runtime.Executor
import Setu.Types.Subnet

/-!
# Registration of subnets and their tokens

Library `Validator`. A registration mints the initial supply of the subnet's token. A coin belongs
to the subnet that its coin type resolves to, so tokens stay apart only as far as the resolver
keeps registered names apart. Sources `setu-validator/src/infra_executor.rs`,
`crates/setu-runtime/src/executor.rs` and `storage/src/state/provider.rs`.
-/

namespace Setu.Validator

open Setu.Base Setu.Types Setu.Runtime

variable {D : Type} (H : Blake3 D)

/-- `provider.rs:431-438`. -/
def resolveSubnetId (text : String) : SubnetId :=
  match SubnetId.parsePublicOrHex H text with
  | .ok subnet => subnet
  | .error _ => SubnetId.fromStrId H text

/-- A coin as task preparation sees it, `provider.rs:42-52`. -/
structure CoinInfo where
  objectId : ObjectId
  owner : String
  balance : UInt64
  version : UInt64
  coinType : String
  deriving DecidableEq

/-- What the lookup of coins reads of a state snapshot: the coins that the index lists for an
owner with their types, and the objects of each subnet. -/
structure CoinSnapshot where
  coinObjects : String → List (ObjectId × String)
  subnet : SubnetId → Option (ObjectId → Option Bytes)

variable (snapshot : CoinSnapshot)

/-- The coin stored under an identifier in a subnet. -/
def CoinSnapshot.coinAt (subnet : SubnetId) (id : ObjectId) : Option CoinInfo := do
  let objects ← snapshot.subnet subnet
  let state ← CoinState.fromBytes (← objects id)
  some ⟨id, state.owner, state.balance, state.version, state.coinType⟩

/-- `provider.rs:346-355` and `types/src/coin.rs:290-302`. -/
def coinObjectId (addrHex : String) : ObjectId :=
  hashedId H (strBytes "SETU_COIN_ID:" ++ strBytes addrHex ++ strBytes ":" ++ strBytes "ROOT")

/-- `provider.rs:442-507`. -/
def getCoinsForAddress (address : String) : List CoinInfo :=
  let addrHex := (Address.normalize H address).toText
  match snapshot.coinObjects addrHex with
  | [] => (snapshot.coinAt SubnetId.root (coinObjectId H addrHex)).toList
  | coinObjects =>
    coinObjects.filterMap fun entry ↦
      (snapshot.coinAt (resolveSubnetId H entry.2) entry.1).filter (·.owner == addrHex)

/-- `provider.rs:188-193`. -/
def getCoinsForAddressInSubnet (address : String) (subnet : SubnetId) : List CoinInfo :=
  (getCoinsForAddress H snapshot address).filter (resolveSubnetId H ·.coinType == subnet)

/-- The fields of a registration that its execution reads, `types/src/registration.rs:270-301`. -/
structure SubnetRegistration where
  subnetId : String
  name : String
  owner : String
  tokenSymbol : Option String
  initialTokenSupply : Option UInt64

/-- Metadata of a subnet, `executor.rs:656-662`. -/
structure SubnetMeta where
  subnetId : String
  name : String
  owner : String
  tokenSymbol : Option String
  createdAt : UInt64

/-- `executor.rs:938-976`. -/
def mintTokens (rt : RuntimeExecutor) (ctx : ExecutionContext) (recipient : Address)
    (subnetId : String) (amount : UInt64) : ExecutionOutput × RuntimeExecutor :=
  if amount = 0 then (⟨"No tokens to mint (amount=0)", [], [], []⟩, rt)
  else
    let coinId := coinIdFromTx H ctx.txHash rt.outputCounter
    let coin := createCoinWithId coinId recipient amount subnetId ctx.timestamp
    (⟨s!"Minted {amount} tokens to {recipient.toText} in subnet {subnetId}",
        [⟨.create, coinId, none, some coin.toCoinStateBytes⟩], [coinId], []⟩,
      ⟨rt.state.insert coinId coin, rt.outputCounter + 1⟩)

/-- `execute_subnet_register` of the runtime, `executor.rs:642-704`; `json` serializes the
metadata. -/
def runtimeSubnetRegister (json : SubnetMeta → Bytes) (rt : RuntimeExecutor)
    (ctx : ExecutionContext) (registration : SubnetRegistration) (owner : Address) :
    ExecutionOutput × RuntimeExecutor :=
  let subnetKey := "subnet:" ++ registration.subnetId
  let subnetObjectId := hashedId H (strBytes "SETU_SUBNET_META:" ++ strBytes subnetKey)
  let subnetData := json ⟨registration.subnetId, registration.name, owner.toText,
    registration.tokenSymbol, ctx.timestamp⟩
  let metaChange : Runtime.StateChange := ⟨.create, subnetObjectId, none, some subnetData⟩
  let message := s!"Subnet '{registration.name}' registered with owner {owner.toText}" ++
    registration.tokenSymbol.elim "" (", token: " ++ ·)
  match registration.initialTokenSupply with
  | none => (⟨message, [metaChange], [], []⟩, rt)
  | some supply =>
    -- a supply of zero mints nothing
    let (minted, rt) := mintTokens H rt ctx owner registration.subnetId supply
    (⟨message, metaChange :: minted.stateChanges, minted.createdObjects, []⟩, rt)

/-- `infra_executor.rs:66-167`: the result that the event carries. The
coins it creates go to the new subnet, its metadata to the root subnet. -/
def executeSubnetRegister (json : SubnetMeta → Bytes) (hexError : String → String)
    (timestamp : UInt64) (registration : SubnetRegistration) : Except String ExecutionResult := do
  let txHash := H.asBytes (H.hash (strBytes "SETU_TX_HASH:VALIDATOR:SUBNET:" ++
    strBytes registration.subnetId ++ u64Le timestamp))
  let owner ← okOr (Address.fromHex registration.owner)
    ("Invalid owner address '" ++ registration.owner ++ "': " ++ hexError registration.owner)
  let (output, _) := runtimeSubnetRegister H json ⟨∅, 0⟩ ⟨timestamp, txHash⟩ registration owner
  let newSubnetTarget := resolveSubnetId H registration.subnetId
  pure
    { success := true
      message := some output.message
      stateChanges := output.stateChanges.map fun sc ↦
        { key := objectKey sc.objectId
          oldValue := sc.oldState
          newValue := sc.newState
          targetSubnet :=
            if output.createdObjects.contains sc.objectId then some newSubnetTarget else none } }

/-- The last 31 bytes of the digest of a name; the first byte of an identifier is its type. -/
def nameDigest (name : String) : Bytes :=
  (hashedId H (strBytes "SETU_SUBNET:" ++ strBytes name)).asBytes.drop 1

/-- BLAKE3 gives no two of the names the same digest. -/
def NamesCollisionFree (names : List String) : Prop :=
  ∀ a ∈ names, ∀ b ∈ names, nameDigest H a = nameDigest H b → a = b

/-- Registered names do not alias: they resolve to identifiers of their own, none of them
reserved, and what a registration mints is a coin of no reserved and no other subnet. The changes
of the mint follow that of the metadata. -/
structure NamespacesSeparate (names : List String) : Prop where
  distinct : ∀ a ∈ names, ∀ b ∈ names, a ≠ b → resolveSubnetId H a ≠ resolveSubnetId H b
  unreserved : ∀ a ∈ names, (resolveSubnetId H a).isSystem = false
  supply : ∀ (json : SubnetMeta → Bytes) (hexError : String → String) (timestamp : UInt64)
    (registration : SubnetRegistration) (result : ExecutionResult),
    registration.subnetId ∈ names →
    executeSubnetRegister H json hexError timestamp registration = .ok result →
    ∀ change ∈ result.stateChanges.drop 1, ∃ bytes state,
      change.newValue = some bytes ∧ CoinState.fromBytes bytes = some state ∧
      ∀ subnet, (subnet.isSystem ∨
          ∃ b ∈ names, b ≠ registration.subnetId ∧ subnet = resolveSubnetId H b) →
        change.targetSubnet ≠ some subnet ∧
        ∀ snapshot address, ∀ coin ∈ getCoinsForAddressInSubnet H snapshot address subnet,
          coin.coinType ≠ state.coinType

/-- No name is the hexadecimal text of a reserved identifier, or of the digest of another
registered name. -/
def NoSpelledIds (names : List String) : Prop :=
  ∀ a ∈ names, ∀ id, SubnetId.Spells a id → id.isSystem = false ∧
    ∀ b ∈ names, (∀ id', ¬ SubnetId.Spells b id') → id ≠ SubnetId.fromStrId H b

variable {H}

theorem resolveSubnetId_of_spells {name : String} {id : SubnetId} (h : SubnetId.Accepted name)
    (hs : SubnetId.Spells name id) : resolveSubnetId H name = id := by
  rw [resolveSubnetId, SubnetId.parsePublicOrHex_of_spells h hs]

theorem resolveSubnetId_of_not_spells {name : String} (h : SubnetId.Accepted name)
    (hs : ∀ id, ¬ SubnetId.Spells name id) :
    resolveSubnetId H name = SubnetId.fromStrId H name := by
  rw [resolveSubnetId, SubnetId.parsePublicOrHex_of_not_spells h hs]

variable {names : List String}

private theorem eq_of_fromStrId_eq (hf : NamesCollisionFree H names) {a b : String}
    (ha : a ∈ names) (hb : b ∈ names) (h : SubnetId.fromStrId H a = SubnetId.fromStrId H b)
    : a = b := by
  apply hf a ha b hb
  -- the identifiers differ from the digests in their first byte only
  have ht (name : String) : nameDigest H name = (SubnetId.fromStrId H name).asBytes.drop 1 := by
    rw [nameDigest, SubnetId.fromStrId, SubnetId.asBytes, Vector.toList_set]
    exact (List.drop_set_of_lt Nat.zero_lt_one).symm
  rw [ht, ht, h]

private theorem resolveSubnetId_of_listed {snapshot : CoinSnapshot} {address : String}
    {subnet : SubnetId} {coin : CoinInfo}
    (h : coin ∈ getCoinsForAddressInSubnet H snapshot address subnet) :
    resolveSubnetId H coin.coinType = subnet :=
  beq_iff_eq.mp (List.mem_filter.mp h).2

private theorem minted_of_executeSubnetRegister {json : SubnetMeta → Bytes}
    {hexError : String → String} {timestamp : UInt64} {registration : SubnetRegistration}
    {result : ExecutionResult}
    (h : executeSubnetRegister H json hexError timestamp registration = .ok result)
    {change : Types.StateChange} (hc : change ∈ result.stateChanges.drop 1) :
    change.targetSubnet = some (resolveSubnetId H registration.subnetId) ∧
      ∃ bytes state, change.newValue = some bytes ∧ CoinState.fromBytes bytes = some state ∧
        state.coinType = registration.subnetId := by
  simp only [executeSubnetRegister, bind_eq_ok, pure_eq_ok] at h
  obtain ⟨owner, -, rfl⟩ := h
  unfold runtimeSubnetRegister at hc
  cases hs : registration.initialTokenSupply with
  | none => simp [hs] at hc
  | some supply =>
    by_cases hz : supply = 0
    · simp [hs, mintTokens, hz] at hc
    · simp only [hs, mintTokens, hz, if_false, List.map_cons, List.map_nil,
        List.drop_succ_cons, List.drop_zero, List.mem_singleton] at hc
      subst hc
      exact ⟨by simp, _, _, rfl, CoinState.fromBytes_toCoinStateBytes _, rfl⟩

private theorem separate_of_resolve
    (hd : ∀ a ∈ names, ∀ b ∈ names, a ≠ b → resolveSubnetId H a ≠ resolveSubnetId H b)
    (hu : ∀ a ∈ names, (resolveSubnetId H a).isSystem = false) :
    NamespacesSeparate H names where
  distinct := hd
  unreserved := hu
  supply := by
    intro json hexError timestamp registration result hn hr change hc
    obtain ⟨ht, bytes, state, hby, hst, hty⟩ := minted_of_executeSubnetRegister hr hc
    refine ⟨bytes, state, hby, hst, fun subnet hsu ↦ ?_⟩
    have hne : resolveSubnetId H registration.subnetId ≠ subnet := by
      rintro rfl
      rcases hsu with hs | ⟨b, hb, hbn, heq⟩
      · rw [hu _ hn] at hs
        cases hs
      · exact hd _ hn b hb (Ne.symm hbn) heq
    refine ⟨by rw [ht]; simpa using hne, fun snapshot address coin hco heq ↦ hne ?_⟩
    rw [← hty, ← heq]
    exact resolveSubnetId_of_listed hco

private theorem distinct_of_noSpelledIds (hac : ∀ a ∈ names, SubnetId.Accepted a)
    (hf : NamesCollisionFree H names) (hn : NoSpelledIds H names) {a b : String}
    (ha : a ∈ names) (hb : b ∈ names) (hne : a ≠ b)
    : resolveSubnetId H a ≠ resolveSubnetId H b := by
  by_cases hsA : ∃ id, SubnetId.Spells a id
  · obtain ⟨idA, hiA⟩ := hsA
    rw [resolveSubnetId_of_spells (hac a ha) hiA]
    by_cases hs : ∃ id, SubnetId.Spells b id
    · obtain ⟨idB, hi⟩ := hs
      rw [resolveSubnetId_of_spells (hac b hb) hi]
      rintro rfl
      exact hne (hiA.trans hi.symm)
    · rw [resolveSubnetId_of_not_spells (hac b hb) (not_exists.mp hs)]
      exact (hn a ha idA hiA).2 b hb (not_exists.mp hs)
  · rw [resolveSubnetId_of_not_spells (hac a ha) (not_exists.mp hsA)]
    by_cases hs : ∃ id, SubnetId.Spells b id
    · obtain ⟨idB, hi⟩ := hs
      rw [resolveSubnetId_of_spells (hac b hb) hi]
      exact ((hn b hb idB hi).2 a ha (not_exists.mp hsA)).symm
    · rw [resolveSubnetId_of_not_spells (hac b hb) (not_exists.mp hs)]
      exact fun heq ↦ hne (eq_of_fromStrId_eq hf ha hb heq)

private theorem unreserved_of_noSpelledIds (hac : ∀ a ∈ names, SubnetId.Accepted a)
    (hn : NoSpelledIds H names) {a : String} (ha : a ∈ names)
    : (resolveSubnetId H a).isSystem = false := by
  by_cases hs : ∃ id, SubnetId.Spells a id
  · obtain ⟨id, hid⟩ := hs
    rw [resolveSubnetId_of_spells (hac a ha) hid]
    exact (hn a ha id hid).1
  · rw [resolveSubnetId_of_not_spells (hac a ha) (not_exists.mp hs)]
    exact SubnetId.isSystem_fromStrId a

/-- Names that the grammar accepts and BLAKE3 keeps apart are kept apart by the resolver exactly
if none of them is the text of a reserved identifier or of another name's digest. -/
theorem namespacesSeparate_iff {names : List String}
    (haccepted : ∀ a ∈ names, SubnetId.Accepted a) (hfree : NamesCollisionFree H names) :
    NamespacesSeparate H names ↔ NoSpelledIds H names := by
  constructor
  · intro hs a ha id hid
    have hr := resolveSubnetId_of_spells (H := H) (haccepted a ha) hid
    refine ⟨hr ▸ hs.unreserved a ha, fun b hb hsB heq ↦ ?_⟩
    have hne : a ≠ b := by
      rintro rfl
      exact hsB id hid
    apply hs.distinct a ha b hb hne
    rw [hr, resolveSubnetId_of_not_spells (haccepted b hb) hsB, heq]
  · intro hn
    exact separate_of_resolve
      (fun a ha b hb hne ↦ distinct_of_noSpelledIds haccepted hfree hn ha hb hne)
      (fun a ha ↦ unreserved_of_noSpelledIds haccepted hn ha)

/-- A hash that shows the end of its preimage first. -/
private def reverseHash : Blake3 Bytes := ⟨List.reverse, id, []⟩

theorem namespacesSeparate_two_names :
    NamespacesSeparate reverseHash ["gaming-subnet", "defi"] ↔
      NoSpelledIds reverseHash ["gaming-subnet", "defi"] :=
  namespacesSeparate_iff (by decide +kernel) (by
    unfold NamesCollisionFree
    decide +kernel)

/-- The text of the root subnet's identifier. -/
private def zeros : String := hexEncode SubnetId.root.asBytes

private def zerosRegistration : SubnetRegistration where
  subnetId := zeros
  name := "zeros"
  owner := Address.zero.toText
  tokenSymbol := none
  initialTokenSupply := some 1000000

/-- The owner's index entry and the minted coin, in the root subnet. -/
private def zerosSnapshot : CoinSnapshot where
  coinObjects _ := [(⟨Vector.replicate 32 7⟩, zeros)]
  subnet id := if id = SubnetId.root then some fun _ ↦
    some (createCoinWithId ⟨Vector.replicate 32 7⟩ Address.zero 1000000 zeros 0).toCoinStateBytes
    else none

/-- The grammar accepts 64 zeros as a name, and the supply minted for it goes to the root subnet
and is listed among the root subnet's coins. -/
theorem zeros_mints_root_coin : SubnetId.Accepted zeros ∧
    resolveSubnetId Blake3.ideal zeros = SubnetId.root ∧
    (∃ result, executeSubnetRegister Blake3.ideal (fun _ ↦ []) id 0 zerosRegistration =
      .ok result ∧ (result.stateChanges.drop 1).map (·.targetSubnet) = [some SubnetId.root]) ∧
    (getCoinsForAddressInSubnet Blake3.ideal zerosSnapshot Address.zero.toText
      SubnetId.root).map (·.balance) = [1000000] ∧
    ¬ NamespacesSeparate Blake3.ideal [zeros] := by
  have ha : SubnetId.Accepted zeros := by decide +kernel
  have hr : resolveSubnetId Blake3.ideal zeros = SubnetId.root := resolveSubnetId_of_spells ha rfl
  refine ⟨ha, hr, ⟨_, eq_ok_get (by decide +kernel), by decide +kernel⟩,
    by decide +kernel, fun hs ↦ ?_⟩
  have hre := hs.unreserved zeros List.mem_cons_self
  rw [hr] at hre
  cases hre

end Setu.Validator
