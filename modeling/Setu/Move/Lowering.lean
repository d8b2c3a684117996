import Setu.Move.Engine
import Setu.Move.PtbContext

/-!
# Lowering the commands of a transaction block

Library `Move`. Each command of a block becomes calls of the VM in the block's session. A
lowering is split where the source has its steps: what is run in the VM, and what is then
written back to the slots and to the object runtime. Source
`crates/setu-move-vm/src/engine.rs:1269-2521`.
-/

namespace Setu.Move

open Setu.Base Setu.Types Setu.Runtime

/-- What the commands of a block share, `engine.rs:983-1037`. -/
structure PtbState (S : Type) where
  session : Session S
  pctx : PtbContext
  txCtxBytes : Bytes
  lastReturnValues : List Bytes
  explicitModuleChanges : List ModuleChange
  pendingInputMutations : List (ObjectId × StructTag × Bytes)

/-- A charge on the meter of the block's session. -/
def PtbState.charge {S : Type} (st : PtbState S) (cost : UInt64) :
    Except RuntimeError (PtbState S) := do
  let session ← st.session.charge cost
  pure { st with session := session }

/-- A charge changes the meter only. -/
theorem PtbState.charge_eq_ok {S : Type} {st st' : PtbState S} {cost : UInt64}
    (h : st.charge cost = .ok st') :
    ∃ session, st' = { st with session := session } ∧ session.data = st.session.data ∧
      session.runtime = st.session.runtime := by
  simp only [charge, bind_eq_ok, pure_eq_ok] at h
  obtain ⟨session, hs, rfl⟩ := h
  exact ⟨session, rfl, Session.charge_eq_ok hs⟩

/-- `engine.rs:28-35`. -/
def isForbiddenPackageEngineHook (moduleId : ModuleId) (function : Identifier) : Bool :=
  moduleId.address == frameworkAddr && moduleId.name.name == "package" &&
    ["make_upgrade_cap", "consume_ticket", "make_receipt"].contains function.name

namespace SetuMoveEngine

variable {D S : Type} (H : Blake3 D) (engine : SetuMoveEngine S)

/-- The function that a call names, `engine.rs:1289-1312`. -/
def namedFunction (mc : MoveCall) : Except RuntimeError (ModuleId × Identifier) := do
  let moduleIdent ← (Identifier.new mc.module).mapError fun e ↦
    .invalidTransaction s!"Invalid PTB module name '{mc.module}': {e}"
  let moduleId : ModuleId := ⟨.ofObjectId mc.package, moduleIdent⟩
  let funcIdent ← (Identifier.new mc.function).mapError fun e ↦
    .invalidTransaction s!"Invalid PTB function name '{mc.function}': {e}"
  require (!isForbiddenPackageEngineHook moduleId funcIdent) (.invalidTransaction
    s!"MoveCall to engine-only package hook 0x1::package::{mc.function} is not allowed")
  pure (moduleId, funcIdent)

/-- The type arguments and the signature of the function, `engine.rs:1314-1356`. -/
def loadSignature (session : Session S) (mc : MoveCall) (moduleId : ModuleId)
    (function : Identifier) : Except RuntimeError (List TypeTag × Signature) := do
  let name := s!"MoveCall {mc.module}::{mc.function}"
  let tyArgs ← (mc.typeArguments.mapM engine.tags.parseType).mapError fun e ↦
    .ptbInvalidTypeTag s!"{name} type-arg parse failed: {e}"
  tyArgs.forM fun tag ↦
    session.loadType engine.vm tag fun e ↦ s!"{name} type-arg load failed: {e}"
  let signature ← (engine.vm.loadFunction session.data moduleId function tyArgs).mapError fun e ↦
    .vmExecutionError s!"{name}: load_function failed: {e}"
  let expected := signature.parameters.length
  let supplied := mc.arguments.length
  require (expected == supplied) (.invalidTransaction
    s!"{name} argument count mismatch: function expects {expected}, PTB supplied {supplied}")
  pure (tyArgs, signature)

/-- The turn of the argument loop for one parameter, `engine.rs:1359-1373`: what is taken by
reference is cloned, what is taken by value is consumed. The type of the slot is not looked
at. -/
def bindArgument (bound : List Bytes × PtbContext) (item : (Argument × VmType) × Nat) :
    Except RuntimeError (List Bytes × PtbContext) := do
  let ((arg, param), i) := item
  let (args, pctx) := bound
  require (arg != .gasCoin)
    (.invalidTransaction s!"MoveCall arg[{i}]: GasCoin not yet supported in Phase 3c")
  if param.isReference then
    let slot ← pctx.resolve arg
    pure (args ++ [slot.bytes], pctx)
  else
    let (slot, pctx) ← pctx.consume arg
    pure (args ++ [slot.bytes], pctx)

variable (pctx : PtbContext)

/-- The argument loop, `engine.rs:1357-1374`. -/
def bindArguments (arguments : List Argument) (parameters : List VmType) :
    Except RuntimeError (List Bytes × PtbContext) :=
  (arguments.zip parameters).zipIdx.foldlM bindArgument ([], pctx)

/-- A call as it was run in the VM. -/
structure MoveCallRun (S : Type) where
  call : FunctionCall
  signature : Signature
  abilities : List AbilitySet
  returned : SerializedReturn
  session : Session S
  pctx : PtbContext

/-- Steps 1 to 4 of `lower_move_call_inline`, `engine.rs:1286-1411`. -/
def runMoveCall (session : Session S) (pctx : PtbContext) (mc : MoveCall) :
    Except RuntimeError (MoveCallRun S) := do
  let name := s!"MoveCall {mc.module}::{mc.function}"
  let (moduleId, function) ← namedFunction mc
  let (tyArgs, signature) ← engine.loadSignature session mc moduleId function
  let (args, pctx) ← bindArguments pctx mc.arguments signature.parameters
  let abilities ← (signature.returns.mapM (engine.vm.typeAbilities session.data)).mapError
    fun e ↦ .vmExecutionError s!"{name} return ability lookup failed: {e}"
  let call : FunctionCall := ⟨moduleId, function, tyArgs, args⟩
  let (returned, session) ← session.run H engine.vm call fun e ↦ s!"{name} execution failed: {e}"
  let values := returned.returnValues.length
  require (values == abilities.length) (.vmExecutionError
    s!"{name} return arity mismatch: VM returned {values}, signature has {abilities.length}")
  pure ⟨call, signature, abilities, returned, session, pctx⟩

/-- The write-back of one mutable reference, `engine.rs:1451-1517`: an object input is kept for
the end of the block, the slot of a result is updated at once. -/
def writeBackArgument (mc : MoveCall) (ptbInputs : List CallArg)
    (acc : PtbContext × List (ObjectId × StructTag × Bytes)) (output : Nat × Bytes) :
    Except RuntimeError (PtbContext × List (ObjectId × StructTag × Bytes)) := do
  let name := s!"MoveCall {mc.module}::{mc.function}"
  let (pctx, pending) := acc
  let arg ← okOr mc.arguments[output.1]? (.vmExecutionError
    (s!"{name}: mutable_reference_output LocalIndex={output.1} " ++
      s!"out of range (mc.arguments.len()={mc.arguments.length})"))
  match arg with
  | .gasCoin => .error (.vmExecutionError (s!"{name}: mutable_reference_output points at " ++
      "GasCoin (unreachable — should have been rejected upstream)"))
  | .input i =>
    match ptbInputs[i]? with
    | none => .error (.ptbArgumentOutOfBounds (s!"{name}: Input({i}) referenced by " ++
        s!"mutable_reference_output but ptb.inputs.len()={ptbInputs.length}"))
    | some (.object objArg) => do
      let slot ← pctx.resolve arg
      match slot.typeTag with
      | some (.struct tag) => pure (pctx, pending ++ [(objArg.id, tag, output.2)])
      | _ => .error (.vmExecutionError (s!"{name}: Input({i}) is an Object " ++
          "but its tracked TypeTag is not a Struct " ++
          "(cannot recover StructTag for mutate_object)"))
    | some (.pure _) => .error (.vmExecutionError
        (s!"{name}: mutable_reference_output points at " ++
          s!"Pure Input({i}) — Move VM should never emit this"))
  | .result _ | .nestedResult _ _ => do
    let pctx ← pctx.mutateSlot arg output.2
    pure (pctx, pending)

/-- The results of a call: their types are not tracked, `engine.rs:1415-1431`. -/
def moveCallSlots (values : List Bytes) (abilities : List AbilitySet) : List Slot :=
  (values.zip abilities).map fun (bytes, abilities) ↦ ⟨bytes, none, some abilities⟩

/-- `lower_move_call_inline`, `engine.rs:1269-1521`. -/
def lowerMoveCall (ptbInputs : List CallArg) (idx : Nat) (mc : MoveCall) (st : PtbState S) :
    Except RuntimeError (PtbState S) := do
  let run ← engine.runMoveCall H st.session st.pctx mc
  let (pctx, pending) ← run.returned.mutableReferenceOutputs.foldlM
    (writeBackArgument mc ptbInputs) (run.pctx, st.pendingInputMutations)
  pure { st with
    session := run.session
    pctx := pctx.recordResult idx (moveCallSlots run.returned.returnValues run.abilities)
    lastReturnValues := run.returned.returnValues
    pendingInputMutations := pending }

/-- The coin that a command works on, with its inner type, `engine.rs:1560-1576` and
`1701-1716`. -/
def coinOperand (arg : Argument) (untracked notCoin : String) :
    Except RuntimeError (TypeTag × Bytes) := do
  let slot ← pctx.resolve arg
  let tag ← okOr slot.typeTag (.ptbInvalidCoinLayout untracked)
  let inner ← okOr (coinInnerTypeFromTag tag) (.ptbInvalidCoinLayout
    s!"{notCoin} TypeTag {engine.tags.text tag} is not 0x1::coin::Coin<T>")
  pure (inner, slot.bytes)

/-- A call of a function of the coin module. -/
def coinCall (function : Identifier) (inner : TypeTag) (args : List Bytes) : FunctionCall :=
  ⟨coinModule, function, [inner], args⟩

/-- The state of the loops over amounts and sources: the coin's bytes, the transaction context
and the new coins. -/
structure CoinRun (S : Type) where
  session : Session S
  coinBytes : Bytes
  txCtxBytes : Bytes
  slots : List Slot

/-- The outputs of `coin::split`, `engine.rs:1619-1631`. -/
def applySplitOutput (acc : Bytes × Bytes) (output : Nat × Bytes) :
    Except RuntimeError (Bytes × Bytes) :=
  match output.1 with
  | 0 => .ok (output.2, acc.2)
  | 2 => .ok (acc.1, output.2)
  | other => .error (.vmExecutionError
      s!"coin::split returned unexpected mutable_reference_output at LocalIndex={other}")

/-- The turn of the loop for one amount, `engine.rs:1602-1648`. -/
def splitAmount (inner : TypeTag) (run : CoinRun S) (amount : Bytes × Nat) :
    Except RuntimeError (CoinRun S) := do
  let call := coinCall (ident "split") inner [run.coinBytes, amount.1, run.txCtxBytes]
  let (returned, session) ← run.session.run H engine.vm call fun e ↦
    s!"coin::split iteration {amount.2} failed: {e}"
  let (coinBytes, txCtxBytes) ← returned.mutableReferenceOutputs.foldlM applySplitOutput
    (run.coinBytes, run.txCtxBytes)
  let newCoin ← okOr returned.returnValues.head? (.vmExecutionError
    "coin::split returned no values (expected Coin<T>)")
  pure ⟨session, coinBytes, txCtxBytes,
    run.slots ++ [⟨newCoin, some (.struct (coinTag inner)), none⟩]⟩

/-- Steps 1 to 4 of `lower_split_coins_inline`, `engine.rs:1558-1649`. -/
def runSplitCoins (st : PtbState S) (coinArg : Argument) (amounts : List Argument) :
    Except RuntimeError (TypeTag × CoinRun S) := do
  let (inner, bytes) ← engine.coinOperand st.pctx coinArg
    ("SplitCoins source has no tracked TypeTag (likely a MoveCall " ++
      "result; return-type tracking lands in a later sub-phase)") "SplitCoins source"
  let amounts ← amounts.mapM fun a ↦ do pure (← st.pctx.resolve a).bytes
  st.session.loadType engine.vm inner fun e ↦
    s!"coin::split type-arg load (T={engine.tags.text inner}) failed: {e}"
  let run ← amounts.zipIdx.foldlM (engine.splitAmount H inner)
    ⟨st.session, bytes, st.txCtxBytes, []⟩
  pure (inner, run)

/-- The write-back of a coin, `engine.rs:1651-1676` and `1780-1813`: into the object runtime
under the identifier that the coin starts with, and into its slot. -/
def writeBackCoin (function : String) (inner : TypeTag) (coinArg : Argument) (coinBytes : Bytes)
    (session : Session S) (pctx : PtbContext) : Except RuntimeError (Session S × PtbContext) := do
  let oid ← okOr (extractUidFromBcs coinBytes) (.ptbInvalidCoinLayout
    s!"coin::{function} returned bytes shorter than 32-byte UID prefix: len={coinBytes.length}")
  let pctx ← pctx.mutateSlot coinArg coinBytes
  pure ({ session with runtime := session.runtime.mutateObject oid (coinTag inner) coinBytes },
    pctx)

/-- `lower_split_coins_inline`, `engine.rs:1537-1676`. -/
def lowerSplitCoins (idx : Nat) (coinArg : Argument) (amounts : List Argument)
    (st : PtbState S) : Except RuntimeError (PtbState S) := do
  let (inner, run) ← engine.runSplitCoins H st coinArg amounts
  let (session, pctx) ← writeBackCoin "split" inner coinArg run.coinBytes run.session st.pctx
  pure { st with
    session := session
    pctx := pctx.recordResult idx run.slots
    txCtxBytes := run.txCtxBytes
    lastReturnValues := [] }

/-- The turn of the loop over sources, `engine.rs:1719-1735`. -/
def consumeSource (inner : TypeTag) (acc : List Bytes × PtbContext) (source : Argument × Nat) :
    Except RuntimeError (List Bytes × PtbContext) := do
  let (slot, pctx) ← acc.2.consume source.1
  let tag ← okOr slot.typeTag (.ptbInvalidCoinLayout
    s!"MergeCoins source[{source.2}] has no tracked TypeTag")
  let target := engine.tags.text (.struct (coinTag inner))
  require (tag == .struct (coinTag inner)) (.ptbInvalidCoinLayout
    (s!"MergeCoins type mismatch: target={target}, " ++
      s!"source[{source.2}]={engine.tags.text tag}"))
  pure (acc.1 ++ [slot.bytes], pctx)

/-- The output of `coin::join`, `engine.rs:1765-1775`. -/
def applyJoinOutput (_coinBytes : Bytes) (output : Nat × Bytes) : Except RuntimeError Bytes :=
  match output.1 with
  | 0 => .ok output.2
  | other => .error (.vmExecutionError
      s!"coin::join returned unexpected mutable_reference_output at LocalIndex={other}")

/-- The turn of the loop for one source, `engine.rs:1748-1776`. -/
def joinSource (inner : TypeTag) (run : Session S × Bytes) (source : Bytes × Nat) :
    Except RuntimeError (Session S × Bytes) := do
  let call := coinCall (ident "join") inner [run.2, source.1]
  let (returned, session) ← run.1.run H engine.vm call fun e ↦
    s!"coin::join iteration {source.2} failed: {e}"
  let coinBytes ← returned.mutableReferenceOutputs.foldlM applyJoinOutput run.2
  pure (session, coinBytes)

/-- A merge as it was run in the VM. -/
structure MergeRun (S : Type) where
  inner : TypeTag
  session : Session S
  pctx : PtbContext
  coinBytes : Bytes

/-- Steps 1 to 4 of `lower_merge_coins_inline`, `engine.rs:1699-1777`. -/
def runMergeCoins (st : PtbState S) (target : Argument) (sources : List Argument) :
    Except RuntimeError (MergeRun S) := do
  let (inner, bytes) ← engine.coinOperand st.pctx target
    "MergeCoins target has no tracked TypeTag" "MergeCoins target"
  let (sourceBytes, pctx) ← sources.zipIdx.foldlM (engine.consumeSource inner) ([], st.pctx)
  st.session.loadType engine.vm inner fun e ↦
    s!"coin::join type-arg load (T={engine.tags.text inner}) failed: {e}"
  let (session, coinBytes) ← sourceBytes.zipIdx.foldlM (engine.joinSource H inner)
    (st.session, bytes)
  pure ⟨inner, session, pctx, coinBytes⟩

/-- `lower_merge_coins_inline`, `engine.rs:1686-1813`. -/
def lowerMergeCoins (idx : Nat) (target : Argument) (sources : List Argument)
    (st : PtbState S) : Except RuntimeError (PtbState S) := do
  let run ← engine.runMergeCoins H st target sources
  let (session, pctx) ← writeBackCoin "join" run.inner target run.coinBytes run.session run.pctx
  pure { st with
    session := session
    pctx := pctx.recordResult idx []
    lastReturnValues := [] }

/-- The turn of the loop for one object, `engine.rs:2484-2518`. -/
def transferObject (recipient : Bytes) (acc : Session S × PtbContext) (obj : Argument × Nat) :
    Except RuntimeError (Session S × PtbContext) := do
  let (slot, pctx) ← acc.2.consume obj.1
  let tag ← okOr slot.typeTag (.ptbInvalidCoinLayout
    (s!"TransferObjects[{obj.2}] has no tracked TypeTag — " ++
      "B6b initial scope supports only Coin<T> objects"))
  let inner ← okOr (coinInnerTypeFromTag tag) (.ptbUnsupportedTransferType
    (s!"TransferObjects[{obj.2}] TypeTag {engine.tags.text tag} is not 0x1::coin::Coin<T> " ++
      "— non-Coin transfer support is deferred (design.md §10 F7)"))
  acc.1.loadType engine.vm inner fun e ↦
    s!"coin::transfer type-arg load (T={engine.tags.text inner}) failed: {e}"
  let call := coinCall (ident "transfer") inner [slot.bytes, recipient]
  let (_, session) ← acc.1.run H engine.vm call fun e ↦
    s!"coin::transfer iteration {obj.2} failed: {e}"
  pure (session, pctx)

/-- `lower_transfer_objects_inline`, `engine.rs:2454-2521`. -/
def lowerTransferObjects (idx : Nat) (objects : List Argument) (recipient : Argument)
    (st : PtbState S) : Except RuntimeError (PtbState S) := do
  let recipientBytes := (← st.pctx.resolve recipient).bytes
  let (session, pctx) ← objects.zipIdx.foldlM (engine.transferObject H recipientBytes)
    (st.session, st.pctx)
  pure { st with
    session := session
    pctx := pctx.recordResult idx []
    lastReturnValues := [] }

/-- The turn of the loop for one element, `engine.rs:1863-1866`. -/
def appendElement (acc : Bytes × PtbContext) (arg : Argument) :
    Except RuntimeError (Bytes × PtbContext) := do
  let (slot, pctx) ← acc.2.consume arg
  pure (acc.1 ++ slot.bytes, pctx)

/-- The element type, `engine.rs:1839-1847`: given as text, or that of the first element. -/
def elementType (typeTag : Option String) (args : List Argument) :
    Except RuntimeError (Option TypeTag) :=
  match typeTag with
  | some text => do
    let tag ← (engine.tags.parseType text).mapError fun e ↦
      .ptbInvalidTypeTag ("MakeMoveVec type_tag \"" ++ text ++ "\" parse failed: " ++ e)
    pure (some tag)
  | none => pure (args.head?.bind fun a ↦ (pctx.resolve a).toOption.bind Slot.typeTag)

/-- `lower_make_move_vec_inline`, `engine.rs:1827-1875`. The elements are not checked against
the element type. -/
def lowerMakeMoveVec (idx : Nat) (typeTag : Option String) (args : List Argument)
    (st : PtbState S) : Except RuntimeError (PtbState S) := do
  let element ← engine.elementType st.pctx typeTag args
  let (bytes, pctx) ← args.foldlM appendElement (uleb128 args.length, st.pctx)
  pure { st with
    pctx := pctx.recordResult idx [⟨bytes, element.map .vector, none⟩]
    lastReturnValues := [] }

variable (ctx : MoveExecutionContext)

/-- The identifier of the family that a publication founds, `engine.rs:1954-1958`. -/
def familyId (cmdIdx : Nat) : ObjectId :=
  hashedId H (strBytes "SETU_PKG_FAMILY:" ++ ctx.txHash ++ leBytes 8 cmdIdx)

/-- The package hook `make_upgrade_cap` and the transfer of the capability to the sender,
`engine.rs:1972-2050`. -/
def mintUpgradeCap (family : ObjectId) (session : Session S) (txCtxBytes : Bytes)
    : Except RuntimeError (Session S × Bytes) := do
  let (returned, session) ← session.run H engine.vm
    ⟨packageModule, ident "make_upgrade_cap", [], [family.asBytes, txCtxBytes]⟩
    fun e ↦ s!"synth make_upgrade_cap failed: {e}"
  let txCtxBytes := returned.mutableReferenceOutputs.foldl
    (fun bytes output ↦ if output.1 = 1 then output.2 else bytes) txCtxBytes
  let cap ← okOr returned.returnValues.head?
    (.vmExecutionError "synth make_upgrade_cap returned no value")
  let capTag : TypeTag := .struct (packageTag (ident "UpgradeCap"))
  session.loadType engine.vm capTag fun e ↦
    s!"synth transfer<UpgradeCap> type-arg load failed: {e}"
  let (_, session) ← session.run H engine.vm
    ⟨⟨frameworkAddr, ident "transfer"⟩, ident "transfer", [capTag], [cap, ctx.sender.asBytes]⟩
    fun e ↦ s!"synth transfer<UpgradeCap> failed: {e}"
  pure (session, txCtxBytes)

/-- The identity of a module of a bundle, `engine.rs:1929-1938`. -/
def parseModule (module : Bytes × Nat) : Except RuntimeError ModuleId :=
  (engine.bytecode.selfId module.1).mapError fun e ↦
    .vmExecutionError s!"PTB Publish module[{module.2}] deserialize failed: {e}"

/-- `lower_publish_inline`, `engine.rs:1903-2052`. -/
def lowerPublish (idx : Nat) (modules : List Bytes) (st : PtbState S)
    : Except RuntimeError (PtbState S) := do
  let done := { st with pctx := st.pctx.recordResult idx [], lastReturnValues := [] }
  if modules.isEmpty then pure done
  else
    let parsed ← modules.zipIdx.mapM engine.parseModule
    let session ← st.session.publish engine.vm modules ctx.sender fun e ↦
      s!"PTB Publish ({modules.length} modules) failed: {e}"
    let family := familyId H ctx idx
    let changes := (modules.zip parsed).map fun (bytecode, id) ↦
      ModuleChange.publishWithLinkage id bytecode family id.address 1
    let (session, txCtxBytes) ← engine.mintUpgradeCap H ctx family session st.txCtxBytes
    pure { done with
      session := session
      txCtxBytes := txCtxBytes
      explicitModuleChanges := st.explicitModuleChanges ++ changes }

/-- What a ticket says, decoded from the results of `consume_ticket`. -/
structure TicketFields where
  capId : ObjectId
  policy : UpgradePolicy

/-- A value of the ticket, `engine.rs:2138-2170`. -/
def decodeTicketField {α : Type} (reader : Reader α) (field : String) (bytes : Bytes) :
    Except RuntimeError α :=
  okOr (reader.parse bytes) (.vmExecutionError
    s!"consume_ticket {field} BCS decode failed: {engine.texts.bcsError bytes}")

/-- The checks on the ticket, `engine.rs:2131-2204`: it must bind to this family and to a
digest of the supplied modules. -/
def checkTicket (modules : List Bytes) (currentPackage : ObjectId) (values : List Bytes) :
    Except RuntimeError TicketFields :=
  match values with
  | [cap, family, policy, digest] => do
    let capId ← engine.decodeTicketField readHashValue "cap_id" cap
    let family ← engine.decodeTicketField readHashValue "family_id" family
    let policyByte ← engine.decodeTicketField readByte "policy" policy
    let policy ← okOr (UpgradePolicy.fromU8 policyByte) (.invalidTransaction
      (s!"UpgradeTicket policy byte {policyByte} is not a valid UpgradePolicy " ++
        "(0=Compatible, 1=AdditiveOnly, 2=DepOnly)"))
    let digest ← engine.decodeTicketField readVec "digest" digest
    let ticket := hexEncode family.asBytes
    let package := hexEncode currentPackage.asBytes
    require (family == currentPackage) (.invalidTransaction
      s!"UpgradeTicket family_id mismatch: ticket={ticket}, current_package={package}")
    let recomputed := H.asBytes (H.hash (uleb128 modules.length ++ (modules.map bcsVec).flatten))
    require (digest == recomputed) (.invalidTransaction
      (s!"UpgradeTicket digest mismatch: ticket={hexEncode digest}, " ++
        s!"recomputed={hexEncode recomputed}"))
    pure ⟨capId, policy⟩
  | values => .error (.vmExecutionError
      (s!"consume_ticket return arity {values.length} != 4 " ++
        "(cap_id, family_id, policy, digest)"))

/-- The entry of the family in the linkage table, `engine.rs:2205-2228`. -/
def readLinkage (store : RawStore) (currentPackage : ObjectId) :
    Except RuntimeError (Address × UInt64) := do
  let family := hexEncode currentPackage.asBytes
  let key := s!"linkage:latest:{family}"
  let entry ← (store key).mapError fun e ↦
    .vmExecutionError s!"Command::Upgrade: storage read failed for {key}: {e}"
  let bytes ← okOr entry (.invalidTransaction
    (s!"Command::Upgrade: no linkage entry for family={family} " ++
      "(was the package ever published via PTB?)"))
  let linkage : Reader (Address × UInt64) := do
    let address ← readAddress
    let version ← readU64
    pure (address, version)
  okOr (linkage.parse bytes) (.vmExecutionError
    s!"Command::Upgrade: linkage entry BCS decode failed: {engine.texts.bcsError bytes}")

/-- A module with the address of the old package replaced, and its name,
`engine.rs:2247-2269`. -/
def relinkModule (prevAddr newAddr : Address) (module : Bytes × Nat) :
    Except RuntimeError (Bytes × Identifier) := do
  let relinked ← (engine.bytecode.relink module.1 prevAddr newAddr).mapError fun e ↦
    .vmExecutionError s!"Command::Upgrade: relink module[{module.2}] failed: {e}"
  let id ← (engine.bytecode.selfId relinked).mapError fun e ↦ .vmExecutionError
    s!"Command::Upgrade: relinked module[{module.2}] re-deserialize failed: {e}"
  pure (relinked, id.name)

/-- The compatibility check of one module, `engine.rs:2285-2360`. -/
def checkModuleCompat (store : RawStore) (prevAddr : Address) (policy : UpgradePolicy)
    (session : Session S) (item : (Bytes × Identifier) × Nat) :
    Except RuntimeError (Session S) := do
  let ((newModule, ident), i) := item
  let name := ident.name
  let address := toHexLiteral prevAddr.asBytes
  let key := moduleKey address name
  let entry ← (store key).mapError fun e ↦
    .vmExecutionError s!"Command::Upgrade: storage read failed for {key}: {e}"
  let oldBytes ← okOr entry (.invalidTransaction
    (s!"Command::Upgrade: module[{i}] '{name}' has no entry under prev_addr={address} " ++
      "(new modules cannot be introduced via Upgrade; publish them in a separate package)"))
  let _ ← (engine.bytecode.selfId oldBytes).mapError fun e ↦ .vmExecutionError
    s!"Command::Upgrade: prev module[{i}] '{name}' deserialization failed: {e}"
  let _ ← (engine.bytecode.selfId newModule).mapError fun e ↦ .vmExecutionError
    s!"Command::Upgrade: pre-relink module[{i}] '{name}' deserialization failed: {e}"
  let gas := satAdd
    (satMul 1250 (UInt64.ofNat (engine.bytecode.datatypeHandles oldBytes)))
    (satMul 1250 (UInt64.ofNat (engine.bytecode.functionHandles oldBytes)))
  let session ← session.charge gas
  (engine.bytecode.checkUpgradeCompat oldBytes newModule policy).mapError fun e ↦
    .invalidTransaction s!"Command::Upgrade: module[{i}] '{name}' compat check failed {e}"
  pure session

/-- The address of a new version of a package, `engine.rs:2235-2241`. -/
def newPackageAddr (cmdIdx : Nat) (newVersion : UInt64) : Address :=
  .ofObjectId (hashedId H
    (strBytes "SETU_PKG_VER:" ++ ctx.txHash ++ leBytes 8 cmdIdx ++ u64Le newVersion))

/-- `lower_upgrade_inline`, `engine.rs:2085-2443`. The type of the ticket's slot is not looked
at. -/
def lowerUpgrade (store : RawStore) (ctx : MoveExecutionContext) (idx : Nat)
    (modules : List Bytes) (currentPackage : ObjectId) (upgradeTicket : Argument)
    (st : PtbState S) : Except RuntimeError (PtbState S) := do
  require (!modules.isEmpty) (.invalidTransaction
    "Command::Upgrade with empty module bundle is not allowed")
  let (ticket, pctx) ← st.pctx.consume upgradeTicket
  let (consumed, session) ← st.session.run H engine.vm
    ⟨packageModule, ident "consume_ticket", [], [ticket.bytes]⟩
    fun e ↦ s!"synth consume_ticket failed: {e}"
  let fields ← engine.checkTicket H modules currentPackage consumed.returnValues
  let (prevAddr, prevVersion) ← engine.readLinkage store currentPackage
  require (prevVersion.toNat + 1 < 2 ^ 64) (.invalidTransaction
    "Command::Upgrade: version overflow")
  let newVersion := prevVersion + 1
  let newAddr := newPackageAddr H ctx idx newVersion
  let relinked ← modules.zipIdx.mapM (engine.relinkModule prevAddr newAddr)
  let session ← ((modules.zip (relinked.map Prod.snd)).zipIdx).foldlM
    (engine.checkModuleCompat store prevAddr fields.policy) session
  let session ← session.publish engine.vm (relinked.map Prod.fst) newAddr fun e ↦
    (s!"Command::Upgrade: publish_module_bundle ({relinked.length} modules) at " ++
      s!"new_addr={toHexLiteral newAddr.asBytes} failed: {e}")
  let changes := relinked.map fun (bytecode, name) ↦
    ModuleChange.upgrade ⟨newAddr, name⟩ bytecode currentPackage prevAddr.toObjectId newAddr
      newVersion
  let (receipt, session) ← session.run H engine.vm
    ⟨packageModule, ident "make_receipt", [],
      [fields.capId.asBytes, newAddr.asBytes, u64Le newVersion]⟩
    fun e ↦ s!"synth make_receipt failed: {e}"
  let receiptBytes ← okOr receipt.returnValues.head?
    (.vmExecutionError "synth make_receipt returned no value")
  let slot : Slot := ⟨receiptBytes, some (.struct (packageTag (ident "UpgradeReceipt"))), none⟩
  pure { st with
    session := session
    pctx := pctx.recordResult idx [slot]
    lastReturnValues := []
    explicitModuleChanges := st.explicitModuleChanges ++ changes }

end SetuMoveEngine

end Setu.Move
