import Setu.Framework.Coin
import Setu.Move.Ptb

/-!
# The coin functions of the framework in the VM

Library `Move`. A coin is serialized as its identifier and its balance. A VM runs the coin
functions if `split`, `join` and `transfer` do to serialized coins what
`setu-framework/sources/coin.move` does to coins.
-/

namespace Setu.Move

open Setu.Base Setu.Types Setu.Framework

/-- The serialized form of a coin, `coin.move:14-17`. -/
def coinBytes {inner : TypeTag} (coin : Coin inner) : Bytes := coin.id.asBytes ++ u64Le coin.value

/-- A coin read from its serialized form. -/
def readCoin (inner : TypeTag) : Reader (Coin inner) := do
  let id ← readHashValue
  let value ← readU64
  pure ⟨id, ⟨value⟩⟩

variable {inner : TypeTag}

theorem canonical_readCoin : (readCoin inner).Canonical coinBytes := by
  refine canonical_readHashValue.bind fun id input coin rest hr ↦ ?_
  have hv : (readU64 >>= fun value ↦ pure (⟨id, ⟨value⟩⟩ : Coin inner)).Canonical
      fun coin ↦ u64Le coin.value := canonical_readU64.bind_pure fun _ ↦ rfl
  have hid : coin.id = id := by
    change (readU64.run input >>= fun read ↦ some ((⟨id, ⟨read.1⟩⟩ : Coin inner), read.2)) =
      some (coin, rest) at hr
    obtain ⟨_, -, heq⟩ := Option.bind_eq_some_iff.mp hr
    cases heq
    rfl
  rw [hv input coin rest hr, coinBytes, hid, List.append_assoc]

@[simp]
theorem extractUidFromBcs_coinBytes (coin : Coin inner) :
    extractUidFromBcs (coinBytes coin) = some coin.id :=
  extractUidFromBcs_append coin.id _

/-- A run of a coin function on serialized coins. -/
def coinFunction {D : Type} (H : Blake3 D) (rt : SetuObjectRuntime) (inner : TypeTag) :
    String → List Bytes → Option (SerializedReturn × List NativeCall)
  | "split", [coin, amount, ctx] => do
    let coin ← (readCoin inner).parse coin
    let amount ← readU64.parse amount
    let (taken, rest) ← (coin.split amount (rt.nextId H)).toOption
    pure (⟨[coinBytes taken], [(0, coinBytes rest), (2, ctx)]⟩, [.newUid])
  | "join", [coin, other] => do
    let coin ← (readCoin inner).parse coin
    let other ← (readCoin inner).parse other
    let joined ← (coin.join other).toOption
    pure (⟨[], [(0, coinBytes joined)]⟩, [.deleteUid other.id])
  | "transfer", [coin, recipient] => do
    let recipient ← readAddress.parse recipient
    pure (⟨[], []⟩, [.transfer recipient (coinTag inner) coin])
  | _, _ => none

/-- The parameters of a coin function. -/
def coinSignature (inner : TypeTag) : String → List VmType
  | "split" => [.mutableReference (.struct (coinTag inner)), .value .u64,
      .mutableReference (.struct (.mk frameworkAddr (ident "tx_context") (ident "TxContext") .nil))]
  | "join" => [.mutableReference (.struct (coinTag inner)), .value (.struct (coinTag inner))]
  | "transfer" => [.value (.struct (coinTag inner)), .value .address]
  | _ => []

/-- A VM that knows the coin functions only. -/
def coinVm {D : Type} (H : Blake3 D) : MoveVm Unit where
  newSession _ := ()
  loadType _ _ := .ok ⟨⟩
  typeAbilities _ _ := .ok ⟨false, false, true, true⟩
  loadFunction _ _ function typeArgs :=
    .ok ⟨coinSignature (typeArgs.headD .u8) function.name, []⟩
  declaration _ _ _ := some ⟨.public, true⟩
  execute _ rt gas call :=
    (gas, do
      let (returned, calls) ← okOr
        (coinFunction H rt (call.typeArgs.headD .u8) call.function.name call.args) "ABORTED"
      pure (returned, calls, ()))
  publish _ gas _ _ := (gas, .ok ())
  finish _ := .ok []

/-- An engine around it, for a state with coins of one type. -/
def coinEngine {D : Type} (H : Blake3 D) : SetuMoveEngine Unit where
  vm := coinVm H
  stdlibModules := ∅
  tags := ⟨fun _ ↦ .ok .u8, fun _ ↦ .ok (coinTag .u8), fun _ ↦ "0x1::coin::Coin<u8>"⟩
  bytecode := ⟨fun _ ↦ .error "", fun _ _ _ ↦ .error "", fun _ ↦ 0, fun _ ↦ 0, fun _ _ _ ↦ .ok ⟨⟩⟩
  texts := ⟨fun _ ↦ "", fun _ ↦ ""⟩

/-- What a coin function was run on and what it did. -/
theorem coinFunction_eq_some {D : Type} {H : Blake3 D} {rt : SetuObjectRuntime} {name : String}
    {args : List Bytes} {returned : SerializedReturn} {calls : List NativeCall}
    (h : coinFunction H rt inner name args = some (returned, calls)) :
    (∃ (coin taken rest : Coin inner) (n : UInt64) (ctx : Bytes), name = "split" ∧
      args = [coinBytes coin, u64Le n, ctx] ∧ coin.split n (rt.nextId H) = .ok (taken, rest) ∧
      returned = ⟨[coinBytes taken], [(0, coinBytes rest), (2, ctx)]⟩ ∧ calls = [.newUid]) ∨
    (∃ coin other joined : Coin inner, name = "join" ∧ args = [coinBytes coin, coinBytes other] ∧
      coin.join other = .ok joined ∧ returned = ⟨[], [(0, coinBytes joined)]⟩ ∧
      calls = [.deleteUid other.id]) ∨
    ∃ (coin : Bytes) (recipient : Address), name = "transfer" ∧
      args = [coin, recipient.asBytes] ∧ returned = ⟨[], []⟩ ∧
      calls = [.transfer recipient (coinTag inner) coin] := by
  unfold coinFunction at h
  split at h
  all_goals
    simp only [Option.bind_eq_bind, Option.bind_eq_some_iff, Option.pure_def, Option.some.injEq,
      Prod.mk.injEq, Prod.exists, reduceCtorEq] at h
  · obtain ⟨coin, hc, n, hn, taken, rest, hs, rfl, rfl⟩ := h
    rw [canonical_readCoin.eq_of_parse hc, canonical_readU64.eq_of_parse hn]
    exact .inl ⟨coin, taken, rest, n, _, rfl, rfl, toOption_eq_some_iff.mp hs, rfl, rfl⟩
  · obtain ⟨coin, hc, other, ho, joined, hj, rfl, rfl⟩ := h
    rw [canonical_readCoin.eq_of_parse hc, canonical_readCoin.eq_of_parse ho]
    exact .inr (.inl ⟨coin, other, joined, rfl, rfl, toOption_eq_some_iff.mp hj, rfl, rfl⟩)
  · obtain ⟨recipient, hr, rfl, rfl⟩ := h
    rw [canonical_readAddress.eq_of_parse hr]
    exact .inr (.inr ⟨_, recipient, rfl, rfl, rfl, rfl⟩)

end Setu.Move
