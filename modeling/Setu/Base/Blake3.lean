import Setu.Base.Bytes

/-!
# The hash function as a parameter

Library `Base`. BLAKE3 is third-party code: a digest is an abstract value with its byte
form, and the hasher is a function from preimages to digests. Streaming `update` calls are
concatenation of the preimage. Security enters only through `CollisionFree`; a digest type
with an injective hash has to be infinite, so the digest stays abstract and the 32-byte width
is used in one place only, to cut a digest off the front of a longer string.
-/

namespace Setu.Base

/-- A hasher with digests `D`: the hash, the bytes of a digest (`as_bytes`), and the digest
whose bytes are all zero (`[0u8; 32]`). -/
structure Blake3 (D : Type) where
  hash : Bytes → D
  asBytes : D → Bytes
  zero : D

namespace Blake3

variable {D : Type}

/-- No two preimages share a digest, and a digest can be read off the front of a string
(all digests have one width). -/
structure CollisionFree (H : Blake3 D) : Prop where
  hash_injective : Function.Injective H.hash
  asBytes_append_inj : ∀ {a b : D} {s t : Bytes},
    H.asBytes a ++ s = H.asBytes b ++ t → a = b ∧ s = t

/-- The hexadecimal digest of a preimage; `hex::encode(hasher.finalize().as_bytes())`. -/
def hexDigest (H : Blake3 D) (preimage : Bytes) : String :=
  hexEncode (H.asBytes (H.hash preimage))

namespace CollisionFree

variable {H : Blake3 D}

/-- Equal digests come from equal preimages. -/
theorem hash_inj (hH : H.CollisionFree) {a b : Bytes} : H.hash a = H.hash b ↔ a = b :=
  hH.hash_injective.eq_iff

/-- The bytes determine the digest. -/
theorem asBytes_inj (hH : H.CollisionFree) {a b : D} : H.asBytes a = H.asBytes b ↔ a = b := by
  constructor
  · intro h
    exact (hH.asBytes_append_inj (congrArg (· ++ []) h)).1
  · rintro rfl
    rfl

/-- Hexadecimal digests are as collision-free as the digests. -/
theorem hexDigest_inj (hH : H.CollisionFree) {a b : Bytes} :
    H.hexDigest a = H.hexDigest b ↔ a = b := by
  rw [hexDigest, hexDigest, hexEncode_inj, hH.asBytes_inj, hH.hash_inj]

/-- A hexadecimal digest can be read off the front of a string. -/
theorem hexDigest_append_inj (hH : H.CollisionFree) {a b s t : Bytes}
    (h : strBytes (H.hexDigest a) ++ s = strBytes (H.hexDigest b) ++ t) :
    H.hexDigest a = H.hexDigest b := by
  obtain ⟨rest, hr⟩ := comparable_of_hexEncode_append h
  have heq : H.hash a = H.hash b := by
    rcases hr with hr | hr
    · exact (hH.asBytes_append_inj (hr.trans (List.append_nil _).symm)).1
    · exact (hH.asBytes_append_inj (hr.trans (List.append_nil _).symm)).1.symm
  rw [hexDigest, heq]
  rfl

end CollisionFree

private def escape : Bytes → Bytes
  | [] => [0]
  | b :: rest => 1 :: b :: escape rest

private theorem escape_append_inj {a b s t : Bytes} (h : escape a ++ s = escape b ++ t) :
    a = b ∧ s = t := by
  induction a generalizing b with
  | nil =>
    cases b with
    | nil => simpa [escape] using h
    | cons y b => simp [escape] at h
  | cons x a ih =>
    cases b with
    | nil => simp [escape] at h
    | cons y b =>
      simp only [escape, List.cons_append, List.cons.injEq, true_and] at h
      obtain ⟨rfl, h⟩ := h
      obtain ⟨rfl, rfl⟩ := ih h
      exact ⟨rfl, rfl⟩

/-- The ideal hasher: a digest is the preimage itself, written self-delimiting, and the zero
digest is no preimage's digest. -/
def ideal : Blake3 (Option Bytes) where
  hash := some
  asBytes
    | none => [2]
    | some preimage => escape preimage
  zero := none

/-- The digest of a preimage starts with a mark. -/
theorem ideal_getD_zero (preimage : Bytes) :
    (ideal.asBytes (ideal.hash preimage)).getD 0 0 ≤ 1 := by
  cases preimage with
  | nil => decide
  | cons b rest => exact (by decide : (1 : UInt8) ≤ 1)

/-- Collision-freeness is satisfiable. -/
theorem ideal_collisionFree : ideal.CollisionFree where
  hash_injective _ _ := Option.some.inj
  asBytes_append_inj := by
    intro a b s t h
    cases a with
    | none =>
      cases b with
      | none => simpa [ideal] using h
      | some b => cases b <;> simp [ideal, escape] at h
    | some a =>
      cases b with
      | none => cases a <;> simp [ideal, escape] at h
      | some b =>
        obtain ⟨rfl, rfl⟩ := escape_append_inj h
        exact ⟨rfl, rfl⟩

/-- A hasher with short digests, FNV-1a, for runs that are evaluated. It has collisions. -/
def fnv : Blake3 UInt64 where
  hash preimage :=
    preimage.foldl (fun state b ↦ (state ^^^ b.toUInt64) * 0x100000001b3) 0xcbf29ce484222325
  asBytes := u64Le
  zero := 0

end Blake3

end Setu.Base
