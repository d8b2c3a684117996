import Setu.Base.Bytes

/-!
# The signature scheme as a parameter

Library `Base`. Ed25519 is third-party code: keys, messages and signatures are byte strings,
and parsing failures of a key or a signature make `verify` false. Unforgeability is a matter
of runs: it is about the signatures that turn up in one.
-/

namespace Setu.Base

/-- The operations of a signature scheme. -/
structure Ed25519 where
  publicKey : Bytes → Bytes
  sign : Bytes → Bytes → Bytes
  verify : Bytes → Bytes → Bytes → Bool

namespace Ed25519

/-- Signatures made with a 32-byte secret key verify under its 32-byte public key. -/
structure Correct (S : Ed25519) : Prop where
  length_publicKey : ∀ {key}, key.length = 32 → (S.publicKey key).length = 32
  sign_ne_nil : ∀ {key} message, key.length = 32 → S.sign key message ≠ []
  verify_sign : ∀ {key} message, key.length = 32 →
    S.verify (S.publicKey key) message (S.sign key message) = true

/-- The ideal scheme: the signature is the key followed by the message. -/
def ideal : Ed25519 where
  publicKey key := key
  sign key message := key ++ message
  verify key message signature := signature == key ++ message

/-- Correctness is satisfiable. -/
theorem ideal_correct : ideal.Correct where
  length_publicKey h := h
  sign_ne_nil message h := by
    intro hn
    have hl := congrArg List.length hn
    simp only [ideal, List.length_append, List.length_nil] at hl
    omega
  verify_sign message _ := by simp [ideal]

end Ed25519

end Setu.Base
