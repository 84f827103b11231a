import LedgerWire.Ed25519.Signing
import LedgerWire.Error

/-!
Signers, and the key pairs that sign in memory. A signer may be far away, so signing may fail.
-/

namespace LedgerWire

structure Signer where
  publicKey : PublicKey
  sign : Bytes → Except WireError Signature

/-- Strict Ed25519 verification. -/
def Signature.verifies (signature : Signature) (key : PublicKey) (message : Bytes) : Bool :=
  Ed25519.verify key.bytes message signature.bytes

structure Keypair where
  seed : Bytes
  seed_length : seed.length = 32
  publicKey : PublicKey
  publicKey_eq : publicKey.bytes = Ed25519.publicKey seed

namespace Keypair

def encodedLength : Nat := 64

def ofSeed (seed : Bytes) (seed_length : seed.length = 32) : Keypair where
  seed := seed
  seed_length := seed_length
  publicKey := ⟨Ed25519.publicKey seed, Ed25519.length_publicKey seed⟩
  publicKey_eq := rfl

def ofBytes (bytes : Bytes) : Except WireError Keypair :=
  if length_eq : bytes.length = encodedLength then
    let held := bytes.drop 32
    if (Ed25519.Point.decode? held).isNone then
      .error (.invalidEncoding .keypair .notOnCurve)
    else
      let keypair := ofSeed (bytes.take 32) (by simp [length_eq, encodedLength])
      if keypair.publicKey.bytes = held then .ok keypair
      else .error (.invalidEncoding .keypair .mismatchedKeypair)
  else .error (.invalidEncoding .keypair (.wrongLength encodedLength bytes.length))

def ofText (text : String) : Except WireError Keypair :=
  match Text.Base58.decode text with
  | .ok bytes => ofBytes bytes
  | .error fault => .error (.invalidEncoding .keypair (.base58 fault))

def toBytes (keypair : Keypair) : Bytes := keypair.seed ++ keypair.publicKey.bytes

def signature (keypair : Keypair) (message : Bytes) : Signature :=
  ⟨Ed25519.sign keypair.seed keypair.publicKey.bytes message, Ed25519.length_sign _ _ _⟩

def signer (keypair : Keypair) : Signer where
  publicKey := keypair.publicKey
  sign message := .ok (keypair.signature message)

end Keypair

end LedgerWire
