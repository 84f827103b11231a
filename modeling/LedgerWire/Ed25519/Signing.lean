import LedgerWire.Ed25519.Curve
import LedgerWire.Sha512

/-!
Ed25519 signatures. A signature is the encoding of a point followed by a scalar; checking is strict:
the scalar must be reduced and neither the point nor the key may have small order.
-/

namespace LedgerWire.Ed25519

def order : Nat := Nat.pow 2 252 + 27742317777372353535851937790883648493

def hashScalar (message : Bytes) : Nat := LittleEndian.decode (Sha512.hash message) % order

/-- Bits 0 to 2 and 255 are cleared, bit 254 is set. -/
def clamp (value : Nat) : Nat := value % Nat.pow 2 254 / 8 * 8 + Nat.pow 2 254

def secretScalar (seed : Bytes) : Nat :=
  clamp (LittleEndian.decode ((Sha512.hash seed).take 32))

def publicKey (seed : Bytes) : Bytes := (Point.base.multiply (secretScalar seed)).encode

def challenge (commitment key message : Bytes) : Nat := hashScalar (commitment ++ (key ++ message))

def sign (seed key message : Bytes) : Bytes :=
  let nonce := hashScalar ((Sha512.hash seed).drop 32 ++ message)
  let commitment := (Point.base.multiply nonce).encode
  let response := (nonce + challenge commitment key message * secretScalar seed) % order
  commitment ++ LittleEndian.encode 32 response

/-- Both the key and the first half of the signature are hashed as they were given. -/
def verify (key message signature : Bytes) : Bool :=
  let commitment := signature.take 32
  let response := LittleEndian.decode (signature.drop 32)
  match Point.decode? key, Point.decode? commitment with
  | some keyPoint, some commitmentPoint =>
      response < order && !commitmentPoint.hasSmallOrder && !keyPoint.hasSmallOrder &&
        ((Point.base.multiply response).add
          (keyPoint.neg.multiply (challenge commitment key message))).encode == commitment
  | _, _ => false

theorem length_publicKey (seed : Bytes) : (publicKey seed).length = 32 := by
  simp [publicKey, Point.encode]

theorem length_sign (seed key message : Bytes) : (sign seed key message).length = 64 := by
  simp [sign, Point.encode]

end LedgerWire.Ed25519
