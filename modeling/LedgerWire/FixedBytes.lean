import LedgerWire.Text.Base58

/-!
Public keys, hashes and signatures: byte strings whose length is fixed by their kind and whose text
is base 58.
-/

namespace LedgerWire

inductive FixedBytes.Kind where
  | publicKey
  | hash
  | signature
  deriving DecidableEq, Repr

namespace FixedBytes.Kind

def size : Kind → Nat
  | publicKey => 32
  | hash => 32
  | signature => 64

def label : Kind → String
  | publicKey => "public key"
  | hash => "hash"
  | signature => "signature"

end FixedBytes.Kind

structure FixedBytes (kind : FixedBytes.Kind) where
  bytes : Bytes
  length_eq : bytes.length = kind.size
  deriving DecidableEq

abbrev PublicKey := FixedBytes .publicKey
abbrev Hash := FixedBytes .hash
abbrev Signature := FixedBytes .signature

namespace FixedBytes

variable {kind : Kind}

@[ext] theorem ext {left right : FixedBytes kind} (same : left.bytes = right.bytes) :
    left = right := by
  cases left
  cases right
  simpa using same

instance : Hashable (FixedBytes kind) := ⟨fun value => hash value.bytes⟩

instance : Ord (FixedBytes kind) := ⟨fun left right => compare left.bytes right.bytes⟩

def filled (kind : Kind) (byte : UInt8) : FixedBytes kind :=
  ⟨List.replicate kind.size byte, by simp⟩

def zero (kind : Kind) : FixedBytes kind := ⟨List.replicate kind.size 0, by simp⟩

instance : Inhabited (FixedBytes kind) := ⟨zero kind⟩

def isZero (value : FixedBytes kind) : Bool := value.bytes.all (· == 0)

theorem isZero_iff (value : FixedBytes kind) : value.isZero = true ↔ value = zero kind := by
  constructor
  · intro allZero
    apply ext
    apply List.eq_replicate_iff.mpr
    exact ⟨value.length_eq, by simpa [isZero] using allZero⟩
  · rintro rfl
    simp [isZero, zero]

def ofBytes? (kind : Kind) (bytes : Bytes) : Option (FixedBytes kind) :=
  if length_eq : bytes.length = kind.size then some ⟨bytes, length_eq⟩ else none

def toText (value : FixedBytes kind) : String := Text.Base58.encode value.bytes

end FixedBytes

def Signature.isPlaceholder (signature : Signature) : Bool := signature.isZero

def Signature.placeholder : Signature := FixedBytes.zero .signature

end LedgerWire
