import LedgerWire.Message.Wire

/-!
Transactions: a message and a signature slot for each of its signers, in the order of their keys. On
the wire the signatures come first, after their compact count.
-/

namespace LedgerWire

@[ext] structure Transaction where
  signatures : List Signature
  message : Message
  deriving DecidableEq

namespace Transaction

def unsigned (message : Message) : Transaction :=
  ⟨List.replicate message.requiredSignatures Signature.placeholder, message⟩

def id? (transaction : Transaction) : Option Signature := transaction.signatures.head?

def isFullySigned (transaction : Transaction) : Bool :=
  transaction.signatures.length == transaction.message.requiredSignatures &&
    transaction.signatures.all fun signature => !signature.isPlaceholder

def encode (transaction : Transaction) : Except WireError Bytes := do
  let count ← CompactLength.encode transaction.signatures.length
  let message ← transaction.message.encode
  return count ++ (transaction.signatures.flatMap FixedBytes.bytes ++ message)

def encodedSize (transaction : Transaction) : Nat :=
  CompactLength.encodedLength transaction.signatures.length +
    transaction.signatures.length * 64 + transaction.message.encodedSize

def decoder : Decoder Transaction := do
  let signatures ← Decoder.times (← Decoder.compactLength) (Decoder.fixed .signature)
  let message ← Message.decoder
  return ⟨signatures, message⟩

/-- A transaction that is all of the bytes. Slots may be missing at the end but not in excess. -/
def decode (bytes : Bytes) : Except WireError Transaction := do
  let transaction ←
    Decoder.runOn (do let transaction ← decoder; Decoder.finish; return transaction)
      (Cursor.ofBytes bytes none)
  let count := transaction.signatures.length
  let required := transaction.message.requiredSignatures
  if required < count then throw (.invalidHeader (.tooManySignatures count required))
  return transaction

end Transaction

end LedgerWire
