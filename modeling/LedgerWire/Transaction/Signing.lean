import LedgerWire.Message.Compile
import LedgerWire.Signer
import LedgerWire.Transaction.Basic

/-!
Filling and checking the signature slots of a transaction. A signer signs the bytes of the message,
and its signature goes to the first slot whose key is its own.
-/

namespace LedgerWire.Transaction

def slotOf (message : Message) (key : PublicKey) : Except WireError Nat :=
  match message.signerKeys.findIdx? (· == key) with
  | some slot => .ok slot
  | none => .error (.unknownSigner key)

def checkComplete (transaction : Transaction) : Except WireError Unit :=
  let missing := transaction.message.signerKeys.zipIdx.find? fun (_, slot) =>
    match transaction.signatures[slot]? with
    | some signature => signature.isPlaceholder
    | none => true
  match missing with
  | some (key, slot) => .error (.missingSigner slot key)
  | none => .ok ()

def resize (signatures : List Signature) (count : Nat) : List Signature :=
  signatures.take count ++ List.replicate (count - signatures.length) Signature.placeholder

def place (signatures : List Signature) (filled : List (Nat × Signature)) : List Signature :=
  filled.foldl (fun signatures (slot, signature) => signatures.set slot signature) signatures

/-- Signs with the given signers and leaves the other slots as they are. Nobody is asked to sign
unless all of them own a slot, and nothing changes unless all of them sign. -/
def partialSign (transaction : Transaction) (signers : List Signer) :
    Except WireError Transaction := do
  let message := transaction.message
  let slots ← signers.mapM fun signer => slotOf message signer.publicKey
  let bytes ← message.encode
  let signatures ← signers.mapM fun signer => signer.sign bytes
  let sized := resize transaction.signatures message.requiredSignatures
  return ⟨place sized (slots.zip signatures), message⟩

def sign (transaction : Transaction) (signers : List Signer) :
    Transaction × Except WireError Unit :=
  match transaction.partialSign signers with
  | .ok signed => (signed, signed.checkComplete)
  | .error failure => (transaction, .error failure)

def accept (transaction : Transaction) (key : PublicKey) (signature : Signature) :
    Except WireError Transaction := do
  let slot ← slotOf transaction.message key
  return ⟨transaction.signatures.set slot signature, transaction.message⟩

/-- Places signatures made elsewhere one after another, so the last one for a key counts. -/
def ofSignatures (message : Message) (signatures : List (PublicKey × Signature)) :
    Except WireError Transaction := do
  let transaction ← signatures.foldlM (fun filled (key, signature) => filled.accept key signature)
    (unsigned message)
  transaction.checkComplete
  return transaction

def build (instructions : List Instruction) (feePayer : PublicKey) (recentBlockhash : Hash)
    (signers : List Signer) : Except WireError Transaction := do
  let message ← Message.compile instructions feePayer recentBlockhash
  let (transaction, outcome) := (unsigned message).sign signers
  outcome
  return transaction

def verify (transaction : Transaction) : Except WireError Unit := do
  let bytes ← transaction.message.encode
  let slots := transaction.signatures.zip transaction.message.signerKeys
  let bad := slots.zipIdx.find? fun ((signature, key), _) =>
    !signature.isPlaceholder && !signature.verifies key bytes
  match bad with
  | some ((_, key), slot) => throw (.invalidSignature slot key)
  | none => return ()

def setBlockhash (transaction : Transaction) (recentBlockhash : Hash) : Transaction :=
  { transaction with message := transaction.message.withBlockhash recentBlockhash }

end LedgerWire.Transaction
