import LedgerWire.Error
import LedgerWire.Instruction
import Std.Data.HashSet

/-!
Messages: the body of a transaction that its signers sign. The account keys stand in four
consecutive blocks, which the header counts: writable signers, read-only signers, writable
non-signers, read-only non-signers. Instructions name accounts by their index.
-/

namespace LedgerWire

@[ext] structure MessageHeader where
  requiredSignatures : UInt8
  readonlySigned : UInt8
  readonlyUnsigned : UInt8
  deriving DecidableEq

namespace MessageHeader

def isSigner (header : MessageHeader) (index : Nat) : Bool :=
  index < header.requiredSignatures.toNat

def isWritable (header : MessageHeader) (keyCount index : Nat) : Bool :=
  let required := header.requiredSignatures.toNat
  index < keyCount &&
    if index < required then index < required - header.readonlySigned.toNat
    else index < keyCount - header.readonlyUnsigned.toNat

end MessageHeader

structure CompiledInstruction where
  programIndex : UInt8
  accounts : Bytes
  data : Bytes
  deriving DecidableEq

@[ext] structure Message where
  header : MessageHeader
  accountKeys : List PublicKey
  recentBlockhash : Hash
  instructions : List CompiledInstruction
  deriving DecidableEq

namespace Message

def requiredSignatures (message : Message) : Nat := message.header.requiredSignatures.toNat

def isSigner (message : Message) (index : Nat) : Bool := message.header.isSigner index

def isWritable (message : Message) (index : Nat) : Bool :=
  message.header.isWritable message.accountKeys.length index

def signerKeys (message : Message) : List PublicKey :=
  message.accountKeys.take message.requiredSignatures

def feePayer? (message : Message) : Option PublicKey := message.signerKeys.head?

def withBlockhash (message : Message) (recentBlockhash : Hash) : Message :=
  { message with recentBlockhash }

def advanceNonceTag : Nat := 4

def advancesNonce (message : Message) (systemProgram : PublicKey) : Bool :=
  match message.instructions with
  | [] => false
  | first :: _ =>
      message.accountKeys[first.programIndex.toNat]? == some systemProgram &&
        first.data.take 4 == LittleEndian.encode 4 advanceNonceTag

def usesDurableNonce (message : Message) : Bool := message.advancesNonce WellKnown.system.key

def accountMetas (message : Message) : List AccountMeta :=
  let keyCount := message.accountKeys.length
  message.accountKeys.mapIdx fun index key =>
    ⟨key, message.header.isSigner index, message.header.isWritable keyCount index⟩

def metaAt (metas : Array AccountMeta) (index : UInt8) : Except WireError AccountMeta :=
  match metas[index.toNat]? with
  | some account => .ok account
  | none => .error (.indexOutOfRange index.toNat metas.size)

def decompile (message : Message) : Except WireError (List Instruction) :=
  let metas := message.accountMetas.toArray
  message.instructions.mapM fun instruction => do
    let program ← metaAt metas instruction.programIndex
    let accounts ← instruction.accounts.mapM (metaAt metas)
    return ⟨program.publicKey, accounts, instruction.data⟩

/-- The first key that stands among those in `seen` or earlier in the list, with its index. -/
def firstRepeat? (seen : Std.HashSet PublicKey) (index : Nat) :
    List PublicKey → Option (Nat × PublicKey)
  | [] => none
  | key :: rest =>
      if seen.contains key then some (index, key)
      else firstRepeat? (seen.insert key) (index + 1) rest

/-- The first index, the program's before the accounts', that lies outside a table of keys. -/
def firstOutside? (keyCount : Nat) (instructions : List CompiledInstruction) : Option UInt8 :=
  instructions.findSome? fun instruction =>
    (instruction.programIndex :: instruction.accounts).find? fun index =>
      decide (keyCount ≤ index.toNat)

def check (message : Message) : Except WireError Unit := do
  let header := message.header
  let keyCount := message.accountKeys.length
  if header.requiredSignatures < header.readonlySigned then
    throw (.invalidHeader
      (.readonlySigned header.readonlySigned.toNat header.requiredSignatures.toNat))
  let covered := header.requiredSignatures.toNat + header.readonlyUnsigned.toNat
  if keyCount < covered then
    throw (.invalidHeader (.tooFewKeys covered keyCount))
  if let some (index, key) := firstRepeat? ∅ 0 message.accountKeys then
    throw (.duplicateAccount index key)
  if let some index := firstOutside? keyCount message.instructions then
    throw (.indexOutOfRange index.toNat keyCount)

end Message

end LedgerWire
