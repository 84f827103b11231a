import LedgerWire.Message.Basic
import Std.Data.HashMap

/-!
Compiling instructions into a message. Each key enters the table once, with the union of the
privileges it is given anywhere, and keeps the order of first mention inside its class of
privileges; the fee payer comes first of all.
-/

namespace LedgerWire

structure Privileges where
  signer : Bool
  writable : Bool
  deriving DecidableEq

def Privileges.union (left right : Privileges) : Privileges :=
  ⟨left.signer || right.signer, left.writable || right.writable⟩

def Privileges.rank : Privileges → Nat
  | ⟨true, true⟩ => 0
  | ⟨true, false⟩ => 1
  | ⟨false, true⟩ => 2
  | ⟨false, false⟩ => 3

def AccountMeta.privileges (account : AccountMeta) : Privileges :=
  ⟨account.isSigner, account.isWritable⟩

/-- The keys mentioned so far, the last one first, and what each has been granted. -/
structure KeyTable where
  mentioned : List PublicKey
  granted : Std.HashMap PublicKey Privileges

namespace KeyTable

def empty : KeyTable := ⟨[], ∅⟩

def add (table : KeyTable) (mention : AccountMeta) : KeyTable :=
  let asked : Privileges := ⟨mention.isSigner, mention.isWritable⟩
  match table.granted[mention.publicKey]? with
  | some held =>
      { table with granted := table.granted.insert mention.publicKey (held.union asked) }
  | none =>
      ⟨mention.publicKey :: table.mentioned, table.granted.insert mention.publicKey asked⟩

def ofMentions (mentions : List AccountMeta) : KeyTable := mentions.foldl add empty

def metas (table : KeyTable) : List AccountMeta :=
  table.mentioned.reverse.map fun key =>
    let held := table.granted.getD key ⟨false, false⟩
    ⟨key, held.signer, held.writable⟩

end KeyTable

namespace Message

def maxAccountKeys : Nat := 256

/-- Every mention of a key: the fee payer, all accounts, then all programs, which ask for nothing. -/
def mentions (instructions : List Instruction) (feePayer : PublicKey) : List AccountMeta :=
  ⟨feePayer, true, true⟩ ::
    (instructions.flatMap Instruction.accounts ++
      instructions.map fun instruction => ⟨instruction.program, false, false⟩)

/-- The sort is stable: inside a class of privileges the order stays. -/
def orderByClass (metas : List AccountMeta) : List AccountMeta :=
  metas.mergeSort fun first second => first.privileges.rank ≤ second.privileges.rank

def classCount (accounts : Nat) : Except WireError UInt8 :=
  if accounts ≤ 255 then .ok (UInt8.ofNat accounts)
  else .error (.invalidHeader (.classTooLarge accounts))

def headerOf (metas : List AccountMeta) : Except WireError MessageHeader := do
  let requiredSignatures ← classCount (metas.countP AccountMeta.isSigner)
  let readonlySigned ←
    classCount (metas.countP fun account => account.isSigner && !account.isWritable)
  let readonlyUnsigned ←
    classCount (metas.countP fun account => !account.isSigner && !account.isWritable)
  return ⟨requiredSignatures, readonlySigned, readonlyUnsigned⟩

def compileInstruction (positions : Std.HashMap PublicKey Nat) (instruction : Instruction) :
    Except WireError CompiledInstruction := do
  let position (key : PublicKey) : Except WireError UInt8 :=
    match positions[key]? with
    | some index => .ok (UInt8.ofNat index)
    | none => .error (.indexOutOfRange positions.size positions.size)
  let programIndex ← position instruction.program
  let accounts ← instruction.accounts.mapM fun account => position account.publicKey
  return ⟨programIndex, accounts, instruction.data⟩

def compile (instructions : List Instruction) (feePayer : PublicKey) (recentBlockhash : Hash) :
    Except WireError Message := do
  let metas := orderByClass (KeyTable.ofMentions (mentions instructions feePayer)).metas
  if maxAccountKeys < metas.length then
    throw (.indexOutOfRange (metas.length - 1) maxAccountKeys)
  let header ← headerOf metas
  let accountKeys := metas.map AccountMeta.publicKey
  let positions := Std.HashMap.ofList accountKeys.zipIdx
  let compiled ← instructions.mapM (compileInstruction positions)
  return ⟨header, accountKeys, recentBlockhash, compiled⟩

end Message

end LedgerWire
