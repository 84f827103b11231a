import LedgerWire.Decoder
import LedgerWire.Message.Basic

/-!
The bytes of a message: header, account keys, blockhash, then instructions, with a compact length
before each list. These are the bytes that signers sign.
-/

namespace LedgerWire

namespace CompiledInstruction

def encode (instruction : CompiledInstruction) : Except WireError Bytes := do
  let accountCount ← CompactLength.encode instruction.accounts.length
  let dataLength ← CompactLength.encode instruction.data.length
  return instruction.programIndex ::
    (accountCount ++ instruction.accounts ++ dataLength ++ instruction.data)

def encodedSize (instruction : CompiledInstruction) : Nat :=
  let accountCount := instruction.accounts.length
  let dataLength := instruction.data.length
  1 + CompactLength.encodedLength accountCount + accountCount +
    CompactLength.encodedLength dataLength + dataLength

def decoder : Decoder CompiledInstruction := do
  let programIndex ← Decoder.byte
  let accounts ← Decoder.bytes (← Decoder.compactLength)
  let data ← Decoder.bytes (← Decoder.compactLength)
  return ⟨programIndex, accounts, data⟩

end CompiledInstruction

namespace MessageHeader

def encode (header : MessageHeader) : Bytes :=
  [header.requiredSignatures, header.readonlySigned, header.readonlyUnsigned]

/-- The top bit of the first byte marks a version that is not read here. -/
def decoder : Decoder MessageHeader := do
  let requiredSignatures ← Decoder.byte
  if 128 ≤ requiredSignatures then
    throw (.unsupportedVersion .message (requiredSignatures.toNat - 128))
  let readonlySigned ← Decoder.byte
  let readonlyUnsigned ← Decoder.byte
  return ⟨requiredSignatures, readonlySigned, readonlyUnsigned⟩

end MessageHeader

namespace Message

def encode (message : Message) : Except WireError Bytes := do
  let keyCount ← CompactLength.encode message.accountKeys.length
  let instructionCount ← CompactLength.encode message.instructions.length
  let instructions ← message.instructions.mapM CompiledInstruction.encode
  return message.header.encode ++ (keyCount ++ (message.accountKeys.flatMap FixedBytes.bytes ++
    (message.recentBlockhash.bytes ++ (instructionCount ++ instructions.flatten))))

def encodedSize (message : Message) : Nat :=
  3 + CompactLength.encodedLength message.accountKeys.length + message.accountKeys.length * 32 +
    32 + CompactLength.encodedLength message.instructions.length +
    message.instructions.foldr (fun instruction total => instruction.encodedSize + total) 0

def decoder : Decoder Message := do
  let header ← MessageHeader.decoder
  let accountKeys ← Decoder.times (← Decoder.compactLength) (Decoder.fixed .publicKey)
  let recentBlockhash ← Decoder.fixed .hash
  let instructions ← Decoder.times (← Decoder.compactLength) CompiledInstruction.decoder
  let message : Message := ⟨header, accountKeys, recentBlockhash, instructions⟩
  ofExcept message.check
  return message

def decode (bytes : Bytes) : Except WireError Message :=
  Decoder.runOn (do let message ← decoder; Decoder.finish; return message)
    (Cursor.ofBytes bytes none)

end Message

end LedgerWire
