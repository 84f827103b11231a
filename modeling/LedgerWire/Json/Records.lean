import LedgerWire.Json.Form
import LedgerWire.Transaction.Basic

/-!
The JSON forms of instructions, messages and transactions. Nothing is checked beyond the shape: a
message that no wire would carry has a form as well.
-/

namespace LedgerWire

open Json

instance : Form AccountMeta where
  toJson account :=
    object [("pubkey", toJson account.publicKey), ("isSigner", toJson account.isSigner),
      ("isWritable", toJson account.isWritable)]
  ofJson
    | object fields => do
        let isSigner ← optional fields "isSigner"
        let isWritable ← optional fields "isWritable"
        let publicKey ← optional fields "pubkey"
        return ⟨← require "pubkey" publicKey, ← require "isSigner" isSigner,
          ← require "isWritable" isWritable⟩
    | array items => do
        let publicKey ← element "AccountMeta" 3 items 0
        let isSigner ← element "AccountMeta" 3 items 1
        let isWritable ← element "AccountMeta" 3 items 2
        noMore 3 items
        return ⟨publicKey, isSigner, isWritable⟩
    | other => .error (.invalidType other (.record "AccountMeta"))

instance : Form Instruction where
  toJson instruction :=
    object [("programId", toJson instruction.program), ("accounts", toJson instruction.accounts),
      ("data", toJson (HexData.mk instruction.data))]
  ofJson
    | object fields => do
        let accounts ← optional fields "accounts"
        let data : Option HexData ← optional fields "data"
        let program ← optional fields "programId"
        return ⟨← require "programId" program, ← require "accounts" accounts,
          (← require "data" data).bytes⟩
    | array items => do
        let program ← element "Instruction" 3 items 0
        let accounts ← element "Instruction" 3 items 1
        let data : HexData ← element "Instruction" 3 items 2
        noMore 3 items
        return ⟨program, accounts, data.bytes⟩
    | other => .error (.invalidType other (.record "Instruction"))

instance : Form MessageHeader where
  toJson header :=
    object [("numRequiredSignatures", toJson header.requiredSignatures),
      ("numReadonlySignedAccounts", toJson header.readonlySigned),
      ("numReadonlyUnsignedAccounts", toJson header.readonlyUnsigned)]
  ofJson
    | object fields => do
        let readonlySigned ← optional fields "numReadonlySignedAccounts"
        let readonlyUnsigned ← optional fields "numReadonlyUnsignedAccounts"
        let requiredSignatures ← optional fields "numRequiredSignatures"
        return ⟨← require "numRequiredSignatures" requiredSignatures,
          ← require "numReadonlySignedAccounts" readonlySigned,
          ← require "numReadonlyUnsignedAccounts" readonlyUnsigned⟩
    | array items => do
        let requiredSignatures ← element "MessageHeader" 3 items 0
        let readonlySigned ← element "MessageHeader" 3 items 1
        let readonlyUnsigned ← element "MessageHeader" 3 items 2
        noMore 3 items
        return ⟨requiredSignatures, readonlySigned, readonlyUnsigned⟩
    | other => .error (.invalidType other (.record "MessageHeader"))

instance : Form CompiledInstruction where
  toJson instruction :=
    object [("programIdIndex", toJson instruction.programIndex),
      ("accounts", toJson instruction.accounts), ("data", toJson (HexData.mk instruction.data))]
  ofJson
    | object fields => do
        let accounts ← optional fields "accounts"
        let data : Option HexData ← optional fields "data"
        let programIndex ← optional fields "programIdIndex"
        return ⟨← require "programIdIndex" programIndex, ← require "accounts" accounts,
          (← require "data" data).bytes⟩
    | array items => do
        let programIndex ← element "CompiledInstruction" 3 items 0
        let accounts ← element "CompiledInstruction" 3 items 1
        let data : HexData ← element "CompiledInstruction" 3 items 2
        noMore 3 items
        return ⟨programIndex, accounts, data.bytes⟩
    | other => .error (.invalidType other (.record "CompiledInstruction"))

instance : Form Message where
  toJson message :=
    object [("header", toJson message.header), ("accountKeys", toJson message.accountKeys),
      ("recentBlockhash", toJson message.recentBlockhash),
      ("instructions", toJson message.instructions)]
  ofJson
    | object fields => do
        let accountKeys ← optional fields "accountKeys"
        let header ← optional fields "header"
        let instructions ← optional fields "instructions"
        let recentBlockhash ← optional fields "recentBlockhash"
        return ⟨← require "header" header, ← require "accountKeys" accountKeys,
          ← require "recentBlockhash" recentBlockhash, ← require "instructions" instructions⟩
    | array items => do
        let header ← element "Message" 4 items 0
        let accountKeys ← element "Message" 4 items 1
        let recentBlockhash ← element "Message" 4 items 2
        let instructions ← element "Message" 4 items 3
        noMore 4 items
        return ⟨header, accountKeys, recentBlockhash, instructions⟩
    | other => .error (.invalidType other (.record "Message"))

instance : Form Transaction where
  toJson transaction :=
    object [("signatures", toJson transaction.signatures),
      ("message", toJson transaction.message)]
  ofJson
    | object fields => do
        let message ← optional fields "message"
        let signatures ← optional fields "signatures"
        return ⟨← require "signatures" signatures, ← require "message" message⟩
    | array items => do
        let signatures ← element "Transaction" 2 items 0
        let message ← element "Transaction" 2 items 1
        noMore 2 items
        return ⟨signatures, message⟩
    | other => .error (.invalidType other (.record "Transaction"))

end LedgerWire
