import LedgerWire.Json.Records
import LedgerWire.Transaction.Signing

/-!
Messages and transactions as they are shown: keys with their privileges, the known ones with their
names, and instructions with the keys they touch.
-/

namespace LedgerWire

open Json

structure KeyView where
  publicKey : PublicKey
  isSigner : Bool
  isWritable : Bool
  known : Option WellKnown
  deriving DecidableEq

structure MessageView where
  header : MessageHeader
  accountKeys : List KeyView
  recentBlockhash : Hash
  usesDurableNonce : Bool
  instructions : List Instruction
  deriving DecidableEq

structure TransactionView where
  signatures : List Signature
  isFullySigned : Bool
  isVerified : Bool
  size : Nat
  message : MessageView
  deriving DecidableEq

def KeyView.ofMeta (account : AccountMeta) : KeyView :=
  ⟨account.publicKey, account.isSigner, account.isWritable, WellKnown.ofKey? account.publicKey⟩

def MessageView.ofMessage (message : Message) : Except WireError MessageView := do
  let instructions ← message.decompile
  return {
    header := message.header
    accountKeys := message.accountMetas.map KeyView.ofMeta
    recentBlockhash := message.recentBlockhash
    usesDurableNonce := message.usesDurableNonce
    instructions }

def TransactionView.ofTransaction (transaction : Transaction) (isVerified : Bool) (size : Nat) :
    Except WireError TransactionView := do
  let message ← MessageView.ofMessage transaction.message
  return ⟨transaction.signatures, transaction.isFullySigned, isVerified, size, message⟩

def KeyView.json (view : KeyView) : Json :=
  let name := view.known.map fun known => ("program", string known.name)
  object ([("pubkey", toJson view.publicKey), ("signer", toJson view.isSigner),
    ("writable", toJson view.isWritable)] ++ name.toList)

def MessageView.json (view : MessageView) : Json :=
  object [("header", toJson view.header),
    ("accountKeys", array (view.accountKeys.map KeyView.json)),
    ("recentBlockhash", toJson view.recentBlockhash),
    ("usesDurableNonce", toJson view.usesDurableNonce),
    ("instructions", toJson view.instructions)]

def TransactionView.json (view : TransactionView) : Json :=
  object [("signatures", toJson view.signatures), ("fullySigned", toJson view.isFullySigned),
    ("verified", toJson view.isVerified), ("size", integer view.size),
    ("message", view.message.json)]

end LedgerWire
