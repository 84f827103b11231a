import LedgerWire.WellKnown

/-!
Instructions as their authors write them, with each account named by its key, and the two
instructions of the system program that are built here.
-/

namespace LedgerWire

structure AccountMeta where
  publicKey : PublicKey
  isSigner : Bool
  isWritable : Bool
  deriving DecidableEq

structure Instruction where
  program : PublicKey
  accounts : List AccountMeta
  data : Bytes
  deriving DecidableEq

namespace SystemProgram

def transferTag : Nat := 2

def advanceNonceTag : Nat := 4

def transfer (source target : PublicKey) (lamports : UInt64) : Instruction where
  program := WellKnown.system.key
  accounts := [⟨source, true, true⟩, ⟨target, false, true⟩]
  data := LittleEndian.encode 4 transferTag ++ LittleEndian.encode 8 lamports.toNat

/-- A transaction whose blockhash is a durable nonce starts with this instruction. -/
def advanceNonce (nonce authority : PublicKey) : Instruction where
  program := WellKnown.system.key
  accounts :=
    [⟨nonce, false, true⟩, ⟨WellKnown.sysvarRecentBlockhashes.key, false, false⟩,
      ⟨authority, true, false⟩]
  data := LittleEndian.encode 4 advanceNonceTag

end SystemProgram

end LedgerWire
