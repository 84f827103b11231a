import LedgerWire.FixedBytes

/-!
Addresses that the ledger itself owns: native programs and the accounts that publish its state.
-/

namespace LedgerWire

inductive WellKnown where
  | system
  | stake
  | stakeConfig
  | vote
  | computeBudget
  | sysvarClock
  | sysvarRent
  | sysvarRecentBlockhashes
  | sysvarStakeHistory
  deriving DecidableEq, Repr

namespace WellKnown

def all : List WellKnown :=
  [system, stake, stakeConfig, vote, computeBudget, sysvarClock, sysvarRent,
    sysvarRecentBlockhashes, sysvarStakeHistory]

def name : WellKnown → String
  | system => "system"
  | stake => "stake"
  | stakeConfig => "stake-config"
  | vote => "vote"
  | computeBudget => "compute-budget"
  | sysvarClock => "sysvar-clock"
  | sysvarRent => "sysvar-rent"
  | sysvarRecentBlockhashes => "sysvar-recent-blockhashes"
  | sysvarStakeHistory => "sysvar-stake-history"

def key : WellKnown → PublicKey
  | system => FixedBytes.zero .publicKey
  | stake =>
      ⟨[6, 161, 216, 23, 145, 55, 84, 42, 152, 52, 55, 189, 254, 42, 122, 178, 85, 127, 83, 92,
        138, 120, 114, 43, 104, 164, 157, 192, 0, 0, 0, 0], rfl⟩
  | stakeConfig =>
      ⟨[6, 161, 216, 23, 165, 2, 5, 11, 104, 7, 145, 230, 206, 109, 184, 142, 30, 91, 113, 80,
        246, 31, 198, 121, 10, 78, 180, 209, 0, 0, 0, 0], rfl⟩
  | vote =>
      ⟨[7, 97, 72, 29, 53, 116, 116, 187, 124, 77, 118, 36, 235, 211, 189, 179, 216, 53, 94, 115,
        209, 16, 67, 252, 13, 163, 83, 128, 0, 0, 0, 0], rfl⟩
  | computeBudget =>
      ⟨[3, 6, 70, 111, 229, 33, 23, 50, 255, 236, 173, 186, 114, 195, 155, 231, 188, 140, 229,
        187, 197, 247, 18, 107, 44, 67, 155, 58, 64, 0, 0, 0], rfl⟩
  | sysvarClock =>
      ⟨[6, 167, 213, 23, 24, 199, 116, 201, 40, 86, 99, 152, 105, 29, 94, 182, 139, 94, 184, 163,
        155, 75, 109, 92, 115, 85, 91, 33, 0, 0, 0, 0], rfl⟩
  | sysvarRent =>
      ⟨[6, 167, 213, 23, 25, 44, 92, 81, 33, 140, 201, 76, 61, 74, 241, 127, 88, 218, 238, 8,
        155, 161, 253, 68, 227, 219, 217, 138, 0, 0, 0, 0], rfl⟩
  | sysvarRecentBlockhashes =>
      ⟨[6, 167, 213, 23, 25, 44, 86, 142, 224, 138, 132, 95, 115, 210, 151, 136, 207, 3, 92, 49,
        69, 178, 26, 179, 68, 216, 6, 46, 169, 64, 0, 0], rfl⟩
  | sysvarStakeHistory =>
      ⟨[6, 167, 213, 23, 25, 53, 132, 208, 254, 237, 155, 179, 67, 29, 19, 32, 107, 229, 68, 40,
        27, 87, 184, 86, 108, 197, 55, 95, 244, 0, 0, 0], rfl⟩

def ofKey? (key : PublicKey) : Option WellKnown := all.find? fun known => known.key == key

end WellKnown

end LedgerWire
