import LedgerWire.Binary64
import LedgerWire.Decoder

/-!
Stake accounts: a state tag and the terms that bind the account, then, in data of full length, the
delegation. All numbers are little-endian.
-/

namespace LedgerWire

inductive StakeState where
  | uninitialized
  | initialized
  | delegated
  | rewardsPool
  | unknown (tag : UInt32)
  deriving DecidableEq

def StakeState.ofTag (tag : UInt32) : StakeState :=
  if tag = 0 then uninitialized
  else if tag = 1 then initialized
  else if tag = 2 then delegated
  else if tag = 3 then rewardsPool
  else unknown tag

structure Authorized where
  staker : PublicKey
  withdrawer : PublicKey
  deriving DecidableEq

structure Lockup where
  unixTimestamp : Int64
  epoch : UInt64
  custodian : PublicKey
  deriving DecidableEq

/-- The data keeps only the low four bytes of the time. -/
def Lockup.timestamp (lockup : Lockup) : UInt32 := lockup.unixTimestamp.toUInt64.toUInt32

structure StakeMeta where
  rentExemptReserve : UInt64
  authorized : Authorized
  lockup : Lockup
  deriving DecidableEq

structure Delegation where
  voter : PublicKey
  stake : UInt64
  activationEpoch : UInt64
  deactivationEpoch : UInt64
  warmupCooldownRate : Binary64
  deriving DecidableEq

structure Stake where
  delegation : Delegation
  creditsObserved : UInt64
  flags : UInt8
  deriving DecidableEq

structure StakeAccount where
  state : StakeState
  terms : StakeMeta
  stake : Option Stake
  deriving DecidableEq

def StakeMeta.decoder : Decoder StakeMeta := do
  let rentExemptReserve ← Decoder.word64
  let staker ← Decoder.fixed .publicKey
  let withdrawer ← Decoder.fixed .publicKey
  let timestamp ← Decoder.word32
  let epoch ← Decoder.word64
  let custodian ← Decoder.fixed .publicKey
  return ⟨rentExemptReserve, ⟨staker, withdrawer⟩,
    ⟨timestamp.toUInt64.toInt64, epoch, custodian⟩⟩

def Stake.decoder : Decoder Stake := do
  let voter ← Decoder.fixed .publicKey
  let stake ← Decoder.word64
  let activationEpoch ← Decoder.word64
  let deactivationEpoch ← Decoder.word64
  let warmupCooldownRate ← Decoder.word64
  let creditsObserved ← Decoder.word64
  let flags ← Decoder.byte
  return ⟨⟨voter, stake, activationEpoch, deactivationEpoch, ⟨warmupCooldownRate⟩⟩,
    creditsObserved, flags⟩

namespace StakeAccount

def minimumSize : Nat := 120

def fullSize : Nat := 200

/-- Four unused bytes stand before the delegation. -/
def decoder (isFull : Bool) : Decoder StakeAccount := do
  let state := StakeState.ofTag (← Decoder.word32)
  let terms ← StakeMeta.decoder
  if isFull then
    Decoder.skip 4
    return ⟨state, terms, some (← Stake.decoder)⟩
  else return ⟨state, terms, none⟩

def decode (data : Bytes) : Except WireError StakeAccount :=
  decodeRecord "stake account" minimumSize (decoder (fullSize ≤ data.length)) data

def isDelegated (account : StakeAccount) : Bool :=
  account.state == .delegated && account.stake.isSome

def activeVoter? (account : StakeAccount) : Option PublicKey :=
  match account.state, account.stake with
  | .delegated, some stake =>
      if stake.delegation.deactivationEpoch = UInt64.ofNat (UInt64.size - 1) then
        some stake.delegation.voter
      else none
  | _, _ => none

end StakeAccount

end LedgerWire
