import LedgerWire.Account.Stake
import LedgerWire.Account.Vote
import LedgerWire.Json.Form

/-!
The JSON of decoded accounts. It is written only.
-/

namespace LedgerWire

open Json

def Json.word32 (value : UInt32) : Json := integer value.toNat

def Json.word64 (value : UInt64) : Json := integer value.toNat

def StakeState.json : StakeState → Json
  | uninitialized => string "uninitialized"
  | initialized => string "initialized"
  | delegated => string "delegated"
  | rewardsPool => string "rewardsPool"
  | unknown tag => object [("unknown", word32 tag)]

def StakeMeta.json (terms : StakeMeta) : Json :=
  let authorized := terms.authorized
  let lockup := terms.lockup
  object [("rentExemptReserve", word64 terms.rentExemptReserve),
    ("authorized",
      object [("staker", toJson authorized.staker), ("withdrawer", toJson authorized.withdrawer)]),
    ("lockup",
      object [("unixTimestamp", integer lockup.unixTimestamp.toInt), ("epoch", word64 lockup.epoch),
        ("custodian", toJson lockup.custodian)])]

def Delegation.json (delegation : Delegation) : Json :=
  object [("voterPubkey", toJson delegation.voter), ("stake", word64 delegation.stake),
    ("activationEpoch", word64 delegation.activationEpoch),
    ("deactivationEpoch", word64 delegation.deactivationEpoch),
    ("warmupCooldownRate", float delegation.warmupCooldownRate)]

def Stake.json (stake : Stake) : Json :=
  object [("delegation", stake.delegation.json), ("creditsObserved", word64 stake.creditsObserved),
    ("flags", toJson stake.flags)]

def StakeAccount.json (account : StakeAccount) : Json :=
  object [("state", account.state.json), ("meta", account.terms.json),
    ("stake", (account.stake.map Stake.json).getD null)]

def VoteLayout.name : VoteLayout → String
  | withoutLatency => "V1_14_11"
  | current => "Current"

def LandedVote.json (vote : LandedVote) : Json :=
  object [("latency", toJson vote.latency),
    ("lockout",
      object [("slot", word64 vote.lockout.slot),
        ("confirmationCount", word32 vote.lockout.confirmationCount)])]

def AuthorizedVoter.json (voter : AuthorizedVoter) : Json :=
  object [("epoch", word64 voter.epoch), ("pubkey", toJson voter.publicKey)]

def EpochCredits.json (entry : EpochCredits) : Json :=
  object [("epoch", word64 entry.epoch), ("credits", word64 entry.credits),
    ("previousCredits", word64 entry.previousCredits)]

def VoteAccount.json (account : VoteAccount) : Json :=
  object [("version", string account.layout.name), ("nodePubkey", toJson account.node),
    ("authorizedWithdrawer", toJson account.authorizedWithdrawer),
    ("commission", toJson account.commission),
    ("votes", array (account.votes.map LandedVote.json)),
    ("rootSlot", (account.rootSlot.map word64).getD null),
    ("authorizedVoters", array (account.authorizedVoters.map AuthorizedVoter.json)),
    ("epochCredits", array (account.epochCredits.map EpochCredits.json)),
    ("lastTimestamp",
      object [("slot", word64 account.lastTimestamp.slot),
        ("timestamp", integer account.lastTimestamp.timestamp.toInt)])]

end LedgerWire
