import LedgerWire.Decoder

/-!
Vote accounts, in the two layouts that are read: the older one keeps no latency with a vote. Each
list follows its count in eight bytes, and a count must fit in what is left of the data.
-/

namespace LedgerWire

inductive VoteLayout where
  | withoutLatency
  | current
  deriving DecidableEq

namespace VoteLayout

def ofTag (tag : UInt32) : Except WireError VoteLayout :=
  if tag = 1 then .ok withoutLatency
  else if tag = 2 then .ok current
  else .error (.unsupportedVersion .voteAccount tag.toNat)

def voteSize : VoteLayout → Nat
  | withoutLatency => 12
  | current => 13

end VoteLayout

structure Lockout where
  slot : UInt64
  confirmationCount : UInt32
  deriving DecidableEq

structure LandedVote where
  latency : UInt8
  lockout : Lockout
  deriving DecidableEq

structure AuthorizedVoter where
  epoch : UInt64
  publicKey : PublicKey
  deriving DecidableEq

structure EpochCredits where
  epoch : UInt64
  credits : UInt64
  previousCredits : UInt64
  deriving DecidableEq

structure BlockTimestamp where
  slot : UInt64
  timestamp : Int64
  deriving DecidableEq

structure VoteAccount where
  layout : VoteLayout
  node : PublicKey
  authorizedWithdrawer : PublicKey
  commission : UInt8
  votes : List LandedVote
  rootSlot : Option UInt64
  authorizedVoters : List AuthorizedVoter
  epochCredits : List EpochCredits
  lastTimestamp : BlockTimestamp
  deriving DecidableEq

def LandedVote.decoder (layout : VoteLayout) : Decoder LandedVote := do
  let latency ←
    match layout with
    | .current => Decoder.byte
    | .withoutLatency => pure 0
  let slot ← Decoder.word64
  let confirmationCount ← Decoder.word32
  return ⟨latency, slot, confirmationCount⟩

def AuthorizedVoter.decoder : Decoder AuthorizedVoter := do
  let epoch ← Decoder.word64
  let publicKey ← Decoder.fixed .publicKey
  return ⟨epoch, publicKey⟩

def EpochCredits.decoder : Decoder EpochCredits := do
  let epoch ← Decoder.word64
  let credits ← Decoder.word64
  let previousCredits ← Decoder.word64
  return ⟨epoch, credits, previousCredits⟩

def BlockTimestamp.decoder : Decoder BlockTimestamp := do
  let slot ← Decoder.word64
  let timestamp ← Decoder.int64
  return ⟨slot, timestamp⟩

namespace VoteAccount

def minimumSize : Nat := 3762

/-- Thirty-two former voters of 48 bytes, an index and a flag; none of it is read. -/
def priorVotersSize : Nat := 32 * 48 + 8 + 1

def rootSlotDecoder : Decoder (Option UInt64) := do
  let offset ← Decoder.position
  let tag ← Decoder.byte
  if tag = 0 then return none
  else if tag = 1 then return some (← Decoder.word64)
  else throw (.invalidEncoding .voteAccount (.optionTag tag offset))

def decoder : Decoder VoteAccount := do
  let layout ← ofExcept (VoteLayout.ofTag (← Decoder.word32))
  let node ← Decoder.fixed .publicKey
  let authorizedWithdrawer ← Decoder.fixed .publicKey
  let commission ← Decoder.byte
  let voteCount ← Decoder.count layout.voteSize
  let votes ← Decoder.times voteCount (LandedVote.decoder layout)
  let rootSlot ← rootSlotDecoder
  let voterCount ← Decoder.count 40
  let authorizedVoters ← Decoder.times voterCount AuthorizedVoter.decoder
  Decoder.skip priorVotersSize
  let creditCount ← Decoder.count 24
  let epochCredits ← Decoder.times creditCount EpochCredits.decoder
  let lastTimestamp ← BlockTimestamp.decoder
  return ⟨layout, node, authorizedWithdrawer, commission, votes, rootSlot, authorizedVoters,
    epochCredits, lastTimestamp⟩

def decode (data : Bytes) : Except WireError VoteAccount :=
  decodeRecord "vote account" minimumSize decoder data

def lastVotedSlot? (account : VoteAccount) : Option UInt64 :=
  account.votes.getLast?.map fun vote => vote.lockout.slot

def credits (account : VoteAccount) : UInt64 :=
  match account.epochCredits.getLast? with
  | some entry => entry.credits
  | none => 0

/-- The entry in force at an epoch: of those that are not later, the one with the greatest epoch,
and of several such the last. -/
def entryAt? (voters : List AuthorizedVoter) (epoch : UInt64) : Option AuthorizedVoter :=
  voters.foldl (fun best voter =>
    if epoch < voter.epoch then best
    else
      match best with
      | none => some voter
      | some held => if voter.epoch < held.epoch then best else some voter) none

def authorizedVoter? (account : VoteAccount) (epoch : UInt64) : Option PublicKey :=
  (entryAt? account.authorizedVoters epoch).map AuthorizedVoter.publicKey

end VoteAccount

end LedgerWire
