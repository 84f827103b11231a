import LedgerWire.Account.Vote
import LedgerWire.Proofs.RecordFields

/-!
The layout of vote accounts: three lists behind their counts, an optional slot between them and a
region that is skipped. An account is decoded from exactly the data that starts with its written
form, whatever fills the region.
-/

namespace LedgerWire

namespace VoteLayout

def tag : VoteLayout → UInt32
  | withoutLatency => 1
  | current => 2

theorem ofTag_eq_ok_iff {number : UInt32} {layout : VoteLayout} :
    ofTag number = .ok layout ↔ number = layout.tag := by
  unfold ofTag
  split_ifs <;> cases layout <;> simp_all [tag]

theorem voteSize_pos (layout : VoteLayout) : 0 < layout.voteSize := by
  cases layout <;> decide

end VoteLayout

namespace LandedVote

def Fits (layout : VoteLayout) (vote : LandedVote) : Prop :=
  layout = .withoutLatency → vote.latency = 0

def write (layout : VoteLayout) (vote : LandedVote) : Bytes :=
  (match layout with
    | .withoutLatency => []
    | .current => [vote.latency]) ++
    LittleEndian.encode 8 vote.lockout.slot.toNat ++
    LittleEndian.encode 4 vote.lockout.confirmationCount.toNat

theorem length_write (layout : VoteLayout) (vote : LandedVote) :
    (vote.write layout).length = layout.voteSize := by
  cases layout <;> simp [write, LittleEndian.length_encode, VoteLayout.voteSize]

theorem decoder_withoutLatency : decoder .withoutLatency =
    (Decoder.word64 >>= fun slot => Decoder.word32 >>= fun count => pure ⟨0, slot, count⟩) :=
  rfl

theorem decoder_current : decoder .current =
    (Decoder.byte >>= fun latency => Decoder.word64 >>= fun slot =>
      Decoder.word32 >>= fun count => pure ⟨latency, slot, count⟩) :=
  rfl

instance local_decoder (layout : VoteLayout) : (decoder layout).Local := by
  cases layout
  · rw [decoder_withoutLatency]
    infer_instance
  · rw [decoder_current]
    infer_instance

instance spans_decoder (layout : VoteLayout) : (decoder layout).Spans layout.voteSize := by
  cases layout
  · rw [decoder_withoutLatency]
    exact inferInstanceAs (Decoder.Spans _ (8 + (4 + 0)))
  · rw [decoder_current]
    exact inferInstanceAs (Decoder.Spans _ (1 + (8 + (4 + 0))))

theorem reads_decoder_iff (layout : VoteLayout) (taken : Bytes) (vote : LandedVote) :
    (decoder layout).Reads taken vote ↔ vote.Fits layout ∧ taken = vote.write layout := by
  cases layout with
  | withoutLatency =>
      simp only [decoder_withoutLatency, ↓Decoder.reads_last_field_iff, Decoder.reads_field_iff]
      constructor
      · rintro ⟨slot, _, rfl, confirmations, rfl, rfl⟩
        exact ⟨fun _ => rfl, rfl⟩
      · rintro ⟨fits, rfl⟩
        refine ⟨vote.lockout.slot, _, rfl, vote.lockout.confirmationCount, rfl, ?_⟩
        rw [← fits rfl]
  | current =>
      simp only [decoder_current, ↓Decoder.reads_last_field_iff, Decoder.reads_field_iff]
      constructor
      · rintro ⟨latency, _, rfl, slot, _, rfl, confirmations, rfl, rfl⟩
        exact ⟨VoteLayout.noConfusion, rfl⟩
      · rintro ⟨_, rfl⟩
        exact ⟨vote.latency, _, rfl, vote.lockout.slot, _, rfl, vote.lockout.confirmationCount, rfl,
          rfl⟩

end LandedVote

namespace AuthorizedVoter

def write (voter : AuthorizedVoter) : Bytes :=
  LittleEndian.encode 8 voter.epoch.toNat ++ voter.publicKey.bytes

instance local_decoder : decoder.Local := by
  unfold decoder
  infer_instance

instance spans_decoder : decoder.Spans 40 := by
  unfold decoder
  exact inferInstanceAs (Decoder.Spans _ (8 + (32 + 0)))

instance readsBack_decoder : decoder.ReadsBack write where
  reads_iff := by
    intro taken voter
    simp only [decoder, ↓Decoder.reads_last_field_iff, Decoder.reads_field_iff]
    constructor
    · rintro ⟨epoch, _, rfl, key, rfl, rfl⟩
      rfl
    · rintro rfl
      exact ⟨voter.epoch, _, rfl, voter.publicKey, rfl, rfl⟩

end AuthorizedVoter

namespace EpochCredits

def write (entry : EpochCredits) : Bytes :=
  LittleEndian.encode 8 entry.epoch.toNat ++ LittleEndian.encode 8 entry.credits.toNat ++
    LittleEndian.encode 8 entry.previousCredits.toNat

instance local_decoder : decoder.Local := by
  unfold decoder
  infer_instance

instance spans_decoder : decoder.Spans 24 := by
  unfold decoder
  exact inferInstanceAs (Decoder.Spans _ (8 + (8 + (8 + 0))))

instance readsBack_decoder : decoder.ReadsBack write where
  reads_iff := by
    intro taken entry
    simp only [decoder, ↓Decoder.reads_last_field_iff, Decoder.reads_field_iff, write,
      List.append_assoc]
    constructor
    · rintro ⟨epoch, _, rfl, credits, _, rfl, previous, rfl, rfl⟩
      rfl
    · rintro rfl
      exact ⟨entry.epoch, _, rfl, entry.credits, _, rfl, entry.previousCredits, rfl, rfl⟩

end EpochCredits

namespace BlockTimestamp

def write (last : BlockTimestamp) : Bytes :=
  LittleEndian.encode 8 last.slot.toNat ++
    LittleEndian.encode 8 last.timestamp.toUInt64.toNat

instance local_decoder : decoder.Local := by
  unfold decoder
  infer_instance

instance readsBack_decoder : decoder.ReadsBack write where
  reads_iff := by
    intro taken last
    simp only [decoder, ↓Decoder.reads_last_field_iff, Decoder.reads_field_iff]
    constructor
    · rintro ⟨slot, _, rfl, time, rfl, rfl⟩
      rfl
    · rintro rfl
      exact ⟨last.slot, _, rfl, last.timestamp, rfl, rfl⟩

end BlockTimestamp

namespace VoteAccount

def writeRootSlot : Option UInt64 → Bytes
  | none => [0]
  | some slot => 1 :: LittleEndian.encode 8 slot.toNat

def rootSlotAt (offset : Nat) : Decoder (Option UInt64) :=
  Decoder.byte >>= fun tag =>
    if tag = 0 then pure none
    else if tag = 1 then Decoder.word64 >>= fun slot => pure (some slot)
    else throw (.invalidEncoding .voteAccount (.optionTag tag offset))

theorem rootSlotDecoder_eq : rootSlotDecoder = (Decoder.position >>= rootSlotAt) := rfl

instance local_rootSlotAt (offset : Nat) : (rootSlotAt offset).Local := by
  unfold rootSlotAt
  infer_instance

theorem reads_rootSlotAt_iff (offset : Nat) {taken : Bytes} {root : Option UInt64} :
    (rootSlotAt offset).Reads taken root ↔ taken = writeRootSlot root := by
  simp only [rootSlotAt, Decoder.reads_field_iff]
  constructor
  · rintro ⟨tag, back, rfl, read⟩
    split_ifs at read with absent present
    · obtain ⟨rfl, rfl⟩ := Decoder.reads_pure_iff.mp read
      rw [absent]
      rfl
    · obtain ⟨slot, readSlot, rfl⟩ := Decoder.reads_map_iff.mp read
      rw [present, Decoder.reads_word64_iff.mp readSlot]
      rfl
    · exact absurd read Decoder.not_reads_throw
  · rintro rfl
    cases root with
    | none => exact ⟨0, [], rfl, Decoder.reads_pure_iff.mpr ⟨rfl, rfl⟩⟩
    | some slot =>
        exact ⟨1, _, rfl, Decoder.reads_map_iff.mpr ⟨slot, Decoder.reads_word64_iff.mpr rfl, rfl⟩⟩

instance local_rootSlotDecoder : rootSlotDecoder.Local := by
  rw [rootSlotDecoder_eq]
  refine Decoder.local_position_bind ?_
  intro offset other bytes root read
  rwa [reads_rootSlotAt_iff] at read ⊢

instance readsBack_rootSlotDecoder : rootSlotDecoder.ReadsBack writeRootSlot where
  reads_iff := by
    intro taken root
    simp only [rootSlotDecoder_eq, Decoder.reads_position_bind_iff, reads_rootSlotAt_iff,
      forall_const]

theorem decoder_eq : decoder = (Decoder.word32 >>= fun tag =>
    ofExcept (VoteLayout.ofTag tag) >>= fun layout =>
    Decoder.fixed .publicKey >>= fun node =>
    Decoder.fixed .publicKey >>= fun withdrawer =>
    Decoder.byte >>= fun commission =>
    Decoder.counted layout.voteSize (LandedVote.decoder layout) >>= fun votes =>
    rootSlotDecoder >>= fun root =>
    Decoder.counted 40 AuthorizedVoter.decoder >>= fun voters =>
    Decoder.skip priorVotersSize >>= fun _ =>
    Decoder.counted 24 EpochCredits.decoder >>= fun credits =>
    BlockTimestamp.decoder >>= fun last =>
    pure ⟨layout, node, withdrawer, commission, votes, root, voters, credits, last⟩) := by
  simp only [decoder, Decoder.counted, bind_assoc]

/-- The written form, with these bytes in the region that is skipped. -/
def write (account : VoteAccount) (prior : Bytes) : Bytes :=
  LittleEndian.encode 4 account.layout.tag.toNat ++ account.node.bytes ++
    account.authorizedWithdrawer.bytes ++ [account.commission] ++
    Decoder.writeCounted (LandedVote.write account.layout) account.votes ++
    writeRootSlot account.rootSlot ++
    Decoder.writeCounted AuthorizedVoter.write account.authorizedVoters ++ prior ++
    Decoder.writeCounted EpochCredits.write account.epochCredits ++ account.lastTimestamp.write

/-- Each count is one that its check lets pass, whatever follows. -/
structure Counted (account : VoteAccount) : Prop where
  votes : account.votes.length * account.layout.voteSize ≤ Decoder.maxSize
  voters : account.authorizedVoters.length * 40 ≤ Decoder.maxSize
  credits : account.epochCredits.length * 24 ≤ Decoder.maxSize

theorem reads_votes_iff (layout : VoteLayout) (taken : Bytes) (votes : List LandedVote) :
    (Decoder.counted layout.voteSize (LandedVote.decoder layout)).Reads taken votes ↔
      (votes.length * layout.voteSize ≤ Decoder.maxSize ∧ ∀ vote ∈ votes, vote.Fits layout) ∧
        taken = Decoder.writeCounted (LandedVote.write layout) votes :=
  Decoder.reads_counted_write_iff layout.voteSize_pos (LandedVote.reads_decoder_iff layout) taken
    votes

theorem reads_voters_iff (taken : Bytes) (voters : List AuthorizedVoter) :
    (Decoder.counted 40 AuthorizedVoter.decoder).Reads taken voters ↔
      voters.length * 40 ≤ Decoder.maxSize ∧
        taken = Decoder.writeCounted AuthorizedVoter.write voters :=
  Decoder.reads_counted_field_iff (by decide) taken voters

theorem reads_credits_iff (taken : Bytes) (entries : List EpochCredits) :
    (Decoder.counted 24 EpochCredits.decoder).Reads taken entries ↔
      entries.length * 24 ≤ Decoder.maxSize ∧
        taken = Decoder.writeCounted EpochCredits.write entries :=
  Decoder.reads_counted_field_iff (by decide) taken entries

instance local_decoder : decoder.Local := by
  rw [decoder_eq]
  infer_instance

theorem reads_decoder_iff {taken : Bytes} {account : VoteAccount} :
    decoder.Reads taken account ↔ account.Counted ∧
      (∀ vote ∈ account.votes, vote.Fits account.layout) ∧
      ∃ prior, prior.length = priorVotersSize ∧ taken = account.write prior := by
  simp only [decoder_eq, ↓Decoder.reads_last_field_iff, Decoder.reads_field_iff,
    Decoder.reads_ofExcept_bind_iff, VoteLayout.ofTag_eq_ok_iff,
    Decoder.reads_bind_write_iff (reads_votes_iff _),
    Decoder.reads_bind_write_iff reads_voters_iff, Decoder.reads_bind_write_iff reads_credits_iff,
    Decoder.reads_skip_bind_iff, write, List.append_assoc]
  constructor
  · rintro ⟨_, _, rfl, layout, rfl, node, _, rfl, withdrawer, _, rfl, commission, _, rfl,
      votes, _, ⟨votesBound, fits⟩, rfl, root, _, rfl, voters, _, votersBound, rfl,
      prior, _, size, rfl, credits, _, creditsBound, rfl, last, rfl, rfl⟩
    exact ⟨⟨votesBound, votersBound, creditsBound⟩, fits, prior, size, rfl⟩
  · rintro ⟨counted, fits, prior, size, rfl⟩
    exact ⟨account.layout.tag, _, rfl, account.layout, rfl, account.node, _, rfl,
      account.authorizedWithdrawer, _, rfl, account.commission, _, rfl,
      account.votes, _, ⟨counted.votes, fits⟩, rfl, account.rootSlot, _, rfl,
      account.authorizedVoters, _, counted.voters, rfl, prior, _, size, rfl,
      account.epochCredits, _, counted.credits, rfl, account.lastTimestamp, rfl, rfl⟩

variable {data : Bytes} {account : VoteAccount}

theorem decode_eq_ok_iff : decode data = .ok account ↔ minimumSize ≤ data.length ∧
    account.Counted ∧ (∀ vote ∈ account.votes, vote.Fits account.layout) ∧
      ∃ prior tail, prior.length = priorVotersSize ∧ data = account.write prior ++ tail := by
  simp only [decode, decodeRecord_eq_ok_iff, reads_decoder_iff]
  constructor
  · rintro ⟨enough, _, tail, rfl, counted, fits, prior, size, rfl⟩
    exact ⟨enough, counted, fits, prior, tail, size, rfl⟩
  · rintro ⟨enough, counted, fits, prior, tail, size, rfl⟩
    exact ⟨enough, _, tail, rfl, counted, fits, prior, size, rfl⟩

theorem length_write (account : VoteAccount) (prior : Bytes) :
    (account.write prior).length =
      109 + account.votes.length * account.layout.voteSize +
        (writeRootSlot account.rootSlot).length + account.authorizedVoters.length * 40 +
        prior.length + account.epochCredits.length * 24 := by
  have votes := Decoder.length_writeCounted (LandedVote.length_write account.layout) account.votes
  have voters := Decoder.length_writeCounted
    (Decoder.ReadsBack.length_write AuthorizedVoter.decoder) account.authorizedVoters
  have credits := Decoder.length_writeCounted
    (Decoder.ReadsBack.length_write EpochCredits.decoder) account.epochCredits
  simp only [write, BlockTimestamp.write, List.length_append, LittleEndian.length_encode,
    FixedBytes.length_eq, FixedBytes.Kind.size, List.length_singleton, votes, voters, credits]
  omega

theorem counted_of_length_write {prior : Bytes}
    (bound : (account.write prior).length ≤ Decoder.maxSize) : account.Counted := by
  rw [length_write] at bound
  constructor <;> omega

/-- The data of an account starts with its written form; what is skipped and what follows may be
anything. -/
theorem decode_iff_written (data : Bytes) (bounded : data.length < Nat.pow 2 63)
    (account : VoteAccount) :
    (decode data = .ok account ↔ 3762 ≤ data.length ∧
      (∃ prior tail, prior.length = 1545 ∧ data = account.write prior ++ tail) ∧
      (account.layout = .withoutLatency → ∀ vote ∈ account.votes, vote.latency = 0)) ∧
    (decode data = .ok account → ∀ prior tail, prior.length = 1545 →
      3762 ≤ (account.write prior ++ tail).length →
        decode (account.write prior ++ tail) = .ok account) := by
  have small : data.length ≤ Decoder.maxSize := Nat.le_trans (Nat.le_of_lt bounded) (by decide)
  have sizeEq : priorVotersSize = 1545 := rfl
  rw [← sizeEq]
  constructor
  · rw [decode_eq_ok_iff]
    constructor
    · rintro ⟨enough, _, fits, region⟩
      exact ⟨enough, region, fun older vote member => fits vote member older⟩
    · rintro ⟨enough, ⟨prior, tail, size, rfl⟩, fits⟩
      have bound : (account.write prior).length ≤ Decoder.maxSize := by
        rw [List.length_append] at small
        exact Nat.le_trans (Nat.le_add_right _ _) small
      exact ⟨enough, counted_of_length_write bound, fun vote member older => fits older vote member,
        prior, tail, size, rfl⟩
  · intro decoded prior tail size enough
    obtain ⟨_, counted, fits, _⟩ := decode_eq_ok_iff.mp decoded
    exact decode_eq_ok_iff.mpr ⟨enough, counted, fits, prior, tail, size, rfl⟩

theorem decode_iff_written_refilled :
    let account : VoteAccount :=
      ⟨.current, .filled .publicKey 1, .filled .publicKey 2, 7, [⟨2, 100, 31⟩, ⟨1, 101, 30⟩],
        some 99, [⟨5, .filled .publicKey 3⟩], [⟨4, 10, 0⟩, ⟨5, 25, 10⟩], ⟨101, -1⟩⟩
    let data := account.write (List.replicate 1545 8) ++ List.replicate 2000 9
    let refilled := account.write (List.replicate 1545 0) ++ List.replicate 2500 1
    data.length < Nat.pow 2 63 ∧ 3762 ≤ data.length ∧ decode data = .ok account ∧
      decode refilled = .ok account := by
  intro account data refilled
  have size (prior : Bytes) : (account.write prior).length = 232 + prior.length := by
    rw [length_write]
    exact Nat.add_right_comm _ _ _
  have length : data.length = 3777 := by
    rw [List.length_append, size, List.length_replicate, List.length_replicate]
  have bounded : data.length < Nat.pow 2 63 := by rw [length]; decide
  have enough : 3762 ≤ data.length := by rw [length]; decide
  have enoughRefilled : 3762 ≤ refilled.length := by
    rw [List.length_append, size, List.length_replicate, List.length_replicate]
    decide
  obtain ⟨accepts, ignores⟩ := decode_iff_written data bounded account
  have decoded : decode data = .ok account :=
    accepts.mpr ⟨enough, ⟨_, _, List.length_replicate, rfl⟩, nofun⟩
  exact ⟨bounded, enough, decoded, ignores decoded _ _ List.length_replicate enoughRefilled⟩

end VoteAccount

end LedgerWire
