import LedgerWire.Account.Stake
import LedgerWire.Proofs.RecordFields

/-!
The layout of stake accounts: what a decoded account writes back is what stood in the data, in the
terms at its start and, in data of full length, in the delegation behind the gap.
-/

namespace LedgerWire

namespace StakeState

def tag : StakeState → UInt32
  | uninitialized => 0
  | initialized => 1
  | delegated => 2
  | rewardsPool => 3
  | unknown tag => tag

theorem tag_ofTag (number : UInt32) : (ofTag number).tag = number := by
  unfold ofTag
  split_ifs <;> simp_all [tag]

end StakeState

namespace Lockup

def Fits (lockup : Lockup) : Prop := lockup.timestamp.toUInt64.toInt64 = lockup.unixTimestamp

theorem timestamp_mk (time : UInt32) (epoch : UInt64) (custodian : PublicKey) :
    (Lockup.mk time.toUInt64.toInt64 epoch custodian).timestamp = time := by
  simp [timestamp]

end Lockup

namespace StakeMeta

def write (terms : StakeMeta) : Bytes :=
  LittleEndian.encode 8 terms.rentExemptReserve.toNat ++ terms.authorized.staker.bytes ++
    terms.authorized.withdrawer.bytes ++ LittleEndian.encode 4 terms.lockup.timestamp.toNat ++
    LittleEndian.encode 8 terms.lockup.epoch.toNat ++ terms.lockup.custodian.bytes

instance local_decoder : decoder.Local := by
  unfold decoder
  infer_instance

instance spans_decoder : decoder.Spans 116 := by
  unfold decoder
  exact inferInstanceAs (Decoder.Spans _ (8 + (32 + (32 + (4 + (8 + (32 + 0)))))))

theorem reads_decoder_iff {taken : Bytes} {terms : StakeMeta} :
    decoder.Reads taken terms ↔ terms.lockup.Fits ∧ taken = terms.write := by
  simp only [decoder, ↓Decoder.reads_last_field_iff, Decoder.reads_field_iff, write,
    List.append_assoc]
  constructor
  · rintro ⟨rent, _, rfl, staker, _, rfl, withdrawer, _, rfl, time, _, rfl, epoch, _, rfl,
      custodian, rfl, rfl⟩
    have same := Lockup.timestamp_mk time epoch custodian
    refine ⟨congrArg (fun word : UInt32 => word.toUInt64.toInt64) same, ?_⟩
    rw [same]
  · rintro ⟨fits, rfl⟩
    refine ⟨terms.rentExemptReserve, _, rfl, terms.authorized.staker, _, rfl,
      terms.authorized.withdrawer, _, rfl, terms.lockup.timestamp, _, rfl, terms.lockup.epoch, _,
      rfl, terms.lockup.custodian, rfl, ?_⟩
    rw [fits]

end StakeMeta

namespace Stake

def write (stake : Stake) : Bytes :=
  stake.delegation.voter.bytes ++ LittleEndian.encode 8 stake.delegation.stake.toNat ++
    LittleEndian.encode 8 stake.delegation.activationEpoch.toNat ++
    LittleEndian.encode 8 stake.delegation.deactivationEpoch.toNat ++
    LittleEndian.encode 8 stake.delegation.warmupCooldownRate.bits.toNat ++
    LittleEndian.encode 8 stake.creditsObserved.toNat ++ [stake.flags]

instance local_decoder : decoder.Local := by
  unfold decoder
  infer_instance

instance spans_decoder : decoder.Spans 73 := by
  unfold decoder
  exact inferInstanceAs (Decoder.Spans _ (32 + (8 + (8 + (8 + (8 + (8 + (1 + 0))))))))

theorem reads_decoder_iff {taken : Bytes} {stake : Stake} :
    decoder.Reads taken stake ↔ taken = stake.write := by
  simp only [decoder, ↓Decoder.reads_last_field_iff, Decoder.reads_field_iff, write,
    List.append_assoc]
  constructor
  · rintro ⟨voter, _, rfl, amount, _, rfl, activation, _, rfl, deactivation, _, rfl, rate, _, rfl,
      credits, _, rfl, flags, rfl, rfl⟩
    rfl
  · rintro rfl
    exact ⟨stake.delegation.voter, _, rfl, stake.delegation.stake, _, rfl,
      stake.delegation.activationEpoch, _, rfl, stake.delegation.deactivationEpoch, _, rfl,
      stake.delegation.warmupCooldownRate.bits, _, rfl, stake.creditsObserved, _, rfl, stake.flags,
      rfl, rfl⟩

end Stake

namespace StakeAccount

def writeTerms (account : StakeAccount) : Bytes :=
  LittleEndian.encode 4 account.state.tag.toNat ++ account.terms.write

/-- No known state stands behind an unknown tag, and the time fits in its bytes. -/
structure Canonical (account : StakeAccount) : Prop where
  state : StakeState.ofTag account.state.tag = account.state
  time : account.terms.lockup.Fits

def stakeDecoder (isFull : Bool) : Decoder (Option Stake) :=
  if isFull then Decoder.skip 4 >>= fun _ => Stake.decoder >>= fun stake => pure (some stake)
  else pure none

theorem decoder_eq (isFull : Bool) : decoder isFull =
    (Decoder.word32 >>= fun tag => StakeMeta.decoder >>= fun terms =>
      stakeDecoder isFull >>= fun stake => pure ⟨StakeState.ofTag tag, terms, stake⟩) := by
  cases isFull
  · rfl
  · simp only [decoder, stakeDecoder, if_true, bind_assoc, pure_bind]

instance local_stakeDecoder (isFull : Bool) : (stakeDecoder isFull).Local := by
  unfold stakeDecoder
  infer_instance

instance spans_stakeDecoder (isFull : Bool) :
    (stakeDecoder isFull).Spans (if isFull then 77 else 0) := by
  cases isFull
  · exact Decoder.spans_pure none
  · exact inferInstanceAs (Decoder.Spans
      (Decoder.skip 4 >>= fun _ => Stake.decoder >>= fun stake => pure (some stake)) (4 + (73 + 0)))

instance local_decoder (isFull : Bool) : (decoder isFull).Local := by
  rw [decoder_eq]
  infer_instance

instance spans_decoder (isFull : Bool) : (decoder isFull).Spans (if isFull then 197 else 120) := by
  have spans : (decoder isFull).Spans (4 + (116 + ((if isFull then 77 else 0) + 0))) := by
    rw [decoder_eq]
    infer_instance
  cases isFull <;> exact spans

theorem reads_decoder_iff {isFull : Bool} {taken : Bytes} {account : StakeAccount} :
    (decoder isFull).Reads taken account ↔ account.Canonical ∧
      ∃ back, taken = account.writeTerms ++ back ∧ (stakeDecoder isFull).Reads back account.stake := by
  simp only [decoder_eq, ↓Decoder.reads_map_iff, Decoder.reads_field_iff,
    Decoder.reads_bind_write_iff fun _ _ => StakeMeta.reads_decoder_iff]
  constructor
  · rintro ⟨tag, _, rfl, terms, back, fits, rfl, stake, readStake, rfl⟩
    have same := StakeState.tag_ofTag tag
    refine ⟨⟨congrArg StakeState.ofTag same, fits⟩, back, ?_, readStake⟩
    rw [writeTerms, same, List.append_assoc]
  · rintro ⟨canonical, back, rfl, readStake⟩
    refine ⟨account.state.tag, _, List.append_assoc _ _ _, account.terms, back, canonical.time, rfl,
      account.stake, readStake, ?_⟩
    rw [canonical.state]

theorem length_writeTerms (account : StakeAccount) : account.writeTerms.length = 120 := by
  simp [writeTerms, StakeMeta.write, LittleEndian.length_encode, FixedBytes.length_eq,
    FixedBytes.Kind.size]

theorem reads_stakeDecoder_false_iff {taken : Bytes} {stake : Option Stake} :
    (stakeDecoder false).Reads taken stake ↔ taken = [] ∧ stake = none :=
  Decoder.reads_pure_iff

theorem reads_stakeDecoder_true_iff {taken : Bytes} {stake : Option Stake} :
    (stakeDecoder true).Reads taken stake ↔
      4 ≤ taken.length ∧ stake.map Stake.write = some (taken.drop 4) := by
  change (Decoder.skip 4 >>= fun _ => Stake.decoder >>= fun held => pure (some held)).Reads
    taken stake ↔ _
  simp only [Decoder.reads_skip_bind_iff, Decoder.reads_map_iff, Stake.reads_decoder_iff,
    Option.map_eq_some_iff]
  constructor
  · rintro ⟨gap, _, size, rfl, held, rfl, rfl⟩
    refine ⟨by simp [size], held, rfl, ?_⟩
    rw [List.drop_left' size]
  · rintro ⟨room, held, rfl, written⟩
    refine ⟨taken.take 4, _, List.length_take_of_le room, ?_, held, rfl, rfl⟩
    rw [written, List.take_append_drop]

variable {data other : Bytes} {account : StakeAccount}

def delegation? (data : Bytes) : Option Bytes :=
  if fullSize ≤ data.length then some (data.extract 124 197) else none

theorem delegation?_eq_iff (alike : fullSize ≤ data.length ↔ fullSize ≤ other.length) :
    delegation? data = delegation? other ↔
      (fullSize ≤ data.length → data.extract 124 197 = other.extract 124 197) := by
  unfold delegation?
  by_cases full : fullSize ≤ data.length
  · rw [if_pos full, if_pos (alike.mp full), Option.some.injEq]
    exact ⟨fun same _ => same, fun same => same full⟩
  · rw [if_neg full, if_neg (mt alike.mpr full)]
    exact iff_of_true rfl fun longer => absurd longer full

theorem decode_eq_ok_iff_of_full (full : fullSize ≤ data.length) : decode data = .ok account ↔
    account.Canonical ∧ account.writeTerms = data.take 120 ∧
      account.stake.map Stake.write = some (data.extract 124 197) := by
  have enough : minimumSize ≤ data.length := Nat.le_trans (by decide) full
  have room : 197 ≤ data.length := Nat.le_trans (by decide) full
  have size := account.length_writeTerms
  have within : (data.take 197).take 120 = data.take 120 := List.take_take
  have behind : ((data.take 197).drop 120).drop 4 = data.extract 124 197 := by
    rw [List.drop_drop, List.drop_take, List.extract_eq_take_drop]
  have left : 4 ≤ ((data.take 197).drop 120).length := by
    rw [List.length_drop, List.length_take]
    omega
  simp only [decode, full, decide_true, decodeRecord_eq_ok_iff_take fun _ => room, enough,
    true_and, reads_decoder_iff, reads_stakeDecoder_true_iff, ← within, ← behind]
  constructor
  · rintro ⟨canonical, back, takenEq, _, written⟩
    rw [takenEq, List.take_left' size, List.drop_left' size]
    exact ⟨canonical, rfl, written⟩
  · rintro ⟨canonical, written, writtenStake⟩
    refine ⟨canonical, _, ?_, left, writtenStake⟩
    rw [written, List.take_append_drop]

theorem decode_eq_ok_iff_of_short (enough : minimumSize ≤ data.length)
    (short : data.length < fullSize) : decode data = .ok account ↔
      account.Canonical ∧ account.writeTerms = data.take 120 ∧ account.stake = none := by
  have room : 120 ≤ data.length := enough
  simp only [decode, Nat.not_le.mpr short, decide_false, decodeRecord_eq_ok_iff_take fun _ => room,
    enough, true_and, reads_decoder_iff, reads_stakeDecoder_false_iff]
  constructor
  · rintro ⟨canonical, _, takenEq, rfl, absent⟩
    rw [List.append_nil] at takenEq
    exact ⟨canonical, takenEq.symm, absent⟩
  · rintro ⟨canonical, written, absent⟩
    refine ⟨canonical, [], ?_, rfl, absent⟩
    rw [List.append_nil]
    exact written.symm

theorem decode_eq_ok_iff (enough : minimumSize ≤ data.length) : decode data = .ok account ↔
    account.Canonical ∧ account.writeTerms = data.take 120 ∧
      account.stake.map Stake.write = delegation? data := by
  unfold delegation?
  rcases Nat.lt_or_ge data.length fullSize with short | full
  · rw [decode_eq_ok_iff_of_short enough short, if_neg (Nat.not_le.mpr short),
      Option.map_eq_none_iff]
  · rw [decode_eq_ok_iff_of_full full, if_pos full]

theorem room_of_minimumSize (enough : minimumSize ≤ data.length) :
    (if decide (fullSize ≤ data.length) then 197 else 120) ≤ data.length := by
  by_cases full : fullSize ≤ data.length
  · rw [decide_eq_true full]
    exact Nat.le_trans (by decide) full
  · rw [decide_eq_false full]
    exact enough

theorem exists_decode (enough : minimumSize ≤ data.length) :
    ∃ account, decode data = .ok account ∧ account.Canonical ∧
      account.writeTerms = data.take 120 ∧ account.stake.map Stake.write = delegation? data := by
  obtain ⟨account, decoded⟩ := exists_decodeRecord "stake account"
    (decoder (fullSize ≤ data.length)) enough (room_of_minimumSize enough)
  exact ⟨account, decoded, (decode_eq_ok_iff enough).mp decoded⟩

/-- A delegation is decoded from data of full length only, and from its own bytes. -/
theorem stake_of_delegation? (written : account.stake.map Stake.write = delegation? data) :
    (account.stake.isSome ↔ fullSize ≤ data.length) ∧
      ∀ stake, account.stake = some stake → stake.write = data.extract 124 197 := by
  unfold delegation? at written
  split_ifs at written with full
  · obtain ⟨held, found, heldWritten⟩ := Option.map_eq_some_iff.mp written
    simp [found, full, heldWritten]
  · rw [Option.map_eq_none_iff] at written
    simp [written, full]

theorem decode_eq_decode_iff (enough : minimumSize ≤ data.length)
    (enoughOther : minimumSize ≤ other.length) : decode data = decode other ↔
      data.take 120 = other.take 120 ∧ delegation? data = delegation? other := by
  obtain ⟨account, decoded, canonical, written, writtenStake⟩ := exists_decode enough
  rw [decoded, eq_comm, decode_eq_ok_iff enoughOther, written, writtenStake]
  exact and_iff_right canonical

theorem decode_writes_back :
    (∀ (data : Bytes) (failure : WireError), decode data = .error failure ↔
      data.length < 120 ∧ failure = .bufferTooSmall "stake account" 0 120 data.length) ∧
    (∀ data : Bytes, 120 ≤ data.length → ∃ account, decode data = .ok account ∧
      account.Canonical ∧ (account.stake.isSome ↔ 200 ≤ data.length) ∧
      account.writeTerms = data.take 120 ∧
      ∀ stake, account.stake = some stake → stake.write = data.extract 124 197) ∧
    (∀ data other : Bytes, 120 ≤ data.length → 120 ≤ other.length →
      (200 ≤ data.length ↔ 200 ≤ other.length) →
      (decode data = decode other ↔ data.take 120 = other.take 120 ∧
        (200 ≤ data.length → data.extract 124 197 = other.extract 124 197))) := by
  refine ⟨?_, ?_, ?_⟩
  · intro data failure
    exact decodeRecord_eq_error_iff room_of_minimumSize
  · intro data enough
    obtain ⟨account, decoded, canonical, written, writtenStake⟩ := exists_decode enough
    obtain ⟨present, stakeWritten⟩ := stake_of_delegation? writtenStake
    exact ⟨account, decoded, canonical, present, written, stakeWritten⟩
  · intro data other enough enoughOther alike
    rw [decode_eq_decode_iff enough enoughOther, delegation?_eq_iff alike]
    rfl

theorem decode_writes_back_around_gap :
    let data (gap : UInt8) (flags : UInt8) (tail : Nat) : Bytes :=
      List.replicate 120 9 ++ List.replicate 4 gap ++ List.replicate 72 7 ++ flags ::
        List.replicate tail 0
    (120 ≤ (data 1 7 3).length ∧ 200 ≤ (data 1 7 3).length) ∧
    (∃ account, decode (data 1 7 3) = .ok account ∧ account.stake.isSome ∧
      account.writeTerms = List.replicate 120 9) ∧
    decode (data 1 7 3) = decode (data 2 7 50) ∧ decode (data 1 7 3) ≠ decode (data 1 8 3) := by
  obtain ⟨_, total, same⟩ := decode_writes_back
  intro data
  have size (gap flags : UInt8) (tail : Nat) : (data gap flags tail).length = 197 + tail := by
    simp only [data, List.length_append, List.length_cons, List.length_replicate]
    omega
  have full : 120 ≤ (data 1 7 3).length ∧ 200 ≤ (data 1 7 3).length := by simp [size]
  refine ⟨full, ?_, ?_, ?_⟩
  · obtain ⟨account, decoded, _, present, written, _⟩ := total _ full.1
    exact ⟨account, decoded, present.mpr full.2, written.trans rfl⟩
  · exact (same _ _ full.1 (by simp [size]) (by simp [size])).mpr ⟨rfl, fun _ => rfl⟩
  · rw [Ne, same _ _ full.1 (by simp [size]) (by simp [size])]
    intro agree
    have last := congrArg (fun part : Bytes => part[72]?) (agree.2 full.2)
    exact absurd last (by decide)

end StakeAccount

end LedgerWire
