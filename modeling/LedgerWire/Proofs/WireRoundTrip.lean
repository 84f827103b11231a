import LedgerWire.Proofs.TransactionSpelling

/-!
Writing and reading undo each other. What is written is read back as it was; what is read is
written again with the shortest prefixes, which gives the same bytes only if they had no others.
-/

namespace LedgerWire

theorem written_eq_shortest_iff {Spelling : Type} {write : Spelling → Bytes}
    {shortest spelling : Spelling}
    (least : (write spelling).length = (write shortest).length → spelling = shortest) :
    (write shortest = write spelling ↔ (write shortest).length = (write spelling).length) ∧
      ((write shortest).length = (write spelling).length ↔ spelling = shortest) := by
  constructor
  · constructor
    · intro same
      rw [same]
    · intro size
      rw [least size.symm]
  · constructor
    · intro size
      exact least size.symm
    · intro same
      rw [same]

namespace Message

variable {message : Message} {bytes : Bytes}

theorem decode_of_encode (formed : message.WellFormed) (few : message.requiredSignatures ≤ 127)
    (written : message.encode = .ok bytes) : decode bytes = .ok message :=
  decode_eq_ok_iff.mpr ⟨Nat.lt_succ_of_le few, formed, _, encode_eq_ok_iff.mp written⟩

theorem encode_of_decode (read : decode bytes = .ok message) :
    ∃ canonical, message.encode = .ok canonical ∧ canonical.length = message.encodedSize ∧
      message.encodedSize ≤ bytes.length ∧ decode canonical = .ok message := by
  obtain ⟨few, formed, spelling, written⟩ := decode_eq_ok_iff.mp read
  have rewritten : message.encode = .ok (message.write message.shortestSpelling) :=
    encode_eq_ok_iff.mpr ⟨written.spelled.toShortest, rfl⟩
  refine ⟨_, rewritten, length_write_shortest, ?_, ?_⟩
  · rw [written.bytes_eq]
    exact written.spelled.encodedSize_le
  · exact decode_of_encode formed (Nat.le_of_lt_succ few) rewritten

theorem WrittenAs.eq_encode_iff {spelling : MessageSpelling} {canonical : Bytes}
    (written : message.WrittenAs spelling bytes) (rewritten : message.encode = .ok canonical) :
    (canonical = bytes ↔ canonical.length = bytes.length) ∧
      (canonical.length = bytes.length ↔ message.ShortestBy spelling) := by
  obtain ⟨spelled, rfl⟩ := written
  obtain ⟨_, rfl⟩ := encode_eq_ok_iff.mp rewritten
  rw [spelled.shortestBy_iff]
  apply written_eq_shortest_iff
  intro size
  exact spelled.eq_shortestSpelling (size.trans length_write_shortest)

end Message

namespace Transaction

variable {transaction : Transaction} {bytes : Bytes}

theorem decode_of_encode (formed : transaction.message.WellFormed)
    (few : transaction.message.requiredSignatures ≤ 127)
    (within : transaction.signatures.length ≤ transaction.message.requiredSignatures)
    (written : transaction.encode = .ok bytes) : decode bytes = .ok transaction :=
  decode_eq_ok_iff.mpr
    ⟨Nat.lt_succ_of_le few, formed, within, _, encode_eq_ok_iff.mp written⟩

theorem encode_of_decode (read : decode bytes = .ok transaction) :
    ∃ canonical, transaction.encode = .ok canonical ∧
      canonical.length = transaction.encodedSize ∧ transaction.encodedSize ≤ bytes.length ∧
      decode canonical = .ok transaction := by
  obtain ⟨few, formed, within, spelling, written⟩ := decode_eq_ok_iff.mp read
  have rewritten : transaction.encode = .ok (transaction.write transaction.shortestSpelling) :=
    encode_eq_ok_iff.mpr ⟨written.spelled.toShortest, rfl⟩
  refine ⟨_, rewritten, length_write_shortest, ?_, ?_⟩
  · rw [written.bytes_eq]
    exact written.spelled.encodedSize_le
  · exact decode_of_encode formed (Nat.le_of_lt_succ few) within rewritten

theorem WrittenAs.eq_encode_iff {spelling : TransactionSpelling} {canonical : Bytes}
    (written : transaction.WrittenAs spelling bytes)
    (rewritten : transaction.encode = .ok canonical) :
    (canonical = bytes ↔ canonical.length = bytes.length) ∧
      (canonical.length = bytes.length ↔ transaction.ShortestBy spelling) := by
  obtain ⟨spelled, rfl⟩ := written
  obtain ⟨_, rfl⟩ := encode_eq_ok_iff.mp rewritten
  rw [spelled.shortestBy_iff]
  apply written_eq_shortest_iff
  intro size
  exact spelled.eq_shortestSpelling (size.trans length_write_shortest)

end Transaction

/-- What is written is read back, with placeholders and missing slots as they were. -/
theorem wire_round_trip :
    (∀ (message : Message) (bytes : Bytes), message.check = .ok () →
      message.requiredSignatures ≤ 127 → message.encode = .ok bytes →
      Message.decode bytes = .ok message) ∧
    (∀ (transaction : Transaction) (bytes : Bytes), transaction.message.check = .ok () →
      transaction.message.requiredSignatures ≤ 127 →
      transaction.signatures.length ≤ transaction.message.requiredSignatures →
      transaction.encode = .ok bytes → Transaction.decode bytes = .ok transaction) := by
  constructor
  · intro message bytes checked few written
    exact Message.decode_of_encode ((Message.check_eq_ok_iff message).mp checked) few written
  · intro transaction bytes checked few within written
    have formed := (Message.check_eq_ok_iff transaction.message).mp checked
    exact Transaction.decode_of_encode formed few within written

def halfSigned : Transaction where
  signatures := [Signature.placeholder]
  message := {
    header := ⟨2, 1, 1⟩
    accountKeys := [FixedBytes.filled .publicKey 1, FixedBytes.filled .publicKey 2,
      WellKnown.system.key]
    recentBlockhash := FixedBytes.filled .hash 9
    instructions := [⟨2, [0, 1, 0], List.replicate 130 7⟩] }

theorem halfSigned_wellFormed : halfSigned.message.WellFormed := by decide +kernel

def spareGroups : TransactionSpelling where
  signatureCount := [0x81, 0]
  message := ⟨[0x83, 0], [0x81, 0], [⟨[0x83, 0], [0x82, 0x81, 0]⟩]⟩

theorem halfSigned_spelledBy_spareGroups : halfSigned.SpelledBy spareGroups where
  signatureCount := rfl
  message := by
    have data : CompactLength.Spells [0x82, 0x81, 0] (List.replicate 130 (7 : UInt8)).length := by
      rw [List.length_replicate]
      rfl
    exact ⟨rfl, rfl, .cons ⟨rfl, data⟩ .nil⟩

theorem decode_halfSigned {spelling : TransactionSpelling}
    (spelled : halfSigned.SpelledBy spelling) :
    Transaction.decode (halfSigned.write spelling) = .ok halfSigned :=
  Transaction.decode_eq_ok_iff.mpr
    ⟨by decide, halfSigned_wellFormed, by decide, spelling, spelled, rfl⟩

theorem decode_message_halfSigned {spelling : TransactionSpelling}
    (spelled : halfSigned.SpelledBy spelling) :
    Message.decode (halfSigned.message.write spelling.message) = .ok halfSigned.message :=
  Message.decode_eq_ok_iff.mpr ⟨by decide, halfSigned_wellFormed, _, ⟨spelled.message, rfl⟩⟩

theorem wire_round_trip_half_signed :
    halfSigned.message.check = .ok () ∧ halfSigned.message.requiredSignatures ≤ 127 ∧
    halfSigned.signatures.length ≤ halfSigned.message.requiredSignatures ∧
    ∃ messageBytes bytes, halfSigned.message.encode = .ok messageBytes ∧
      halfSigned.encode = .ok bytes ∧ Message.decode messageBytes = .ok halfSigned.message ∧
      Transaction.decode bytes = .ok halfSigned := by
  have checked := (Message.check_eq_ok_iff halfSigned.message).mpr halfSigned_wellFormed
  have few : halfSigned.message.requiredSignatures ≤ 127 := by decide
  have within : halfSigned.signatures.length ≤ halfSigned.message.requiredSignatures := by decide
  have spelled := halfSigned_spelledBy_spareGroups.toShortest
  have messageWritten := Message.encode_eq_ok_iff.mpr ⟨spelled.message, rfl⟩
  have written := Transaction.encode_eq_ok_iff.mpr ⟨spelled, rfl⟩
  exact ⟨checked, few, within, _, _, messageWritten, written,
    wire_round_trip.1 _ _ checked few messageWritten,
    wire_round_trip.2 _ _ checked few within written⟩

/-- Accepted bytes name what they hold and spell it in one way. Writing it again is never longer,
and as long only where every length prefix was as short as it can be. -/
theorem reencode_accepted :
    (∀ (bytes : Bytes) (message : Message), Message.decode bytes = .ok message →
      message.check = .ok () ∧ message.requiredSignatures ≤ 127 ∧
      ∃ canonical, message.encode = .ok canonical ∧
        canonical.length = message.encodedSize ∧ message.encodedSize ≤ bytes.length ∧
        Message.decode canonical = .ok message ∧
        (canonical = bytes ↔ canonical.length = bytes.length) ∧
        (∃! spelling, message.WrittenAs spelling bytes) ∧
        ∀ spelling, message.WrittenAs spelling bytes →
          (canonical.length = bytes.length ↔ message.ShortestBy spelling)) ∧
    (∀ (bytes : Bytes) (transaction : Transaction), Transaction.decode bytes = .ok transaction →
      transaction.message.check = .ok () ∧ transaction.message.requiredSignatures ≤ 127 ∧
      transaction.signatures.length ≤ transaction.message.requiredSignatures ∧
      ∃ canonical, transaction.encode = .ok canonical ∧
        canonical.length = transaction.encodedSize ∧ transaction.encodedSize ≤ bytes.length ∧
        Transaction.decode canonical = .ok transaction ∧
        (canonical = bytes ↔ canonical.length = bytes.length) ∧
        (∃! spelling, transaction.WrittenAs spelling bytes) ∧
        ∀ spelling, transaction.WrittenAs spelling bytes →
          (canonical.length = bytes.length ↔ transaction.ShortestBy spelling)) := by
  constructor
  · intro bytes message read
    obtain ⟨few, formed, spelling, written⟩ := Message.decode_eq_ok_iff.mp read
    obtain ⟨canonical, rewritten, size, shorter, readAgain⟩ := Message.encode_of_decode read
    refine ⟨(Message.check_eq_ok_iff message).mpr formed, Nat.le_of_lt_succ few, canonical,
      rewritten, size, shorter, readAgain, (written.eq_encode_iff rewritten).1, ?_, ?_⟩
    · exact ⟨spelling, written, fun other otherWritten => otherWritten.unique written⟩
    · intro other otherWritten
      exact (otherWritten.eq_encode_iff rewritten).2
  · intro bytes transaction read
    obtain ⟨few, formed, within, spelling, written⟩ := Transaction.decode_eq_ok_iff.mp read
    obtain ⟨canonical, rewritten, size, shorter, readAgain⟩ := Transaction.encode_of_decode read
    refine ⟨(Message.check_eq_ok_iff transaction.message).mpr formed, Nat.le_of_lt_succ few, within,
      canonical, rewritten, size, shorter, readAgain, (written.eq_encode_iff rewritten).1, ?_, ?_⟩
    · exact ⟨spelling, written, fun other otherWritten => otherWritten.unique written⟩
    · intro other otherWritten
      exact (otherWritten.eq_encode_iff rewritten).2

theorem reencode_accepted_spare_groups :
    Message.decode (halfSigned.message.write spareGroups.message) = .ok halfSigned.message ∧
    Transaction.decode (halfSigned.write spareGroups) = .ok halfSigned ∧
    (∃ canonical, halfSigned.message.encode = .ok canonical ∧
      canonical ≠ halfSigned.message.write spareGroups.message ∧
      Message.decode canonical = .ok halfSigned.message) ∧
    ∃ canonical, halfSigned.encode = .ok canonical ∧ canonical ≠ halfSigned.write spareGroups ∧
      Transaction.decode canonical = .ok halfSigned := by
  have spelled := halfSigned_spelledBy_spareGroups
  have read : Message.decode (halfSigned.message.write spareGroups.message) =
      .ok halfSigned.message :=
    Message.decode_eq_ok_iff.mpr
      ⟨by decide, halfSigned_wellFormed, _, ⟨spelled.message, rfl⟩⟩
  have readAll : Transaction.decode (halfSigned.write spareGroups) = .ok halfSigned :=
    Transaction.decode_eq_ok_iff.mpr
      ⟨by decide, halfSigned_wellFormed, by decide, _, ⟨spelled, rfl⟩⟩
  obtain ⟨_, _, canonical, written, size, _, again, same, _⟩ := reencode_accepted.1 _ _ read
  obtain ⟨_, _, _, all, allWritten, allSize, _, allAgain, allSame, _⟩ :=
    reencode_accepted.2 _ _ readAll
  refine ⟨read, readAll, ⟨canonical, written, ?_, again⟩, ⟨all, allWritten, ?_, allAgain⟩⟩
  · rw [Ne, same, size]
    decide +kernel
  · rw [Ne, allSame, allSize]
    decide +kernel

end LedgerWire
