import LedgerWire.Proofs.MessageSpelling
import LedgerWire.Transaction.Basic

/-!
Transactions on the wire, with the spelling of the signature count and of the message's own length
prefixes apart from what the transaction holds.
-/

namespace LedgerWire

open CompactLength (Spells IsShortest shortest)

@[ext] structure TransactionSpelling where
  signatureCount : Bytes
  message : MessageSpelling

namespace Transaction

structure SpelledBy (transaction : Transaction) (spelling : TransactionSpelling) : Prop where
  signatureCount : Spells spelling.signatureCount transaction.signatures.length
  message : transaction.message.SpelledBy spelling.message

structure ShortestBy (transaction : Transaction) (spelling : TransactionSpelling) : Prop where
  signatureCount : IsShortest spelling.signatureCount transaction.signatures.length
  message : transaction.message.ShortestBy spelling.message

def write (transaction : Transaction) (spelling : TransactionSpelling) : Bytes :=
  spelling.signatureCount ++ (transaction.signatures.flatMap FixedBytes.bytes ++
    transaction.message.write spelling.message)

structure WrittenAs (transaction : Transaction) (spelling : TransactionSpelling) (bytes : Bytes) :
    Prop where
  spelled : transaction.SpelledBy spelling
  bytes_eq : bytes = transaction.write spelling

def shortestSpelling (transaction : Transaction) : TransactionSpelling where
  signatureCount := shortest transaction.signatures.length
  message := transaction.message.shortestSpelling

variable {transaction : Transaction} {spelling : TransactionSpelling}

theorem encode_eq_ok_iff {bytes : Bytes} : transaction.encode = .ok bytes ↔
    transaction.WrittenAs transaction.shortestSpelling bytes := by
  simp only [encode, bind_eq_ok_iff, CompactLength.encode_eq_ok_iff, Message.encode_eq_ok_iff]
  constructor
  · rintro ⟨count, ⟨fewSignatures, rfl⟩, messageBytes, written, made⟩
    cases made
    refine ⟨⟨CompactLength.spells_shortest fewSignatures, written.spelled⟩, ?_⟩
    rw [written.bytes_eq]
    rfl
  · rintro ⟨spelled, rfl⟩
    exact ⟨_, ⟨spelled.signatureCount.le_maxLength, rfl⟩, _, ⟨spelled.message, rfl⟩, rfl⟩

theorem length_write : (transaction.write spelling).length =
    spelling.signatureCount.length + transaction.signatures.length * 64 +
      (transaction.message.write spelling.message).length := by
  simp only [write, List.length_append, Decoder.length_flatMap_bytes, FixedBytes.Kind.size]
  omega

theorem length_write_shortest :
    (transaction.write transaction.shortestSpelling).length = transaction.encodedSize := by
  simp only [length_write, shortestSpelling, CompactLength.length_shortest,
    Message.length_write_shortest, encodedSize]

theorem SpelledBy.encodedSize_le (spelled : transaction.SpelledBy spelling) :
    transaction.encodedSize ≤ (transaction.write spelling).length := by
  have signatureCount := spelled.signatureCount.encodedLength_le
  have message := spelled.message.encodedSize_le
  simp only [length_write, encodedSize]
  omega

theorem SpelledBy.eq_shortestSpelling (spelled : transaction.SpelledBy spelling)
    (size : (transaction.write spelling).length = transaction.encodedSize) :
    spelling = transaction.shortestSpelling := by
  have signatureCount := spelled.signatureCount.encodedLength_le
  have message := spelled.message.encodedSize_le
  simp only [length_write, encodedSize] at size
  have signatureCountEq := spelled.signatureCount.eq_shortest (by omega)
  have messageEq := spelled.message.eq_shortestSpelling (by omega)
  exact TransactionSpelling.ext signatureCountEq messageEq

theorem SpelledBy.shortestBy_iff (spelled : transaction.SpelledBy spelling) :
    transaction.ShortestBy spelling ↔ spelling = transaction.shortestSpelling := by
  constructor
  · rintro ⟨signatureCount, message⟩
    rw [CompactLength.isShortest_iff spelled.signatureCount] at signatureCount
    rw [spelled.message.shortestBy_iff] at message
    exact TransactionSpelling.ext signatureCount message
  · rintro rfl
    exact ⟨(CompactLength.isShortest_iff spelled.signatureCount).mpr rfl,
      spelled.message.shortestBy_iff.mpr rfl⟩

/-- Written bytes tell the transaction and its spelling, and where the transaction ends. -/
theorem write_unique {other : Transaction} {otherSpelling : TransactionSpelling}
    {rest otherRest : Bytes} (spelled : transaction.SpelledBy spelling)
    (otherSpelled : other.SpelledBy otherSpelling)
    (same : transaction.write spelling ++ rest = other.write otherSpelling ++ otherRest) :
    transaction = other ∧ spelling = otherSpelling ∧ rest = otherRest := by
  simp only [write, List.append_assoc] at same
  obtain ⟨sameCount, sameCountSpelling, same⟩ :=
    Decoder.spells_unique spelled.signatureCount otherSpelled.signatureCount same
  obtain ⟨sameSignatures, _, same⟩ := (Decoder.reads_times_fixed_iff.mpr ⟨rfl, rfl⟩).unique
    (Decoder.reads_times_fixed_iff.mpr ⟨sameCount.symm, rfl⟩) same
  obtain ⟨sameMessage, sameSpelling, sameRest⟩ :=
    Message.write_unique spelled.message otherSpelled.message same
  refine ⟨?_, ?_, sameRest⟩
  · exact Transaction.ext sameSignatures sameMessage
  · exact TransactionSpelling.ext sameCountSpelling sameSpelling

theorem WrittenAs.unique {other : TransactionSpelling} {bytes : Bytes}
    (written : transaction.WrittenAs spelling bytes)
    (otherWritten : transaction.WrittenAs other bytes) : spelling = other := by
  have same : transaction.write spelling ++ [] = transaction.write other ++ [] := by
    rw [← written.bytes_eq, ← otherWritten.bytes_eq]
  exact (write_unique written.spelled otherWritten.spelled same).2.1

theorem SpelledBy.toShortest (spelled : transaction.SpelledBy spelling) :
    transaction.SpelledBy transaction.shortestSpelling where
  signatureCount := CompactLength.spells_shortest spelled.signatureCount.le_maxLength
  message := spelled.message.toShortest

theorem decoder_eq : decoder = (Decoder.compactLength >>= fun count =>
    Decoder.times count (Decoder.fixed .signature) >>= fun signatures =>
    Message.decoder >>= fun message => pure ⟨signatures, message⟩) := rfl

instance local_decoder : decoder.Local := by
  rw [decoder_eq]
  infer_instance

theorem reads_decoder_iff {taken : Bytes} : decoder.Reads taken transaction ↔
    transaction.message.requiredSignatures < 128 ∧ transaction.message.WellFormed ∧
      ∃ spelling, transaction.WrittenAs spelling taken := by
  simp only [decoder_eq, Decoder.reads_bind_iff, Decoder.reads_compactLength_iff,
    Decoder.reads_times_fixed_iff, Message.reads_decoder_iff, Decoder.reads_pure_iff]
  constructor
  · rintro ⟨signatureCount, _, _, rfl, spelledCount, _, _, signatures, rfl, ⟨rfl, rfl⟩, _, _,
      message, rfl, ⟨few, formed, spelling, ⟨spelled, rfl⟩⟩, rfl, rfl⟩
    exact ⟨few, formed, ⟨signatureCount, spelling⟩, ⟨spelledCount, spelled⟩, by simp [write]⟩
  · rintro ⟨few, formed, spelling, ⟨spelled, rfl⟩⟩
    exact ⟨spelling.signatureCount, _, _, rfl, spelled.signatureCount, _, _,
      transaction.signatures, rfl, ⟨rfl, rfl⟩, _, [], transaction.message, by simp,
      ⟨few, formed, spelling.message, ⟨spelled.message, rfl⟩⟩, rfl, rfl⟩

theorem decode_eq (bytes : Bytes) : decode bytes =
    decoder.readAll bytes >>= fun transaction =>
      if transaction.message.requiredSignatures < transaction.signatures.length then
        .error (.invalidHeader (.tooManySignatures transaction.signatures.length
          transaction.message.requiredSignatures))
      else .ok transaction := by
  rw [decode]
  change decoder.readAll bytes >>= _ = _
  cases decoder.readAll bytes with
  | error failure => rfl
  | ok transaction =>
      dsimp only [bind, Except.bind]
      split <;> rfl

theorem decode_eq_ok_iff {bytes : Bytes} : decode bytes = .ok transaction ↔
    transaction.message.requiredSignatures < 128 ∧ transaction.message.WellFormed ∧
      transaction.signatures.length ≤ transaction.message.requiredSignatures ∧
      ∃ spelling, transaction.WrittenAs spelling bytes := by
  simp only [decode_eq, bind_eq_ok_iff, Decoder.readAll_eq_ok_iff, reads_decoder_iff]
  constructor
  · rintro ⟨read, ⟨few, formed, written⟩, outcome⟩
    split at outcome
    · cases outcome
    · rename_i enough
      cases outcome
      exact ⟨few, formed, Nat.le_of_not_lt enough, written⟩
  · rintro ⟨few, formed, enough, written⟩
    exact ⟨transaction, ⟨few, formed, written⟩, if_neg (Nat.not_lt.mpr enough)⟩

end Transaction

end LedgerWire
