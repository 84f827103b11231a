import LedgerWire.Proofs.SignatureSlots
import LedgerWire.Proofs.WireRoundTrip

/-!
Which bytes stand behind the signatures of a transaction that came over the wire. It is checked and
signed over its message as it would be written now, which is as it was received only where every
length prefix of the message was as short as it can be.
-/

namespace LedgerWire.Transaction

def messagePart (bytes : Bytes) : Bytes :=
  match CompactLength.decodeGroups CompactLength.maxGroups bytes with
  | .ok count => bytes.drop (count.used + count.length * 64)
  | .error _ => []

variable {transaction : Transaction} {spelling : TransactionSpelling} {bytes : Bytes}

theorem messagePart_write (spelled : transaction.SpelledBy spelling) :
    messagePart (transaction.write spelling) = transaction.message.write spelling.message := by
  have count := spelled.signatureCount.decodeGroups_append
    (transaction.signatures.flatMap FixedBytes.bytes ++ transaction.message.write spelling.message)
  have block : (spelling.signatureCount ++ transaction.signatures.flatMap FixedBytes.bytes).length =
      spelling.signatureCount.length + transaction.signatures.length * 64 := by
    rw [List.length_append, Decoder.length_flatMap_bytes]
    rfl
  simp only [messagePart, write, count]
  rw [← block, ← List.append_assoc, List.drop_left]

theorem writtenAs_messagePart (read : decode bytes = .ok transaction) :
    ∃ count spelling, CompactLength.Spells count transaction.signatures.length ∧
      bytes = count ++ (transaction.signatures.flatMap FixedBytes.bytes ++ messagePart bytes) ∧
      transaction.message.WrittenAs spelling (messagePart bytes) := by
  obtain ⟨_, _, _, spelling, spelled, rfl⟩ := decode_eq_ok_iff.mp read
  rw [messagePart_write spelled]
  exact ⟨spelling.signatureCount, spelling.message, spelled.signatureCount, rfl, spelled.message, rfl⟩

/-- What a received transaction is checked and signed over: the bytes that its message had, or fewer
if one of its length prefixes was longer than it need be. -/
theorem signed_bytes_of_decode (read : decode bytes = .ok transaction) :
    ∃ count spelling canonical,
      CompactLength.Spells count transaction.signatures.length ∧
      bytes = count ++ (transaction.signatures.flatMap FixedBytes.bytes ++ messagePart bytes) ∧
      transaction.message.WrittenAs spelling (messagePart bytes) ∧
      transaction.message.encode = .ok canonical ∧
      (canonical = messagePart bytes ↔ transaction.message.ShortestBy spelling) ∧
      (canonical ≠ messagePart bytes → canonical.length < (messagePart bytes).length) ∧
      (transaction.verify = .ok () ↔ transaction.SignedOver canonical) ∧
      ∀ (signatures : List Signature) (signers others : List Signer),
        AnswerAlike canonical signers others →
          partialSign ⟨signatures, transaction.message⟩ signers =
            partialSign ⟨signatures, transaction.message⟩ others := by
  obtain ⟨count, spelling, counted, split, received⟩ := writtenAs_messagePart read
  have rewritten : transaction.message.encode =
      .ok (transaction.message.write transaction.message.shortestSpelling) :=
    Message.encode_eq_ok_iff.mpr ⟨received.spelled.toShortest, rfl⟩
  obtain ⟨sameBytes, sameSize⟩ := received.eq_encode_iff rewritten
  refine ⟨count, spelling, _, counted, split, received, rewritten, sameBytes.trans sameSize, ?_, ?_, ?_⟩
  · intro other
    apply Nat.lt_of_le_of_ne
    · rw [Message.length_write_shortest, received.bytes_eq]
      exact received.spelled.encodedSize_le
    · exact mt sameBytes.mpr other
  · simp only [verify_eq_ok_iff, rewritten, Except.ok.injEq, exists_eq_left']
  · intro signatures signers others alike
    exact partialSign_congr rewritten alike

theorem signed_bytes_of_decode_spare_groups :
    let spareCount : TransactionSpelling := ⟨[0x81, 0], halfSigned.message.shortestSpelling⟩
    decode (halfSigned.write spareCount) = .ok halfSigned ∧
    halfSigned.message.encode = .ok (messagePart (halfSigned.write spareCount)) ∧
    decode (halfSigned.write spareGroups) = .ok halfSigned ∧
    ∃ canonical, halfSigned.message.encode = .ok canonical ∧
      canonical.length < (messagePart (halfSigned.write spareGroups)).length ∧
      (halfSigned.verify = .ok () ↔ halfSigned.SignedOver canonical) := by
  intro spareCount
  have spelled : halfSigned.SpelledBy spareCount :=
    ⟨rfl, halfSigned_spelledBy_spareGroups.message.toShortest⟩
  have read := decode_halfSigned spelled
  have readSpare := decode_halfSigned halfSigned_spelledBy_spareGroups
  refine ⟨read, ?_, readSpare, ?_⟩
  · obtain ⟨_, spelling, canonical, _, _, received, written, same, _⟩ := signed_bytes_of_decode read
    have shortest : spelling = halfSigned.message.shortestSpelling :=
      received.unique ⟨spelled.message, messagePart_write spelled⟩
    rw [written, same.mpr (received.spelled.shortestBy_iff.mpr shortest)]
  · obtain ⟨_, spelling, canonical, _, _, received, written, same, fewer, checked, _⟩ :=
      signed_bytes_of_decode readSpare
    have spare : spelling = spareGroups.message := received.unique
      ⟨halfSigned_spelledBy_spareGroups.message, messagePart_write halfSigned_spelledBy_spareGroups⟩
    refine ⟨canonical, written, fewer ?_, checked⟩
    rw [Ne, same, received.spelled.shortestBy_iff, spare]
    intro noSpare
    exact absurd (congrArg MessageSpelling.keyCount noSpare) (by decide +kernel)

theorem encode_ne_messagePart : ¬ ∀ (bytes : Bytes) (transaction : Transaction),
    decode bytes = .ok transaction → transaction.message.encode = .ok (messagePart bytes) := by
  intro kept
  have spelled := halfSigned_spelledBy_spareGroups
  have written := kept _ _ (decode_halfSigned spelled)
  rw [messagePart_write spelled] at written
  obtain ⟨_, same⟩ := Message.encode_eq_ok_iff.mp written
  have sizes := congrArg List.length same
  rw [Message.length_write_shortest] at sizes
  exact absurd sizes (by decide +kernel)

end LedgerWire.Transaction
