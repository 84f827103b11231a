import LedgerWire.Proofs.InputExtent

/-!
A transaction is a message behind a block of signatures. What is made of the message does not depend
on how many signatures stand in front of it or on how their count is spelled; only the places that a
failure tells of are that much further on.
-/

namespace LedgerWire.Transaction

open CompactLength (Spells)

variable {count : Bytes} {signatures : List Signature}

theorem length_block (signatures : List Signature) :
    (signatures.flatMap FixedBytes.bytes).length = 64 * signatures.length := by
  rw [Decoder.length_flatMap_bytes, Nat.mul_comm]
  rfl

theorem fate_behind_block (counted : Spells count signatures.length) (messageBytes : Bytes) :
    decoder.Fate (count ++ (signatures.flatMap FixedBytes.bytes ++ messageBytes))
      (((Message.decode messageBytes).map fun message => ⟨signatures, message⟩).mapError
        fun failure => failure.movedBy (count.length + 64 * signatures.length)) := by
  have block : (Decoder.times signatures.length (Decoder.fixed .signature)).Reads
      (signatures.flatMap FixedBytes.bytes) signatures :=
    Decoder.reads_times_fixed_iff.mpr ⟨rfl, rfl⟩
  have message := Decoder.fate_readAll Message.decoder messageBytes
  rw [decoder_eq, ← length_block, ← mapError_movedBy]
  exact .behind (Decoder.compactLength_append counted) (.behind block (message.map _))

theorem decode_behind_block (counted : Spells count signatures.length) (messageBytes : Bytes) :
    decode (count ++ (signatures.flatMap FixedBytes.bytes ++ messageBytes)) =
      match Message.decode messageBytes with
      | .ok message =>
          if signatures.length ≤ message.requiredSignatures then .ok ⟨signatures, message⟩
          else .error (.invalidHeader
            (.tooManySignatures signatures.length message.requiredSignatures))
      | .error failure =>
          .error (failure.movedBy (count.length + 64 * signatures.length)) := by
  rw [decode_eq, (fate_behind_block counted messageBytes).readAll_eq]
  cases Message.decode messageBytes with
  | error failure => rfl
  | ok message =>
      change (if message.requiredSignatures < signatures.length then _ else _) = _
      by_cases few : signatures.length ≤ message.requiredSignatures
      · rw [if_neg (Nat.not_lt.mpr few)]
        exact (if_pos few).symm
      · rw [if_pos (Nat.lt_of_not_le few)]
        exact (if_neg few).symm

/-- A transaction is decided by its message, whatever comes of it, and by how many signatures there
are. There is no transaction that is not of this form. -/
theorem decode_signature_block :
    (∀ (count block messageBytes : Bytes) (number : Nat),
      CompactLength.decodeAt count 0 = .ok (number, count.length) → block.length = 64 * number →
      ∃ signatures : List Signature, signatures.length = number ∧
        signatures.flatMap FixedBytes.bytes = block ∧
        decode (count ++ (block ++ messageBytes)) =
          match Message.decode messageBytes with
          | .ok message =>
              if number ≤ message.requiredSignatures then .ok ⟨signatures, message⟩
              else .error (.invalidHeader (.tooManySignatures number message.requiredSignatures))
          | .error failure => .error (failure.movedBy (count.length + 64 * number))) ∧
    ∀ (bytes : Bytes) (transaction : Transaction), decode bytes = .ok transaction →
      ∃ count block messageBytes, bytes = count ++ (block ++ messageBytes) ∧
        CompactLength.decodeAt count 0 = .ok (transaction.signatures.length, count.length) ∧
        block.length = 64 * transaction.signatures.length ∧
        transaction.signatures.flatMap FixedBytes.bytes = block ∧
        Message.decode messageBytes = .ok transaction.message ∧
        transaction.signatures.length ≤ transaction.message.requiredSignatures := by
  constructor
  · intro count block messageBytes number counted size
    obtain ⟨signatures, rfl, rfl⟩ := Decoder.exists_flatMap_bytes .signature
      (size.trans (Nat.mul_comm 64 number))
    refine ⟨signatures, rfl, rfl, decode_behind_block ?_ messageBytes⟩
    exact CompactLength.decodeAt_zero_eq_ok_iff.mp counted
  · intro bytes transaction read
    obtain ⟨few, formed, within, spelling, spelled, rfl⟩ := decode_eq_ok_iff.mp read
    refine ⟨spelling.signatureCount, _, transaction.message.write spelling.message, rfl, ?_,
      length_block transaction.signatures, rfl, ?_, within⟩
    · exact CompactLength.decodeAt_zero_eq_ok_iff.mpr spelled.signatureCount
    · exact Message.decode_eq_ok_iff.mpr ⟨few, formed, spelling.message, spelled.message, rfl⟩

theorem decode_signature_block_half_signed :
    let messageBytes := halfSigned.message.write spareGroups.message
    let block : Bytes := List.replicate 64 5
    (∃ signatures : List Signature, signatures.flatMap FixedBytes.bytes = block ∧
      decode ([0x81, 0] ++ (block ++ messageBytes)) = .ok ⟨signatures, halfSigned.message⟩) ∧
    decode ([0x81, 0] ++ (block ++ (messageBytes ++ [7]))) =
      .error (.trailingBytes (66 + messageBytes.length) 1) ∧
    decode ([0x81, 0] ++ (block ++ [])) = .error (.truncatedInput 66 1 0) ∧
    decode ([3] ++ (List.replicate 192 5 ++ messageBytes)) =
      .error (.invalidHeader (.tooManySignatures 3 2)) ∧
    ∃ count block messageBytes, halfSigned.write spareGroups = count ++ (block ++ messageBytes) ∧
      CompactLength.decodeAt count 0 = .ok (1, count.length) ∧
      Message.decode messageBytes = .ok halfSigned.message := by
  intro messageBytes block
  have spelled := halfSigned_spelledBy_spareGroups
  have read : Message.decode messageBytes = .ok halfSigned.message :=
    decode_message_halfSigned spelled
  have goesOn := (Message.complete_of_decode read).longer [7] (by decide)
  have behindOne := fun messageBytes =>
    decode_signature_block.1 [0x81, 0] block messageBytes 1 rfl List.length_replicate
  refine ⟨?_, ?_, ?_, ?_, ?_⟩
  · obtain ⟨signatures, _, held, decided⟩ := behindOne messageBytes
    rw [read] at decided
    exact ⟨signatures, held, decided⟩
  · obtain ⟨_, _, _, decided⟩ := behindOne (messageBytes ++ [7])
    rw [goesOn] at decided
    exact decided
  · obtain ⟨_, _, _, decided⟩ := behindOne []
    exact decided
  · obtain ⟨_, _, _, decided⟩ := decode_signature_block.1 [3] (List.replicate 192 5)
      messageBytes 3 rfl List.length_replicate
    rw [read] at decided
    exact decided
  · obtain ⟨count, _, messageBytes, split, counted, _, _, readMessage, _⟩ :=
      decode_signature_block.2 _ _ (decode_halfSigned spelled)
    exact ⟨count, _, messageBytes, split, counted, readMessage⟩

end LedgerWire.Transaction
