import LedgerWire.Proofs.DecoderFailure
import LedgerWire.Proofs.WireRoundTrip

/-!
Where accepted bytes end. A part of them that stops earlier is always cut inside a field, so it is
never taken for something shorter nor refused for what it says; and whatever comes after them is
left over.
-/

namespace LedgerWire

variable {α : Type}

/-- No less of these bytes is enough, and anything more is too much. -/
structure Complete (decode : Bytes → Except WireError α) (bytes : Bytes) : Prop where
  cut : ∀ part, part <+: bytes → part ≠ bytes → ∃ offset needed remaining,
    decode part = .error (.truncatedInput offset needed remaining) ∧
      offset + remaining = part.length ∧ remaining < needed
  longer : ∀ more, more ≠ [] →
    decode (bytes ++ more) = .error (.trailingBytes bytes.length more.length)

theorem Decoder.Reads.complete {decoder : Decoder α} [decoder.Local] [decoder.Steady] {bytes : Bytes}
    {value : α} (read : decoder.Reads bytes value) : Complete decoder.readAll bytes where
  cut := by
    rintro part ⟨more, rfl⟩ strict
    have cut : more ≠ [] := by
      rintro rfl
      exact strict (List.append_nil part).symm
    obtain ⟨front, left, needed, rfl, short, awaits⟩ := read.awaits_of_cut cut
    exact ⟨_, _, _, (Fate.truncated awaits short).readAll_eq, List.length_append.symm, short⟩
  longer more left := (Fate.trailing read left).readAll_eq

theorem Message.complete_of_decode {bytes : Bytes} {message : Message}
    (read : decode bytes = .ok message) : Complete decode bytes :=
  (Decoder.readAll_eq_ok_iff.mp read).complete

theorem Transaction.complete_of_decode {bytes : Bytes} {transaction : Transaction}
    (read : decode bytes = .ok transaction) : Complete decode bytes := by
  rw [decode_eq, bind_eq_ok_iff] at read
  obtain ⟨found, readAll, _⟩ := read
  have complete := (Decoder.readAll_eq_ok_iff.mp readAll).complete
  constructor
  · intro part start strict
    obtain ⟨offset, needed, remaining, failed, place, short⟩ := complete.cut part start strict
    refine ⟨offset, needed, remaining, ?_, place, short⟩
    rw [decode_eq, failed]
    rfl
  · intro more left
    rw [decode_eq, complete.longer more left]
    rfl

theorem Message.decode_take_of_trailingBytes {bytes : Bytes} {offset remaining : Nat}
    (failed : decode bytes = .error (.trailingBytes offset remaining)) :
    offset + remaining = bytes.length ∧ 0 < remaining ∧
      ∃ message, decode (bytes.take offset) = .ok message := by
  have fate := Decoder.fate_readAll decoder bytes
  rw [← decode_eq, failed] at fate
  cases fate with
  | @trailing front more message read left =>
      refine ⟨List.length_append.symm, List.length_pos_iff.mpr left, message, ?_⟩
      rw [List.take_left]
      exact Decoder.readAll_eq_ok_iff.mpr read
  | refused placeless _ => exact absurd placeless WireError.not_placeless_trailingBytes

/-- Accepted bytes tell where they end, and bytes that go on after a message hold it. -/
theorem accepted_extent :
    (∀ (bytes : Bytes) (message : Message), Message.decode bytes = .ok message →
      Complete Message.decode bytes) ∧
    (∀ (bytes : Bytes) (transaction : Transaction), Transaction.decode bytes = .ok transaction →
      Complete Transaction.decode bytes) ∧
    ∀ (bytes : Bytes) (offset remaining : Nat),
      Message.decode bytes = .error (.trailingBytes offset remaining) →
      offset + remaining = bytes.length ∧ 0 < remaining ∧
        ∃ message, Message.decode (bytes.take offset) = .ok message := by
  refine ⟨?_, ?_, ?_⟩
  · intro bytes message read
    exact Message.complete_of_decode read
  · intro bytes transaction read
    exact Transaction.complete_of_decode read
  · intro bytes offset remaining failed
    exact Message.decode_take_of_trailingBytes failed

theorem accepted_extent_spare_groups :
    let messageBytes := halfSigned.message.write spareGroups.message
    let bytes := halfSigned.write spareGroups
    Message.decode messageBytes = .ok halfSigned.message ∧
    Transaction.decode bytes = .ok halfSigned ∧
    Complete Message.decode messageBytes ∧ Complete Transaction.decode bytes ∧
    Message.decode (messageBytes ++ [7]) = .error (.trailingBytes messageBytes.length 1) ∧
    ∃ message, Message.decode ((messageBytes ++ [7]).take messageBytes.length) = .ok message := by
  intro messageBytes bytes
  have read := decode_message_halfSigned halfSigned_spelledBy_spareGroups
  have readAll := decode_halfSigned halfSigned_spelledBy_spareGroups
  have complete := accepted_extent.1 _ _ read
  have left := complete.longer [7] (by decide)
  obtain ⟨_, _, held⟩ := accepted_extent.2.2 _ _ _ left
  exact ⟨read, readAll, complete, accepted_extent.2.1 _ _ readAll, left, held⟩

end LedgerWire
