import LedgerWire.Proofs.TransactionSpelling

/-!
The bytes of a message or a transaction tell where they end: whatever follows them, there is one
value that they can belong to. This holds of any value that can be written, also of those that no
reader would take, so a signature is never over the bytes of two messages.
-/

namespace LedgerWire

variable {α : Type} {encode : α → Except WireError Bytes}

def SelfDelimiting (encode : α → Except WireError Bytes) : Prop :=
  ∀ first second bytes others rest otherRest, encode first = .ok bytes → encode second = .ok others →
    bytes ++ rest = others ++ otherRest → first = second ∧ rest = otherRest

def PrefixFree (encode : α → Except WireError Bytes) : Prop :=
  ∀ first second bytes others, encode first = .ok bytes → encode second = .ok others →
    bytes <+: others → first = second ∧ bytes = others

theorem SelfDelimiting.prefixFree (delimited : SelfDelimiting encode) : PrefixFree encode := by
  rintro first second bytes others written otherWritten ⟨rest, rfl⟩
  have same : bytes ++ rest = bytes ++ rest ++ [] := (List.append_nil _).symm
  obtain ⟨sameValue, noRest⟩ := delimited _ _ _ _ _ _ written otherWritten same
  exact ⟨sameValue, by rw [noRest, List.append_nil]⟩

theorem Message.selfDelimiting_encode : SelfDelimiting Message.encode := by
  intro first second bytes others rest otherRest written otherWritten same
  obtain ⟨spelled, rfl⟩ := Message.encode_eq_ok_iff.mp written
  obtain ⟨otherSpelled, rfl⟩ := Message.encode_eq_ok_iff.mp otherWritten
  obtain ⟨sameMessage, _, sameRest⟩ := Message.write_unique spelled otherSpelled same
  exact ⟨sameMessage, sameRest⟩

theorem Transaction.selfDelimiting_encode : SelfDelimiting Transaction.encode := by
  intro first second bytes others rest otherRest written otherWritten same
  obtain ⟨spelled, rfl⟩ := Transaction.encode_eq_ok_iff.mp written
  obtain ⟨otherSpelled, rfl⟩ := Transaction.encode_eq_ok_iff.mp otherWritten
  obtain ⟨sameTransaction, _, sameRest⟩ := Transaction.write_unique spelled otherSpelled same
  exact ⟨sameTransaction, sameRest⟩

/-- A signature binds to one message: signing bytes, alone or in front of others, belong to one
message only. The same holds of the bytes of transactions. -/
theorem encoded_bytes_unique :
    SelfDelimiting Message.encode ∧ PrefixFree Message.encode ∧
      SelfDelimiting Transaction.encode ∧ PrefixFree Transaction.encode := by
  have message := Message.selfDelimiting_encode
  have transaction := Transaction.selfDelimiting_encode
  exact ⟨message, message.prefixFree, transaction, transaction.prefixFree⟩

def unchecked : Message where
  header := ⟨200, 201, 9⟩
  accountKeys := []
  recentBlockhash := FixedBytes.filled .hash 9
  instructions := [⟨7, [8], []⟩]

theorem encoded_bytes_unique_unchecked :
    ¬ unchecked.WellFormed ∧
    ∃ bytes, unchecked.encode = .ok bytes ∧
      (∀ other others rest otherRest, Message.encode other = .ok others →
        bytes ++ rest = others ++ otherRest → other = unchecked ∧ otherRest = rest) ∧
      ∀ other others, Message.encode other = .ok others → bytes <+: others → other = unchecked := by
  have written : unchecked.encode = .ok (unchecked.write unchecked.shortestSpelling) :=
    Message.encode_eq_ok_iff.mpr ⟨⟨rfl, rfl, .cons ⟨rfl, rfl⟩ .nil⟩, rfl⟩
  refine ⟨by decide, _, written, ?_, ?_⟩
  · intro other others rest otherRest otherWritten same
    obtain ⟨sameMessage, sameRest⟩ :=
      encoded_bytes_unique.1 _ _ _ _ _ _ written otherWritten same
    exact ⟨sameMessage.symm, sameRest.symm⟩
  · intro other others otherWritten start
    exact (encoded_bytes_unique.2.1 _ _ _ _ written otherWritten start).1.symm

end LedgerWire
