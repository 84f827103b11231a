import LedgerWire.Proofs.TransactionSpelling

/-!
When writing fails, and how many bytes it takes. Nothing can go wrong but that a length has no
prefix. Lengths are written one after another, so the first that is too large is the one reported;
where none is, the size that is computed beforehand is the size of what is written.
-/

namespace LedgerWire

open CompactLength (maxLength)

namespace CompiledInstruction

def lengths (instruction : CompiledInstruction) : List Nat :=
  [instruction.accounts.length, instruction.data.length]

theorem encode_eq (instruction : CompiledInstruction) : instruction.encode =
    instruction.lengths.mapM CompactLength.encode >>= fun _ =>
      .ok (instruction.write instruction.shortestSpelling) := by
  rw [encode, lengths, List.mapM_cons, List.mapM_cons, List.mapM_nil]
  cases counted : CompactLength.encode instruction.accounts.length with
  | error failure => rfl
  | ok accountCount =>
      cases measured : CompactLength.encode instruction.data.length with
      | error failure => rfl
      | ok dataLength =>
          rw [(CompactLength.encode_eq_ok_iff.mp counted).2,
            (CompactLength.encode_eq_ok_iff.mp measured).2]
          rfl

end CompiledInstruction

namespace Message

def lengths (message : Message) : List Nat :=
  message.accountKeys.length :: message.instructions.length ::
    message.instructions.flatMap CompiledInstruction.lengths

theorem encode_eq (message : Message) : message.encode =
    message.lengths.mapM CompactLength.encode >>= fun _ =>
      .ok (message.write message.shortestSpelling) := by
  rw [encode, lengths, List.mapM_cons, List.mapM_cons,
    mapM_eq_bind_flatMap CompiledInstruction.encode_eq]
  cases keysCounted : CompactLength.encode message.accountKeys.length with
  | error failure => rfl
  | ok keyCount =>
      cases counted : CompactLength.encode message.instructions.length with
      | error failure => rfl
      | ok instructionCount =>
          rw [(CompactLength.encode_eq_ok_iff.mp keysCounted).2,
            (CompactLength.encode_eq_ok_iff.mp counted).2]
          have written : message.instructions.map (fun instruction =>
              instruction.write instruction.shortestSpelling) =
                List.zipWith CompiledInstruction.write message.instructions
                  (message.instructions.map CompiledInstruction.shortestSpelling) := by
            rw [List.zipWith_map_right, List.zipWith_self]
          rw [written]
          cases (message.instructions.flatMap CompiledInstruction.lengths).mapM
            CompactLength.encode <;> rfl

end Message

namespace Transaction

def lengths (transaction : Transaction) : List Nat :=
  transaction.signatures.length :: transaction.message.lengths

theorem encode_eq (transaction : Transaction) : transaction.encode =
    transaction.lengths.mapM CompactLength.encode >>= fun _ =>
      .ok (transaction.write transaction.shortestSpelling) := by
  rw [encode, lengths, List.mapM_cons, Message.encode_eq]
  cases counted : CompactLength.encode transaction.signatures.length with
  | error failure => rfl
  | ok count =>
      rw [(CompactLength.encode_eq_ok_iff.mp counted).2]
      cases transaction.message.lengths.mapM CompactLength.encode <;> rfl

end Transaction

/-- How it ends to write these lengths one after another, in so many bytes with what is between
them. -/
structure Writes (lengths : List Nat) (size : Nat) (outcome : Except WireError Bytes) : Prop where
  fails_iff : (∃ failure, outcome = .error failure) ↔ ∃ length ∈ lengths, maxLength < length
  first : ∀ failure, outcome = .error failure → ∃ before length after,
    lengths = before ++ length :: after ∧ (∀ earlier ∈ before, earlier ≤ maxLength) ∧
      maxLength < length ∧ failure = .encodingRange length maxLength
  size_eq : ∀ bytes, outcome = .ok bytes → bytes.length = size

variable {lengths : List Nat} {failure : WireError} {bytes : Bytes}

theorem first_of_mapM_encode (failed : lengths.mapM CompactLength.encode = .error failure) :
    ∃ before length after, lengths = before ++ length :: after ∧
      (∀ earlier ∈ before, earlier ≤ maxLength) ∧ maxLength < length ∧
        failure = .encodingRange length maxLength := by
  obtain ⟨before, length, after, split, fit, failedThere⟩ := mapM_eq_error_iff.mp failed
  obtain ⟨beyond, reported⟩ := CompactLength.encode_eq_error_iff.mp failedThere
  refine ⟨before, length, after, split, fun earlier member => ?_, beyond, reported⟩
  obtain ⟨_, written⟩ := fit earlier member
  exact (CompactLength.encode_eq_ok_iff.mp written).1

theorem le_maxLength_of_mapM_encode {prefixes : List Bytes}
    (written : lengths.mapM CompactLength.encode = .ok prefixes) :
    ∀ length ∈ lengths, length ≤ maxLength := by
  intro length member
  obtain ⟨_, fits⟩ := exists_of_mapM_eq_ok written member
  exact (CompactLength.encode_eq_ok_iff.mp fits).1

theorem writes_mapM_encode (lengths : List Nat) (bytes : Bytes) : Writes lengths bytes.length
    (lengths.mapM CompactLength.encode >>= fun _ => .ok bytes) := by
  cases ran : lengths.mapM CompactLength.encode with
  | error failure =>
      have found := first_of_mapM_encode ran
      refine ⟨iff_of_true ⟨failure, rfl⟩ ?_, ?_, ?_⟩
      · obtain ⟨_, length, _, rfl, _, beyond, _⟩ := found
        exact ⟨length, by simp, beyond⟩
      · intro reported same
        cases same
        exact found
      · intro written same
        cases same
  | ok prefixes =>
      have fit := le_maxLength_of_mapM_encode ran
      refine ⟨iff_of_false ?_ ?_, ?_, ?_⟩
      · rintro ⟨failure, same⟩
        cases same
      · rintro ⟨length, member, beyond⟩
        exact Nat.not_lt.mpr (fit length member) beyond
      · intro failure same
        cases same
      · intro written same
        cases same
        rfl

/-- A message is written if all its lengths are small enough, in as many bytes as its size says, and
otherwise the first that is not is reported. The same holds of a transaction, which writes the
number of its signatures before all others. -/
theorem encode_outcome :
    (∀ message : Message, Writes message.lengths message.encodedSize message.encode) ∧
    ∀ transaction : Transaction,
      Writes transaction.lengths transaction.encodedSize transaction.encode := by
  constructor
  · intro message
    rw [message.encode_eq, ← Message.length_write_shortest]
    exact writes_mapM_encode _ _
  · intro transaction
    rw [transaction.encode_eq, ← Transaction.length_write_shortest]
    exact writes_mapM_encode _ _

end LedgerWire
