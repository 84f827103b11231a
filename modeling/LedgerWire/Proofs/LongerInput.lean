import LedgerWire.Proofs.InputExtent

/-!
What becomes of refused bytes when more of them come. A short read tells where it started and how
much it needs, and that is what it goes on telling until so much is there. What is wrong with the
bytes themselves stays wrong whatever follows.
-/

namespace LedgerWire

variable {α : Type} {bytes : Bytes} {offset needed remaining : Nat} {failure : WireError}

/-- The bytes end inside something that starts here and is so long: more bytes change no more than
how much of it is there, until all of it is. -/
structure CutShort (decode : Bytes → Except WireError α) (bytes : Bytes)
    (offset needed remaining : Nat) : Prop where
  place : offset + remaining = bytes.length
  short : remaining < needed
  again_iff : ∀ more, (∃ left, decode (bytes ++ more) = .error (.truncatedInput offset needed left)) ↔
    more.length < needed - remaining
  again : ∀ more, more.length < needed - remaining →
    decode (bytes ++ more) = .error (.truncatedInput offset needed (remaining + more.length))

theorem CutShort.congr {first second : Bytes → Except WireError α}
    (same : ∀ bytes offset needed remaining,
      first bytes = .error (.truncatedInput offset needed remaining) ↔
        second bytes = .error (.truncatedInput offset needed remaining))
    (cut : CutShort second bytes offset needed remaining) :
    CutShort first bytes offset needed remaining where
  place := cut.place
  short := cut.short
  again_iff more := by
    simp only [same]
    exact cut.again_iff more
  again more short := (same _ _ _ _).mpr (cut.again more short)

namespace Decoder

variable {decoder : Decoder α} [decoder.Local] [decoder.Steady]

theorem awaits_of_truncatedInput
    (failed : decoder.readAll bytes = .error (.truncatedInput offset needed remaining)) :
    ∃ front rest, bytes = front ++ rest ∧ front.length = offset ∧ rest.length = remaining ∧
      remaining < needed ∧ decoder.Awaits front needed := by
  have fate := fate_readAll decoder bytes
  rw [failed] at fate
  cases fate with
  | truncated awaits short => exact ⟨_, _, rfl, rfl, rfl, short, awaits⟩
  | refused placeless _ => exact absurd placeless WireError.not_placeless_truncatedInput

theorem cutShort_of_truncatedInput
    (failed : decoder.readAll bytes = .error (.truncatedInput offset needed remaining)) :
    CutShort decoder.readAll bytes offset needed remaining := by
  obtain ⟨front, rest, rfl, rfl, rfl, short, awaits⟩ := awaits_of_truncatedInput failed
  have again (more : Bytes) (within : more.length < needed - rest.length) :
      decoder.readAll (front ++ rest ++ more) =
        .error (.truncatedInput front.length needed (rest.length + more.length)) := by
    have fate : decoder.Fate (front ++ (rest ++ more)) _ :=
      .truncated awaits (show (rest ++ more).length < needed by rw [List.length_append]; omega)
    rw [List.append_assoc, fate.readAll_eq, List.length_append]
  refine ⟨List.length_append.symm, short, fun more => ⟨?_, ?_⟩, again⟩
  · rintro ⟨left, failedAgain⟩
    obtain ⟨_, _, split, place, size, shortAgain, _⟩ := awaits_of_truncatedInput failedAgain
    have total := congrArg List.length split
    simp only [List.length_append] at total
    omega
  · intro within
    exact ⟨_, again more within⟩

theorem readAll_append_of_refused (failed : decoder.readAll bytes = .error failure)
    (notShort : ∀ offset needed remaining, failure ≠ .truncatedInput offset needed remaining)
    (notOver : ∀ offset remaining, failure ≠ .trailingBytes offset remaining) (more : Bytes) :
    decoder.readAll (bytes ++ more) = .error failure := by
  have fate := fate_readAll decoder bytes
  rw [failed] at fate
  cases fate with
  | trailing _ _ => exact absurd rfl (notOver _ _)
  | truncated _ _ => exact absurd rfl (notShort _ _ _)
  | refused _ refused => exact refused.readAll_append more

end Decoder

theorem Message.cutShort_of_decode
    (failed : decode bytes = .error (.truncatedInput offset needed remaining)) :
    CutShort decode bytes offset needed remaining :=
  Decoder.cutShort_of_truncatedInput failed

theorem Transaction.decode_eq_truncatedInput_iff :
    decode bytes = .error (.truncatedInput offset needed remaining) ↔
      decoder.readAll bytes = .error (.truncatedInput offset needed remaining) := by
  rw [decode_eq]
  cases decoder.readAll bytes with
  | error failure => rfl
  | ok transaction =>
      refine iff_of_false ?_ (by simp)
      dsimp only [bind, Except.bind]
      split <;> simp

theorem Transaction.cutShort_of_decode
    (failed : decode bytes = .error (.truncatedInput offset needed remaining)) :
    CutShort decode bytes offset needed remaining :=
  (Decoder.cutShort_of_truncatedInput (decode_eq_truncatedInput_iff.mp failed)).congr
    fun _ _ _ _ => decode_eq_truncatedInput_iff

/-- A short read is repeated, and nothing else of it changes, until the bytes that it misses have
come. Any other refusal of a message, but for bytes that are left over, is final. -/
theorem refusal_of_more_input :
    (∀ (bytes : Bytes) (offset needed remaining : Nat),
      Message.decode bytes = .error (.truncatedInput offset needed remaining) →
      CutShort Message.decode bytes offset needed remaining) ∧
    (∀ (bytes : Bytes) (offset needed remaining : Nat),
      Transaction.decode bytes = .error (.truncatedInput offset needed remaining) →
      CutShort Transaction.decode bytes offset needed remaining) ∧
    ∀ (bytes : Bytes) (failure : WireError), Message.decode bytes = .error failure →
      (∀ offset needed remaining, failure ≠ .truncatedInput offset needed remaining) →
      (∀ offset remaining, failure ≠ .trailingBytes offset remaining) →
      ∀ more, Message.decode (bytes ++ more) = .error failure := by
  refine ⟨?_, ?_, ?_⟩
  · intro bytes offset needed remaining failed
    exact Message.cutShort_of_decode failed
  · intro bytes offset needed remaining failed
    exact Transaction.cutShort_of_decode failed
  · intro bytes failure failed notShort notOver more
    exact Decoder.readAll_append_of_refused failed notShort notOver more

theorem refusal_of_more_input_broken_off :
    let key : Bytes := [2, 1, 1, 3, 7]
    let signature : Bytes := [1, 5, 5]
    let header : Bytes := [0, 1, 0, 0] ++ List.replicate 32 9 ++ [0]
    Message.decode key = .error (.truncatedInput 4 32 1) ∧
    Message.decode (key ++ List.replicate 30 7) = .error (.truncatedInput 4 32 31) ∧
    (¬ ∃ left, Message.decode (key ++ List.replicate 31 7) = .error (.truncatedInput 4 32 left)) ∧
    Transaction.decode signature = .error (.truncatedInput 1 64 2) ∧
    Transaction.decode (signature ++ [5]) = .error (.truncatedInput 1 64 3) ∧
    Message.decode header = .error (.invalidHeader (.readonlySigned 1 0)) ∧
    ∀ more, Message.decode (header ++ more) = .error (.invalidHeader (.readonlySigned 1 0)) := by
  intro key signature header
  have keyShort : Message.decode key = .error (.truncatedInput 4 32 1) := rfl
  have signatureShort : Transaction.decode signature = .error (.truncatedInput 1 64 2) := rfl
  have refused : Message.decode header = .error (.invalidHeader (.readonlySigned 1 0)) := rfl
  have keyCut := refusal_of_more_input.1 _ _ _ _ keyShort
  have signatureCut := refusal_of_more_input.2.1 _ _ _ _ signatureShort
  refine ⟨keyShort, ?_, ?_, signatureShort, ?_, refused, ?_⟩
  · exact keyCut.again (List.replicate 30 7) (by decide)
  · rw [keyCut.again_iff]
    decide
  · exact signatureCut.again [5] (by decide)
  · exact refusal_of_more_input.2.2 _ _ refused (by simp) (by simp)

end LedgerWire
