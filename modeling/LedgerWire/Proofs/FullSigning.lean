import LedgerWire.Proofs.MessageStructure
import LedgerWire.Proofs.SigningOrder

/-!
Signing in full. Signing succeeds where signing in part does and no slot is left open. The check
for open slots goes by the keys that sign and the question whether all is signed by the slots; they
agree once there is a slot for each key, which a checked header and the signing before make sure of.
-/

namespace LedgerWire.Transaction

open Message (entangledMessage)

variable {transaction signed : Transaction} {signers : List Signer} {slot : Nat}
variable {failure : WireError}

theorem getElem?_of_not_filled (inside : slot < transaction.signatures.length)
    (empty : ¬ transaction.Filled slot) :
    transaction.signatures[slot]? = some Signature.placeholder := by
  have held := List.getElem?_eq_getElem inside
  rw [not_filled_iff, held] at empty
  rw [held, (FixedBytes.isZero_iff _).mp empty]
  rfl

theorem checkComplete_iff_isFullySigned (formed : transaction.message.WellFormed)
    (sized : transaction.signatures.length = transaction.message.requiredSignatures) :
    transaction.checkComplete = .ok () ↔ transaction.isFullySigned = true := by
  rw [checkComplete_eq_ok_iff, isFullySigned_iff, formed.length_signerKeys]
  exact (and_iff_right sized).symm

theorem sign_of_partialSign (done : transaction.partialSign signers = .ok signed) :
    transaction.sign signers = (signed, signed.checkComplete) := by
  rw [sign, done]

theorem sign_of_failure (failed : transaction.partialSign signers = .error failure) :
    transaction.sign signers = (transaction, .error failure) := by
  rw [sign, failed]

theorem sign_eq_ok_iff (formed : transaction.message.WellFormed) :
    transaction.sign signers = (signed, .ok ()) ↔
      transaction.partialSign signers = .ok signed ∧ signed.isFullySigned = true := by
  cases outcome : transaction.partialSign signers with
  | error failure => simp [sign_of_failure outcome]
  | ok placed =>
      have sameMessage := message_of_partialSign outcome
      have sized := length_signatures_of_partialSign outcome
      rw [sign_of_partialSign outcome, Prod.mk.injEq, Except.ok.injEq]
      refine and_congr_right ?_
      rintro rfl
      rw [← sameMessage] at formed sized
      exact checkComplete_iff_isFullySigned formed sized

theorem exists_open_slot (formed : transaction.message.WellFormed)
    (done : transaction.partialSign signers = .ok signed)
    (unsigned : Signature.placeholder ∈ signed.signatures) :
    ∃ slot key, signed.signatures[slot]? = some Signature.placeholder ∧
      (∀ earlier < slot, signed.Filled earlier) ∧ signed.message.accountKeys[slot]? = some key ∧
      transaction.sign signers = (signed, .error (.missingSigner slot key)) := by
  have sized := length_signatures_of_partialSign done
  rw [← message_of_partialSign done] at formed sized
  cases checked : signed.checkComplete with
  | ok complete =>
      rw [checkComplete_iff_isFullySigned formed sized, isFullySigned] at checked
      have filled := List.all_eq_true.mp (Bool.and_eq_true_iff.mp checked).2 _ unsigned
      rw [isPlaceholder_placeholder] at filled
      cases filled
  | error failure =>
      obtain ⟨slot, key, owner, empty, before, rfl⟩ := missingSigner_of_checkComplete checked
      obtain ⟨inside, named⟩ := Message.getElem?_signerKeys_iff.mp owner
      rw [← sized] at inside
      refine ⟨slot, key, getElem?_of_not_filled inside empty, before, named, ?_⟩
      rw [sign_of_partialSign done, checked]

namespace InPlace

def sign (signers : List Signer) : InPlace Unit := do
  partialSign signers
  attempt (← get).transaction.checkComplete

theorem run_sign (transaction : Transaction) (signers : List Signer) :
    ∃ asked, (sign signers).run ⟨transaction, []⟩ =
      ((transaction.sign signers).2.mapError Halt.failure,
        ⟨(transaction.sign signers).1, asked⟩) := by
  cases outcome : transaction.partialSign signers with
  | ok signed =>
      refine ⟨signers, ?_⟩
      rw [sign, run_bind_of_ok (run_partialSign_of_ok outcome), sign_of_partialSign outcome]
      exact run_attempt signed.checkComplete
  | error failure =>
      obtain ⟨asked, refused⟩ := refused_of_partialSign outcome
      refine ⟨asked, ?_⟩
      rw [sign_of_failure outcome]
      exact run_bind_of_error (run_partialSign_of_refused refused)

end InPlace

/-- Signing succeeds if signing in part does and leaves the transaction fully signed. It stops at
the first slot that is still a placeholder and keeps the signatures then, also when it is done in
place; when signing in part fails, it fails alike and nothing has changed. -/
theorem sign_outcome (checked : transaction.message.check = .ok ()) (signers : List Signer) :
    (∀ signed, transaction.sign signers = (signed, .ok ()) ↔
      transaction.partialSign signers = .ok signed ∧ signed.isFullySigned = true) ∧
    (∀ signed, transaction.partialSign signers = .ok signed →
      Signature.placeholder ∈ signed.signatures →
        ∃ slot key, signed.signatures[slot]? = some Signature.placeholder ∧
          (∀ earlier < slot, signed.Filled earlier) ∧
          signed.message.accountKeys[slot]? = some key ∧
          transaction.sign signers = (signed, .error (.missingSigner slot key))) ∧
    (∀ failure, transaction.partialSign signers = .error failure →
      transaction.sign signers = (transaction, .error failure)) ∧
    ∃ asked, (InPlace.sign signers).run ⟨transaction, []⟩ =
      ((transaction.sign signers).2.mapError Halt.failure,
        ⟨(transaction.sign signers).1, asked⟩) := by
  have formed := (Message.check_eq_ok_iff _).mp checked
  refine ⟨fun signed => sign_eq_ok_iff formed, ?_, fun failure => sign_of_failure,
    InPlace.run_sign transaction signers⟩
  intro signed done unsigned
  exact exists_open_slot formed done unsigned

theorem sign_outcome_entangled :
    let key := FixedBytes.filled .publicKey
    let mark := FixedBytes.filled .signature
    let signs := fun byte => holder (key byte) (mark byte)
    let start : Transaction := ⟨[mark 5], entangledMessage⟩
    start.message.check = .ok () ∧
    start.sign [signs 6, signs 2] = (⟨[mark 5, mark 2, mark 6], entangledMessage⟩, .ok ()) ∧
    start.sign [signs 6] = (⟨[mark 5, .placeholder, mark 6], entangledMessage⟩,
      .error (.missingSigner 1 (key 2))) ∧
    start.sign [signs 6, signs 5] = (start, .error (.unknownSigner (key 5))) := by
  intro key mark signs start
  have checked : start.message.check = .ok () :=
    (Message.check_eq_ok_iff _).mpr Message.entangled_compiledFrom.wellFormed
  refine ⟨checked, ?_, ?_, ?_⟩
  · exact ((sign_outcome checked _).1 _).mpr ⟨by decide +kernel, by decide +kernel⟩
  · have done : start.partialSign [signs 6] =
        .ok ⟨[mark 5, .placeholder, mark 6], entangledMessage⟩ := by decide +kernel
    obtain ⟨slot, owner, held, _, named, ended⟩ :=
      (sign_outcome checked _).2.1 _ done (by simp)
    obtain rfl : slot = 1 := by
      rcases slot with _ | _ | _ | slot
      · exact absurd held (by decide)
      · rfl
      · exact absurd held (by decide)
      · cases held
    obtain rfl : key 2 = owner := Option.some.inj named
    exact ended
  · exact (sign_outcome checked _).2.2.1 _ (by decide +kernel)

example :
    let signer := holder (FixedBytes.filled .publicKey 1) (FixedBytes.filled .signature 1)
    let message : Message := ⟨⟨2, 0, 0⟩, [signer.publicKey], FixedBytes.filled .hash 9, []⟩
    ((unsigned message).sign [signer]).2 = .ok () ∧
      ((unsigned message).sign [signer]).1.isFullySigned = false := by decide +kernel

end LedgerWire.Transaction
