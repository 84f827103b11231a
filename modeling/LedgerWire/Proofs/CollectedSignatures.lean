import LedgerWire.Proofs.HonestSigning

/-!
Signing here and signing elsewhere. It makes no difference whether the signers are asked while a
transaction is built or have answered before: the signatures end up in the same slots, and where a
signer is foreign or missing, the same one is named.
-/

namespace LedgerWire.Transaction

open Message (entangled entangledMessage entangled_compiledFrom)

variable {message : Message} {signers : List Signer} {signatures : List Signature}
variable {bytes : Bytes} {failure : WireError}

theorem resize_length (signatures : List Signature) :
    resize signatures signatures.length = signatures := by
  simp [resize]

theorem resize_unsigned (message : Message) :
    resize (unsigned message).signatures message.requiredSignatures =
      (unsigned message).signatures := by
  simpa [unsigned] using resize_length (unsigned message).signatures

theorem partialSign_unsigned (written : message.encode = .ok bytes)
    (answered : signers.mapM (fun signer => signer.sign bytes) = .ok signatures) :
    (unsigned message).partialSign signers =
      signers.mapM (fun signer => slotOf message signer.publicKey) >>= fun slots =>
        .ok ⟨place (unsigned message).signatures (slots.zip signatures), message⟩ := by
  have size := resize_unsigned message
  simp only [partialSign, unsigned] at size ⊢
  rw [written, size]
  simp only [bind, Except.bind, answered]
  rfl

theorem error_of_ofSignatures {given : List (PublicKey × Signature)}
    (failed : ofSignatures message given = .error failure) :
    (∃ pair ∈ given, pair.1 ∉ message.signerKeys ∧ failure = .unknownSigner pair.1) ∨
      ∃ slot key, message.signerKeys[slot]? = some key ∧ failure = .missingSigner slot key := by
  rw [ofSignatures_eq] at failed
  cases looked : given.mapM fun pair => do return (← slotOf message pair.1, pair.2) with
  | error first =>
      rw [looked] at failed
      cases failed
      obtain ⟨pair, member, foreign⟩ := exists_of_mapM_eq_error looked
      exact .inl ⟨pair, member, entry_eq_error_iff.mp foreign⟩
  | ok filled =>
      rw [looked] at failed
      dsimp only [bind, Except.bind] at failed
      split at failed
      · rename_i missing
        cases failed
        obtain ⟨slot, key, owner, _, _, same⟩ := missingSigner_of_checkComplete missing
        exact .inr ⟨slot, key, owner, same⟩
      · cases failed

theorem build_eq_ofSignatures {instructions : List Instruction} {feePayer : PublicKey}
    {recentBlockhash : Hash}
    (compiled : Message.compile instructions feePayer recentBlockhash = .ok message)
    (written : message.encode = .ok bytes)
    (answered : List.Forall₂ (fun signer signature => signer.sign bytes = .ok signature)
      signers signatures) :
    build instructions feePayer recentBlockhash signers =
      ofSignatures message ((signers.map Signer.publicKey).zip signatures) ∧
    ∀ failure, build instructions feePayer recentBlockhash signers = .error failure →
      (∃ signer ∈ signers, signer.publicKey ∉ message.signerKeys ∧
        failure = .unknownSigner signer.publicKey) ∨
      ∃ slot key, message.signerKeys[slot]? = some key ∧ failure = .missingSigner slot key := by
  have size : (signers.map Signer.publicKey).length = signatures.length := by
    rw [List.length_map, answered.length_eq]
  have slots : (signers.map Signer.publicKey).mapM (slotOf message) =
      signers.mapM fun signer => slotOf message signer.publicKey := List.mapM_map
  have same : build instructions feePayer recentBlockhash signers =
      ofSignatures message ((signers.map Signer.publicKey).zip signatures) := by
    rw [build_of_compile compiled, ofSignatures_eq, mapM_zip size, slots,
      partialSign_unsigned written (mapM_eq_ok_iff.mpr answered)]
    cases signers.mapM fun signer => slotOf message signer.publicKey <;> rfl
  refine ⟨same, fun failure failed => ?_⟩
  rw [same] at failed
  rcases error_of_ofSignatures failed with ⟨pair, member, foreign, named⟩ | missing
  · obtain ⟨signer, signerMember, key⟩ := List.mem_map.mp (List.of_mem_zip member).1
    refine .inl ⟨signer, signerMember, ?_, ?_⟩
    · rwa [key]
    · rw [named, key]
  · exact .inr missing

theorem build_eq_ofSignatures_entangled :
    let key := FixedBytes.filled .publicKey
    let mark := FixedBytes.filled .signature
    let signs := fun byte => holder (key byte) (mark byte)
    let buildWith := build entangled (key 1) (FixedBytes.filled .hash 9)
    buildWith [signs 2, signs 6, holder (key 2) (mark 7), signs 1] =
      .ok ⟨[mark 1, mark 7, mark 6], entangledMessage⟩ ∧
    buildWith [signs 1, signs 9, signs 2] = .error (.unknownSigner (key 9)) ∧
    buildWith [signs 6, holder (key 2) .placeholder, signs 1] =
      .error (.missingSigner 1 (key 2)) := by
  intro key mark signs buildWith
  have compiled : Message.compile entangled (key 1) (FixedBytes.filled .hash 9) =
      .ok entangledMessage := Message.compile_eq_ok_iff.mpr entangled_compiledFrom
  obtain ⟨bytes, written⟩ : ∃ bytes, entangledMessage.encode = .ok bytes :=
    ⟨_, Message.encode_eq_ok_iff.mpr ⟨⟨rfl, rfl, .cons ⟨rfl, rfl⟩ (.cons ⟨rfl, rfl⟩ .nil)⟩, rfl⟩⟩
  have elsewhere {signers : List Signer} {signatures : List Signature}
      (answered : List.Forall₂ (fun signer signature => signer.sign bytes = .ok signature)
        signers signatures) : buildWith signers =
      ofSignatures entangledMessage ((signers.map Signer.publicKey).zip signatures) :=
    (build_eq_ofSignatures compiled written answered).1
  refine ⟨?_, ?_, ?_⟩
  · refine (elsewhere (.cons rfl (.cons rfl (.cons rfl (.cons rfl .nil))))).trans ?_
    decide +kernel
  · refine (elsewhere (.cons rfl (.cons rfl (.cons rfl .nil)))).trans ?_
    decide +kernel
  · refine (elsewhere (.cons rfl (.cons rfl (.cons rfl .nil)))).trans ?_
    decide +kernel

end LedgerWire.Transaction
