import LedgerWire.Proofs.Compile
import LedgerWire.Proofs.MessageSpelling
import LedgerWire.Proofs.SignatureSlots

/-!
Signers that can be trusted with their own keys. What an honest signer signs verifies, and nothing
else is asked of it; in particular nothing is assumed of the signature scheme. A transaction whose
filled slots all verify stays so when honest signers sign it, whichever slots they fill again.
-/

namespace LedgerWire

def Signer.Honest (signer : Signer) : Prop :=
  ∀ (bytes : Bytes) (signature : Signature), signer.sign bytes = .ok signature →
    signature.verifies signer.publicKey bytes = true

def Signer.careful (signer : Signer) : Signer where
  publicKey := signer.publicKey
  sign bytes := do
    let signature ← signer.sign bytes
    if signature.verifies signer.publicKey bytes then return signature
    else throw (.signing signer.publicKey "the signature does not verify")

theorem Signer.honest_careful (signer : Signer) : signer.careful.Honest := by
  intro bytes signature signed
  obtain ⟨made, _, checked⟩ := bind_eq_ok_iff.mp signed
  split at checked
  · rename_i verified
    cases checked
    exact verified
  · cases checked

namespace Transaction

variable {transaction signed : Transaction} {signers : List Signer} {bytes : Bytes}
variable {message : Message}

theorem signedOver_unsigned (message : Message) (bytes : Bytes) :
    (unsigned message).SignedOver bytes := by
  intro slot signature key held _ filled
  obtain rfl := List.eq_of_mem_replicate (List.mem_of_getElem? held)
  rw [isPlaceholder_placeholder] at filled
  cases filled

/-- Each slot holds what it held, nothing, or the signature of a signer who owns it. -/
theorem SignedOver.of_partialSign (held : transaction.SignedOver bytes)
    (written : transaction.message.encode = .ok bytes) (honest : ∀ signer ∈ signers, signer.Honest)
    (done : transaction.partialSign signers = .ok signed) : signed.SignedOver bytes := by
  obtain ⟨slots, signedBytes, signatures, owned, signedWritten, answered, rfl⟩ :=
    partialSign_eq_ok_iff.mp done
  obtain rfl : bytes = signedBytes := Except.ok.inj (written.symm.trans signedWritten)
  intro slot signature key found owner filled
  rcases mem_or_getElem?_of_place found with placed | kept
  · obtain ⟨signer, member, ownsSlot, signs⟩ := exists_of_mem_zip_mapM owned answered placed
    have sameKey : some key = some signer.publicKey := owner.symm.trans (getElem?_of_slotOf ownsSlot)
    cases sameKey
    exact honest signer member bytes signature signs
  · exact held slot signature key (getElem?_of_resize kept filled) owner filled

theorem verify_of_partialSign (verified : transaction.verify = .ok ())
    (honest : ∀ signer ∈ signers, signer.Honest)
    (done : transaction.partialSign signers = .ok signed) : signed.verify = .ok () := by
  obtain ⟨bytes, written, held⟩ := verify_eq_ok_iff.mp verified
  refine verify_eq_ok_iff.mpr ⟨bytes, ?_, held.of_partialSign written honest done⟩
  rw [message_of_partialSign done, written]

theorem signed_slots_of_build {instructions : List Instruction} {feePayer : PublicKey}
    {recentBlockhash : Hash}
    (built : build instructions feePayer recentBlockhash signers = .ok signed) :
    signed.message.signerKeys.length = signed.message.requiredSignatures ∧
      signed.signatures.length = signed.message.requiredSignatures ∧
      ∀ slot < signed.message.requiredSignatures, signed.Filled slot := by
  obtain ⟨message, compiled, placed, complete⟩ := build_eq_ok_iff.mp built
  have sameMessage : signed.message = message := message_of_partialSign placed
  have formed : signed.message.WellFormed := by
    rw [sameMessage]
    exact (Message.compile_eq_ok_iff.mp compiled).wellFormed
  refine ⟨formed.length_signerKeys, ?_, ?_⟩
  · rw [length_signatures_of_partialSign placed, sameMessage]
    rfl
  · intro slot inside
    rw [← formed.length_signerKeys] at inside
    exact checkComplete_eq_ok_iff.mp complete slot inside

/-- Honest signers keep a transaction valid, and what is built with them is valid and complete:
every key that must sign has a signature in its slot, over the bytes of the message. -/
theorem verify_of_honest_signers :
    (∀ (transaction signed : Transaction) (signers : List Signer),
      transaction.verify = .ok () → (∀ signer ∈ signers, signer.Honest) →
      transaction.partialSign signers = .ok signed → signed.verify = .ok ()) ∧
    (∀ (instructions : List Instruction) (feePayer : PublicKey) (recentBlockhash : Hash)
      (signers : List Signer) (signed : Transaction), (∀ signer ∈ signers, signer.Honest) →
      build instructions feePayer recentBlockhash signers = .ok signed →
      signed.verify = .ok () ∧ signed.isFullySigned = true ∧
      signed.signatures.length = signed.message.requiredSignatures ∧
      ∃ bytes, signed.message.encode = .ok bytes ∧
        ∀ slot < signed.message.requiredSignatures, ∃ key signature,
          signed.message.accountKeys[slot]? = some key ∧
          signed.signatures[slot]? = some signature ∧ signature.isPlaceholder = false ∧
          signature.verifies key bytes = true) := by
  constructor
  · intro transaction signed signers verified honest done
    exact verify_of_partialSign verified honest done
  · intro instructions feePayer recentBlockhash signers signed honest built
    obtain ⟨message, _, placed, _⟩ := build_eq_ok_iff.mp built
    obtain ⟨owners, size, filled⟩ := signed_slots_of_build built
    obtain ⟨_, bytes, _, _, written, _⟩ := partialSign_eq_ok_iff.mp placed
    have verified : signed.verify = .ok () := by
      apply verify_of_partialSign _ honest placed
      exact verify_eq_ok_iff.mpr ⟨bytes, written, signedOver_unsigned message bytes⟩
    refine ⟨verified, isFullySigned_iff.mpr ⟨size, filled⟩, size, ?_⟩
    obtain ⟨signedBytes, signedWritten, held⟩ := verify_eq_ok_iff.mp verified
    refine ⟨signedBytes, signedWritten, ?_⟩
    intro slot inside
    obtain ⟨signature, found, full⟩ := filled slot inside
    have bound : slot < signed.message.signerKeys.length := by omega
    have owner := List.getElem?_eq_getElem bound
    refine ⟨_, signature, ?_, found, full, held slot signature _ found owner full⟩
    rw [← owner, Message.signerKeys, List.getElem?_take_of_lt inside]

def holder (publicKey : PublicKey) (signature : Signature) : Signer where
  publicKey := publicKey
  sign _ := .ok signature

def payerKey : PublicKey :=
  ⟨LittleEndian.encode 32 0x5c6f0fb4018874f31b12941dbf0967ca725dba3c2ddb52fd95f10974dde3888a,
    LittleEndian.length_encode 32 _⟩

def partnerKey : PublicKey :=
  ⟨LittleEndian.encode 32 0x94b3c98f5b0ff65da237eeb4918a8dcbcc7e4cc36654a3565f177da80e773981,
    LittleEndian.length_encode 32 _⟩

def joint : List Instruction := [⟨WellKnown.system.key, [⟨partnerKey, true, false⟩], [3]⟩]

def jointMessage : Message where
  header := ⟨2, 1, 1⟩
  accountKeys := [payerKey, partnerKey, WellKnown.system.key]
  recentBlockhash := FixedBytes.filled .hash 9
  instructions := [⟨2, [1], [3]⟩]

theorem joint_compiledFrom :
    jointMessage.CompiledFrom joint payerKey (FixedBytes.filled .hash 9) := by
  decide +kernel

def jointBytes : Bytes := jointMessage.write jointMessage.shortestSpelling

theorem encode_jointMessage : jointMessage.encode = .ok jointBytes :=
  Message.encode_eq_ok_iff.mpr ⟨⟨rfl, rfl, .cons ⟨rfl, rfl⟩ .nil⟩, rfl⟩

def payerSignature : Signature :=
  ⟨LittleEndian.encode 32 0x87d95ba6f3213c207bae9722a864d24fd6998b33514e37dc6d0fa7c9a7941d8c ++
    LittleEndian.encode 32 0x1c99b9f298ead271c26c31c18316c8f4688d3e5231654deb6d5c00830868e0f,
    by simp [FixedBytes.Kind.size]⟩

def partnerSignature : Signature :=
  ⟨LittleEndian.encode 32 0x0d116147c8a99c7ecae9a45a00fa9fbc6c89cb53447837da6a6d96651bd3f34a ++
    LittleEndian.encode 32 0x5b2474a39829d7170328b8c35aa287e31922ed48f7714a3f9f77c7398c398d3,
    by simp [FixedBytes.Kind.size]⟩

theorem payerSignature_verifies : payerSignature.verifies payerKey jointBytes = true := by
  decide +kernel

theorem partnerSignature_verifies : partnerSignature.verifies partnerKey jointBytes = true := by
  decide +kernel

theorem sign_careful_holder {publicKey : PublicKey} {signature : Signature}
    (verified : signature.verifies publicKey bytes = true) :
    (holder publicKey signature).careful.sign bytes = .ok signature := by
  simp only [Signer.careful, holder, bind, Except.bind, verified, if_true]
  rfl

def jointTransaction : Transaction := ⟨[payerSignature, partnerSignature], jointMessage⟩

def paidFor : Transaction := ⟨[payerSignature], jointMessage⟩

theorem verify_of_honest_signers_joint :
    let payer := (holder payerKey payerSignature).careful
    let partner := (holder partnerKey partnerSignature).careful
    paidFor.verify = .ok () ∧ payer.Honest ∧ partner.Honest ∧
    paidFor.partialSign [partner, partner] = .ok jointTransaction ∧
    build joint payerKey (FixedBytes.filled .hash 9) [partner, payer] = .ok jointTransaction ∧
    jointTransaction.verify = .ok () ∧ jointTransaction.isFullySigned = true := by
  intro payer partner
  have payerSigns : payer.sign jointBytes = .ok payerSignature :=
    sign_careful_holder payerSignature_verifies
  have partnerSigns : partner.sign jointBytes = .ok partnerSignature :=
    sign_careful_holder partnerSignature_verifies
  have honest : ∀ signer ∈ [partner, payer], signer.Honest := by
    simp only [List.forall_mem_cons, partner, payer]
    exact ⟨Signer.honest_careful _, Signer.honest_careful _, by simp⟩
  have started : paidFor.verify = .ok () := by
    refine verify_eq_ok_iff.mpr ⟨jointBytes, encode_jointMessage, ?_⟩
    rintro (_ | slot) signature key held owner _
    · cases held
      cases owner
      exact payerSignature_verifies
    · cases held
  have continued : paidFor.partialSign [partner, partner] = .ok jointTransaction := by
    refine partialSign_eq_ok_iff.mpr ⟨[1, 1], jointBytes,
      [partnerSignature, partnerSignature], rfl, encode_jointMessage, ?_, rfl⟩
    exact mapM_eq_ok_iff.mpr (.cons partnerSigns (.cons partnerSigns .nil))
  have built : build joint payerKey (FixedBytes.filled .hash 9) [partner, payer] =
      .ok jointTransaction := by
    refine build_eq_ok_iff.mpr ⟨jointMessage, ?_, partialSign_eq_ok_iff.mpr
      ⟨[1, 0], jointBytes, [partnerSignature, payerSignature], rfl, encode_jointMessage, ?_, rfl⟩,
      by decide +kernel⟩
    · exact Message.compile_eq_ok_iff.mpr joint_compiledFrom
    · exact mapM_eq_ok_iff.mpr (.cons partnerSigns (.cons payerSigns .nil))
  obtain ⟨_, complete, _⟩ := verify_of_honest_signers.2 _ _ _ _ _ honest built
  refine ⟨started, Signer.honest_careful _, Signer.honest_careful _, continued, built, ?_, complete⟩
  apply verify_of_honest_signers.1 _ _ _ started _ continued
  simp only [List.forall_mem_cons, partner]
  exact ⟨Signer.honest_careful _, Signer.honest_careful _, by simp⟩

end Transaction

end LedgerWire
