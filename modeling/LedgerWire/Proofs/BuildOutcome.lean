import LedgerWire.Proofs.FullSigning
import LedgerWire.Proofs.KeyLayout
import Mathlib.Data.Finset.Card

/-!
When building succeeds. The keys that the instructions ask to sign are the keys that own a slot, so
what the caller has to bring is said without the message: signers for these keys and no others, each
of whom signs, and for each key a signature that is not a placeholder.
-/

namespace LedgerWire

namespace Message

variable {instructions : List Instruction} {feePayer key : PublicKey} {recentBlockhash : Hash}
variable {message : Message}

def requiredSigners (instructions : List Instruction) (feePayer : PublicKey) : Finset PublicKey :=
  insert feePayer (((instructions.flatMap Instruction.accounts).filter AccountMeta.isSigner).map
    AccountMeta.publicKey).toFinset

theorem mem_requiredSigners_iff : key ∈ requiredSigners instructions feePayer ↔
    (requested instructions feePayer key).signer = true := by
  simp only [requiredSigners, requested, Finset.mem_insert, List.mem_toFinset, List.mem_map,
    List.mem_filter, List.mem_flatMap, Bool.or_eq_true, beq_iff_eq, List.any_eq_true,
    Bool.and_eq_true]
  refine or_congr_right ?_
  constructor
  · rintro ⟨account, ⟨⟨instruction, member, asked⟩, signs⟩, same⟩
    exact ⟨instruction, member, account, asked, same, signs⟩
  · rintro ⟨instruction, member, account, asked, same, signs⟩
    exact ⟨account, ⟨⟨instruction, member, asked⟩, signs⟩, same⟩

namespace CompiledFrom

variable (compiled : message.CompiledFrom instructions feePayer recentBlockhash)
include compiled

theorem mem_accountKeys_of_signer (signs : (requested instructions feePayer key).signer = true) :
    key ∈ message.accountKeys := by
  rw [compiled.mem_accountKeys]
  by_contra absent
  rw [← grantedBy_mentions, Privileges.grantedBy_of_not_mem absent] at signs
  cases signs

theorem mem_signerKeys_iff :
    key ∈ message.signerKeys ↔ key ∈ requiredSigners instructions feePayer := by
  have byPlace {index : Nat} (held : message.accountKeys[index]? = some key) :
      message.isSigner index = (requested instructions feePayer key).signer :=
    congrArg Privileges.signer (compiled.privileges_getElem? held)
  rw [mem_requiredSigners_iff]
  constructor
  · intro member
    obtain ⟨index, owner⟩ := List.mem_iff_getElem?.mp member
    obtain ⟨inside, held⟩ := getElem?_signerKeys_iff.mp owner
    rw [← byPlace held]
    exact decide_eq_true inside
  · intro signs
    obtain ⟨index, held⟩ := List.mem_iff_getElem?.mp (compiled.mem_accountKeys_of_signer signs)
    rw [← byPlace held] at signs
    exact List.mem_of_getElem? (getElem?_signerKeys_iff.mpr ⟨of_decide_eq_true signs, held⟩)

theorem card_requiredSigners :
    (requiredSigners instructions feePayer).card = message.requiredSignatures := by
  have same : requiredSigners instructions feePayer = message.signerKeys.toFinset := by
    ext key
    rw [List.mem_toFinset, compiled.mem_signerKeys_iff]
  rw [same, List.toFinset_card_of_nodup compiled.wellFormed.nodup_signerKeys,
    compiled.wellFormed.length_signerKeys]

end CompiledFrom

end Message

namespace Transaction

open Message (requiredSigners entangled entangledMessage entangled_compiledFrom)

variable {instructions : List Instruction} {feePayer key : PublicKey} {recentBlockhash : Hash}
variable {message : Message} {signers : List Signer} {signed : Transaction} {bytes : Bytes}
variable {slot : Nat}

def Covers (bytes : Bytes) (signers : List Signer) (key : PublicKey) : Prop :=
  ∃ signer signature, lastFor? Signer.publicKey key signers = some signer ∧
    signer.sign bytes = .ok signature ∧ signature.isPlaceholder = false

structure Suffice (required : Finset PublicKey) (bytes : Bytes) (signers : List Signer) : Prop where
  known : ∀ signer ∈ signers, signer.publicKey ∈ required
  answered : ∀ signer ∈ signers, ∃ signature, signer.sign bytes = .ok signature
  covered : ∀ key ∈ required, Covers bytes signers key

/-- There is a slot for each key that must sign, with what the last signer of the key has signed. -/
structure SignedInFull (message : Message) (required : Finset PublicKey) (bytes : Bytes)
    (signers : List Signer) (signed : Transaction) : Prop where
  length : signed.signatures.length = required.card
  slots : ∀ slot < required.card, ∃ key signer signature,
    message.accountKeys[slot]? = some key ∧
    lastFor? Signer.publicKey key signers = some signer ∧ signer.sign bytes = .ok signature ∧
    signed.signatures[slot]? = some signature
  message : signed.message = message

theorem SignedBy.filled_iff_covers (given : (unsigned message).SignedBy signers bytes signed)
    (distinct : message.signerKeys.Nodup) (owner : message.signerKeys[slot]? = some key) :
    signed.Filled slot ↔ Covers bytes signers key := by
  have last : lastFor? Signer.publicKey key signers = lastOwner? message signers slot :=
    lastFor?_eq_of_nodup distinct owner signers
  cases named : lastOwner? message signers slot with
  | none =>
      have inside := (Message.getElem?_signerKeys_iff.mp owner).1
      have kept := given.kept slot inside named
      rw [getElem?_unsigned inside, Option.getD_some] at kept
      simp [Filled, Covers, last, named, kept, isPlaceholder_placeholder]
  | some signer =>
      obtain ⟨signature, answer, placed⟩ := given.placed slot signer named
      simp [Filled, Covers, last, named, answer, placed]

theorem SignedBy.complete_iff (given : (unsigned message).SignedBy signers bytes signed)
    (distinct : message.signerKeys.Nodup) :
    signed.checkComplete = .ok () ↔ ∀ key ∈ message.signerKeys, Covers bytes signers key := by
  have sameMessage : signed.message = message := given.message
  rw [checkComplete_eq_ok_iff_of_slots, sameMessage]
  rw [sameMessage]
  exact fun _ _ owner => given.filled_iff_covers distinct owner

theorem build_eq_ok_iff_signedBy
    (compiled : Message.compile instructions feePayer recentBlockhash = .ok message) :
    build instructions feePayer recentBlockhash signers = .ok signed ↔
      ∃ bytes, (unsigned message).SignedBy signers bytes signed ∧
        signed.checkComplete = .ok () := by
  rw [build_eq_ok_iff, compiled]
  simp only [Except.ok.injEq, exists_eq_left', partialSign_eq_ok_iff_signedBy, exists_and_right]

theorem suffice_of_build (compiled : message.CompiledFrom instructions feePayer recentBlockhash)
    (given : (unsigned message).SignedBy signers bytes signed)
    (complete : signed.checkComplete = .ok ()) :
    Suffice (requiredSigners instructions feePayer) bytes signers where
  known := fun signer member => compiled.mem_signerKeys_iff.mp (given.owned signer member)
  answered := given.answered
  covered := fun key member =>
    (given.complete_iff compiled.wellFormed.nodup_signerKeys).mp complete key
      (compiled.mem_signerKeys_iff.mpr member)

theorem exists_build (compiled : message.CompiledFrom instructions feePayer recentBlockhash)
    (written : message.encode = .ok bytes)
    (enough : Suffice (requiredSigners instructions feePayer) bytes signers) :
    ∃ signed, build instructions feePayer recentBlockhash signers = .ok signed := by
  have owned : ∀ signer ∈ signers, signer.publicKey ∈ (unsigned message).message.signerKeys :=
    fun signer member => compiled.mem_signerKeys_iff.mpr (enough.known signer member)
  obtain ⟨signed, _, given⟩ := exists_partialSign owned written enough.answered
  have complete : signed.checkComplete = .ok () :=
    (given.complete_iff compiled.wellFormed.nodup_signerKeys).mpr fun key member =>
      enough.covered key (compiled.mem_signerKeys_iff.mp member)
  exact ⟨signed, (build_eq_ok_iff_signedBy (Message.compile_eq_ok_iff.mpr compiled)).mpr
    ⟨bytes, given, complete⟩⟩

theorem signedInFull_of_build
    (compiled : message.CompiledFrom instructions feePayer recentBlockhash)
    (given : (unsigned message).SignedBy signers bytes signed)
    (complete : signed.checkComplete = .ok ()) :
    SignedInFull message (requiredSigners instructions feePayer) bytes signers signed where
  message := given.message
  length := given.length.trans compiled.card_requiredSigners.symm
  slots := by
    intro slot inside
    rw [compiled.card_requiredSigners, ← compiled.wellFormed.length_signerKeys] at inside
    have owner := List.getElem?_eq_getElem inside
    have distinct := compiled.wellFormed.nodup_signerKeys
    have member := compiled.mem_signerKeys_iff.mp (List.mem_of_getElem? owner)
    obtain ⟨signer, signature, last, answer, _⟩ :=
      (suffice_of_build compiled given complete).covered _ member
    refine ⟨_, signer, signature, (Message.getElem?_signerKeys_iff.mp owner).2, last, answer, ?_⟩
    rw [lastFor?_eq_of_nodup distinct owner] at last
    obtain ⟨placed, sameAnswer, held⟩ := given.placed slot signer last
    rw [answer, Except.ok.injEq] at sameAnswer
    rw [held, sameAnswer]

/-- Building succeeds if the instructions compile, the message can be written, and the signers are
enough and not too many. Each key that must sign then has its last signature in its slot. -/
theorem build_outcome (instructions : List Instruction) (feePayer : PublicKey)
    (recentBlockhash : Hash) (signers : List Signer) :
    let required := requiredSigners instructions feePayer
    ((∃ signed, build instructions feePayer recentBlockhash signers = .ok signed) ↔
      ∃ message bytes, Message.compile instructions feePayer recentBlockhash = .ok message ∧
        message.encode = .ok bytes ∧ Suffice required bytes signers) ∧
    ∀ signed, build instructions feePayer recentBlockhash signers = .ok signed →
      ∃ message bytes, Message.compile instructions feePayer recentBlockhash = .ok message ∧
        message.encode = .ok bytes ∧ SignedInFull message required bytes signers signed := by
  intro required
  have steps {signed : Transaction}
      (built : build instructions feePayer recentBlockhash signers = .ok signed) :
      ∃ message bytes, Message.compile instructions feePayer recentBlockhash = .ok message ∧
        message.encode = .ok bytes ∧ (unsigned message).SignedBy signers bytes signed ∧
        signed.checkComplete = .ok () := by
    obtain ⟨message, compiled, _⟩ := build_eq_ok_iff.mp built
    obtain ⟨bytes, given, complete⟩ := (build_eq_ok_iff_signedBy compiled).mp built
    exact ⟨message, bytes, compiled, given.written, given, complete⟩
  refine ⟨⟨?_, ?_⟩, ?_⟩
  · rintro ⟨signed, built⟩
    obtain ⟨message, bytes, compiled, written, given, complete⟩ := steps built
    exact ⟨message, bytes, compiled, written,
      suffice_of_build (Message.compile_eq_ok_iff.mp compiled) given complete⟩
  · rintro ⟨message, bytes, compiled, written, enough⟩
    exact exists_build (Message.compile_eq_ok_iff.mp compiled) written enough
  · intro signed built
    obtain ⟨message, bytes, compiled, written, given, complete⟩ := steps built
    exact ⟨message, bytes, compiled, written,
      signedInFull_of_build (Message.compile_eq_ok_iff.mp compiled) given complete⟩

theorem build_outcome_entangled :
    let key := FixedBytes.filled .publicKey
    let mark := FixedBytes.filled .signature
    let signs := fun byte => holder (key byte) (mark byte)
    let signers := [signs 2, signs 6, holder (key 2) (mark 7), signs 1]
    let required := requiredSigners entangled (key 1)
    required = {key 1, key 2, key 6} ∧
    ∃ bytes, entangledMessage.encode = .ok bytes ∧ Suffice required bytes signers ∧
      ∃ signed, build entangled (key 1) (FixedBytes.filled .hash 9) signers = .ok signed ∧
        SignedInFull entangledMessage required bytes signers signed := by
  intro key mark signs signers required
  have compiled := Message.compile_eq_ok_iff.mpr entangled_compiledFrom
  have keys : required = {key 1, key 2, key 6} := by decide +kernel
  obtain ⟨bytes, written⟩ : ∃ bytes, entangledMessage.encode = .ok bytes :=
    ⟨_, Message.encode_eq_ok_iff.mpr ⟨⟨rfl, rfl, .cons ⟨rfl, rfl⟩ (.cons ⟨rfl, rfl⟩ .nil)⟩, rfl⟩⟩
  have enough : Suffice required bytes signers := by
    constructor
    · rw [keys]
      simp [signers, signs, holder]
    · simp [signers, signs, holder]
    · rw [keys]
      simp only [Finset.mem_insert, Finset.mem_singleton, forall_eq_or_imp, forall_eq]
      exact ⟨⟨signs 1, mark 1, rfl, rfl, rfl⟩, ⟨holder (key 2) (mark 7), mark 7, rfl, rfl, rfl⟩,
        ⟨signs 6, mark 6, rfl, rfl, rfl⟩⟩
  obtain ⟨succeeds, filled⟩ :=
    build_outcome entangled (key 1) (FixedBytes.filled .hash 9) signers
  obtain ⟨signed, built⟩ := succeeds.mpr ⟨entangledMessage, bytes, compiled, written, enough⟩
  obtain ⟨message, otherBytes, sameMessage, sameBytes, full⟩ := filled signed built
  obtain rfl : entangledMessage = message := Except.ok.inj (compiled.symm.trans sameMessage)
  obtain rfl : bytes = otherBytes := Except.ok.inj (written.symm.trans sameBytes)
  exact ⟨keys, bytes, written, enough, signed, built, full⟩

end Transaction

end LedgerWire
