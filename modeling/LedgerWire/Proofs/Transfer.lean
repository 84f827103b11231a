import LedgerWire.Proofs.BuildOutcome
import LedgerWire.Proofs.CompileOutcome
import LedgerWire.Proofs.TextForms
import LedgerWire.Proofs.WireRoundTrip

/-!
A transfer from its instruction to a text and back. Only the source signs and it pays the fee, so one
signature completes the transaction, whichever of the keys are the same and however few are left of
them in the table.
-/

namespace LedgerWire

namespace Message

variable {source target : PublicKey} {lamports : UInt64} {recentBlockhash : Hash}
variable {message : Message}

theorem exists_compile_transfer (source target : PublicKey) (lamports : UInt64)
    (recentBlockhash : Hash) : ∃ message,
      compile [SystemProgram.transfer source target lamports] source recentBlockhash = .ok message := by
  have few : (keyMetas [SystemProgram.transfer source target lamports] source).length ≤ 4 := by
    rw [← card_keySequence]
    exact List.toFinset_card_le _
  exact exists_compile (Nat.le_trans few (by decide))
    (Nat.le_trans List.countP_le_length (Nat.le_trans few (by decide)))

theorem requiredSigners_transfer :
    requiredSigners [SystemProgram.transfer source target lamports] source = {source} := by
  simp [requiredSigners, SystemProgram.transfer]

theorem requested_source :
    requested [SystemProgram.transfer source target lamports] source source = ⟨true, true⟩ := by
  simp [requested]

theorem requested_target : requested [SystemProgram.transfer source target lamports] source target =
    ⟨decide (target = source), true⟩ := by
  by_cases same : target = source
  · subst same
    simp [requested_source]
  · simp [requested, SystemProgram.transfer, same, Ne.symm same]

theorem promoted_transfer (mentions : List AccountMeta) :
    (SystemProgram.transfer source target lamports).promoted mentions =
      ⟨WellKnown.system.key, [mergedMeta mentions source, mergedMeta mentions target],
        [2, 0, 0, 0] ++ LittleEndian.encode 8 lamports.toNat⟩ := rfl

namespace CompiledFrom

variable (compiled : message.CompiledFrom [SystemProgram.transfer source target lamports] source
  recentBlockhash)
include compiled

theorem requiredSignatures_transfer : message.requiredSignatures = 1 := by
  rw [← compiled.card_requiredSigners, requiredSigners_transfer, Finset.card_singleton]

theorem spelledBy_transfer : message.SpelledBy message.shortestSpelling := by
  rw [spelledBy_shortest_iff, compiled.instructions]
  refine ⟨Nat.le_trans compiled.fits (by decide), ?_⟩
  simp [Instruction.placedIn, SystemProgram.transfer, CompactLength.maxLength]

theorem decompile_transfer : message.decompile = .ok [⟨WellKnown.system.key,
    [⟨source, true, true⟩, ⟨target, decide (target = source), true⟩],
    [2, 0, 0, 0] ++ LittleEndian.encode 8 lamports.toNat⟩] := by
  rw [compiled.decompile_eq, List.map_singleton, promoted_transfer, mergedMeta_mentions,
    mergedMeta_mentions, requested_source, requested_target]

end CompiledFrom

end Message

namespace Transaction

variable {instructions : List Instruction} {recentBlockhash : Hash} {message : Message}
variable {signer : Signer} {signature : Signature} {bytes : Bytes}

/-- Where nobody else must sign, the signature of one signer is all there is. -/
theorem build_of_lone_signer
    (compiled : message.CompiledFrom instructions signer.publicKey recentBlockhash)
    (written : message.encode = .ok bytes)
    (lone : Message.requiredSigners instructions signer.publicKey = {signer.publicKey})
    (signs : signer.sign bytes = .ok signature) (filled : signature.isPlaceholder = false) :
    build instructions signer.publicKey recentBlockhash [signer] = .ok ⟨[signature], message⟩ := by
  have last : lastFor? Signer.publicKey signer.publicKey [signer] = some signer := by
    simp [lastFor?]
  have enough : Suffice (Message.requiredSigners instructions signer.publicKey) bytes [signer] := by
    rw [lone]
    refine ⟨?_, ?_, ?_⟩
    · simp
    · simp [signs]
    · simp [Covers, last, signs, filled]
  obtain ⟨signed, built⟩ := exists_build compiled written enough
  obtain ⟨otherBytes, given, complete⟩ :=
    (build_eq_ok_iff_signedBy (Message.compile_eq_ok_iff.mpr compiled)).mp built
  obtain rfl : bytes = otherBytes := Except.ok.inj (written.symm.trans given.written)
  have full := signedInFull_of_build compiled given complete
  rw [lone] at full
  obtain ⟨only, sole⟩ := List.length_eq_one_iff.mp full.length
  obtain ⟨key, owner, answer, _, chosen, answered, placed⟩ := full.slots 0 Nat.one_pos
  have member := (List.mem_filter.mp (List.mem_of_getLast? chosen)).1
  obtain rfl : owner = signer := List.mem_singleton.mp member
  obtain rfl : signature = answer := Except.ok.inj (signs.symm.trans answered)
  rw [sole] at placed
  obtain rfl : only = signature := Option.some.inj placed
  rw [built, Transaction.ext (y := ⟨[only], message⟩) sole full.message]

variable {source target : PublicKey} {lamports : UInt64}

structure IsTransfer (transaction : Transaction) (source target : PublicKey) (lamports : UInt64)
    (recentBlockhash : Hash) (signature : Signature) : Prop where
  complete : transaction.isFullySigned = true
  signatures : transaction.signatures = [signature]
  feePayer : transaction.message.feePayer? = some source
  recentBlockhash : transaction.message.recentBlockhash = recentBlockhash
  instructions : transaction.message.decompile = .ok [⟨WellKnown.system.key,
    [⟨source, true, true⟩, ⟨target, decide (target = source), true⟩],
    [2, 0, 0, 0] ++ LittleEndian.encode 8 lamports.toNat⟩]

section Compiled

variable (compiled : message.CompiledFrom [SystemProgram.transfer source target lamports] source
  recentBlockhash)
include compiled

theorem isTransfer_of_compiled (filled : signature.isPlaceholder = false) :
    IsTransfer ⟨[signature], message⟩ source target lamports recentBlockhash signature where
  complete := by simp [isFullySigned, compiled.requiredSignatures_transfer, filled]
  signatures := rfl
  feePayer := by
    refine Message.feePayer?_of_first compiled.getElem?_zero ?_
    rw [compiled.requiredSignatures_transfer]
    decide
  recentBlockhash := compiled.recentBlockhash
  instructions := compiled.decompile_transfer

theorem decode_encode_transfer (signature : Signature) :
    ∃ wire, encode ⟨[signature], message⟩ = .ok wire ∧ decode wire = .ok ⟨[signature], message⟩ := by
  have fits : 1 ≤ CompactLength.maxLength := by decide
  have spelled : SpelledBy ⟨[signature], message⟩ (shortestSpelling ⟨[signature], message⟩) :=
    ⟨CompactLength.spells_shortest fits, compiled.spelledBy_transfer⟩
  have written := encode_eq_ok_iff.mpr ⟨spelled, rfl⟩
  have one := compiled.requiredSignatures_transfer
  refine ⟨_, written, decode_of_encode compiled.wellFormed ?_ ?_ written⟩
  · rw [one]
    decide
  · rw [one]
    exact Nat.le_refl 1

end Compiled

end Transaction

/-- Any transfer can be built by a signer for its source who signs, and is read back from its bytes
as it was meant. The bytes come back from each of their texts, whatever white space surrounds it. -/
theorem transfer_round_trip (source target : PublicKey) (lamports : UInt64)
    (recentBlockhash : Hash) (signer : Signer) (owner : signer.publicKey = source) :
    let transfer := SystemProgram.transfer source target lamports
    ∃ message bytes, Message.compile [transfer] source recentBlockhash = .ok message ∧
      message.encode = .ok bytes ∧
      ∀ signature, signer.sign bytes = .ok signature → signature.isPlaceholder = false →
        ∃ transaction wire,
          Transaction.build [transfer] source recentBlockhash [signer] = .ok transaction ∧
          transaction.encode = .ok wire ∧
          (∀ (encoding : Text.Encoding) (before after : String),
            (∀ c ∈ before.toList, Text.Blank.isBlank c = true) →
            (∀ c ∈ after.toList, Text.Blank.isBlank c = true) →
              encoding.decode (before ++ encoding.encode wire ++ after) = .ok wire) ∧
          ∃ read, Transaction.decode wire = .ok read ∧
            read.IsTransfer source target lamports recentBlockhash signature := by
  intro transfer
  subst owner
  obtain ⟨message, compiles⟩ :=
    Message.exists_compile_transfer signer.publicKey target lamports recentBlockhash
  have compiled := Message.compile_eq_ok_iff.mp compiles
  have written := Message.encode_eq_ok_iff.mpr ⟨compiled.spelledBy_transfer, rfl⟩
  refine ⟨message, _, compiles, written, ?_⟩
  intro signature signs filled
  have built :=
    Transaction.build_of_lone_signer compiled written Message.requiredSigners_transfer signs filled
  obtain ⟨wire, wireWritten, read⟩ := Transaction.decode_encode_transfer compiled signature
  refine ⟨_, wire, built, wireWritten, ?_, _, read,
    Transaction.isTransfer_of_compiled compiled filled⟩
  intro encoding before after blankBefore blankAfter
  exact encoding.decode_encode wire blankBefore blankAfter

theorem transfer_round_trip_to_itself :
    let key := WellKnown.system.key
    let blockhash := FixedBytes.filled .hash 9
    let mark : Signature := .filled .signature 3
    let signer := Transaction.holder key mark
    signer.publicKey = key ∧ mark.isPlaceholder = false ∧
    ∃ transaction wire, Transaction.build [SystemProgram.transfer key key 5] key blockhash [signer] =
        .ok transaction ∧ transaction.encode = .ok wire ∧
      Text.Encoding.base64.decode (" \t" ++ Text.Encoding.base64.encode wire ++ "\n") = .ok wire ∧
      ∃ read, Transaction.decode wire = .ok read ∧ read.IsTransfer key key 5 blockhash mark := by
  intro key blockhash mark signer
  obtain ⟨message, bytes, _, _, succeeds⟩ := transfer_round_trip key key 5 blockhash signer rfl
  obtain ⟨transaction, wire, built, written, shown, read⟩ := succeeds mark rfl rfl
  have text := shown .base64 " \t" "\n" (List.all_eq_true.mp rfl) (List.all_eq_true.mp rfl)
  exact ⟨rfl, rfl, transaction, wire, built, written, text, read⟩

end LedgerWire
