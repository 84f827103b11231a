import LedgerWire.Proofs.KeyLayout

/-!
Durable nonces, told before compiling. A message is asked for them behind the indices into its key
table; what stands there is what the first instruction named, wherever the table has put it.
-/

namespace LedgerWire

structure Instruction.AdvancesNonce (systemProgram : PublicKey) (instruction : Instruction) :
    Prop where
  program : instruction.program = systemProgram
  size : 4 ≤ instruction.data.length
  data : [4, 0, 0, 0] <+: instruction.data

theorem SystemProgram.advancesNonce_advanceNonce (nonce authority : PublicKey) :
    (advanceNonce nonce authority).AdvancesNonce WellKnown.system.key :=
  ⟨rfl, Nat.le_of_eq (LittleEndian.length_encode 4 _).symm, List.prefix_refl _⟩

theorem SystemProgram.not_advancesNonce_transfer (source target : PublicKey) (lamports : UInt64)
    (systemProgram : PublicKey) :
    ¬ (transfer source target lamports).AdvancesNonce systemProgram := by
  intro advances
  obtain ⟨more, same⟩ := advances.data
  have firstByte : (4 : UInt8) = 2 := by
    simpa [transfer, transferTag, LittleEndian.encode] using congrArg List.head? same
  cases firstByte

namespace Message

variable {instructions : List Instruction} {feePayer : PublicKey} {recentBlockhash : Hash}
variable {message : Message}

theorem advancesNonce_iff_of_pointsAt {given : Instruction} {compiled : CompiledInstruction}
    {others : List CompiledInstruction} (listed : message.instructions = compiled :: others)
    (points : PointsAt message.accountKeys given compiled) (systemProgram : PublicKey) :
    message.advancesNonce systemProgram = true ↔ given.AdvancesNonce systemProgram := by
  have tag : LittleEndian.encode 4 advanceNonceTag = [4, 0, 0, 0] := rfl
  simp only [advancesNonce, listed, points.program, points.data, tag, Bool.and_eq_true, beq_iff_eq,
    Option.some.injEq]
  constructor
  · rintro ⟨program, front⟩
    have begins : [4, 0, 0, 0] <+: given.data := front ▸ List.take_prefix 4 given.data
    exact ⟨program, begins.length_le, begins⟩
  · intro advances
    exact ⟨advances.program, (List.prefix_iff_eq_take.mp advances.data).symm⟩

theorem advancesNonce_of_compile
    (compiled : compile instructions feePayer recentBlockhash = .ok message)
    (systemProgram : PublicKey) : message.advancesNonce systemProgram = true ↔
      ∃ first rest, instructions = first :: rest ∧ first.AdvancesNonce systemProgram := by
  have placed := (compile_eq_ok_iff.mp compiled).pointsAt_placed
  generalize listed : message.instructions = compiledInstructions at placed
  cases placed with
  | nil => simp [advancesNonce, listed]
  | @cons first compiledFirst rest others points _ =>
      rw [advancesNonce_iff_of_pointsAt listed points]
      constructor
      · intro advances
        exact ⟨first, rest, rfl, advances⟩
      · rintro ⟨_, _, same, advances⟩
        cases same
        exact advances

/-- The blockhash of a compiled message is a durable nonce if the first of its instructions has the
system program advance a nonce account, whatever keys that names and whatever follows it. -/
theorem usesDurableNonce_of_compile (feePayer : PublicKey) (recentBlockhash : Hash) :
    (∀ instructions message, compile instructions feePayer recentBlockhash = .ok message →
      (message.usesDurableNonce = true ↔ ∃ first rest, instructions = first :: rest ∧
        first.AdvancesNonce WellKnown.system.key)) ∧
    (∀ nonce authority rest message,
      compile (SystemProgram.advanceNonce nonce authority :: rest) feePayer recentBlockhash =
        .ok message → message.usesDurableNonce = true) ∧
    ∀ source target lamports rest message,
      compile (SystemProgram.transfer source target lamports :: rest) feePayer recentBlockhash =
        .ok message → message.usesDurableNonce = false := by
  refine ⟨?_, ?_, ?_⟩
  · intro instructions message compiled
    exact advancesNonce_of_compile compiled WellKnown.system.key
  · intro nonce authority rest message compiled
    have advances := SystemProgram.advancesNonce_advanceNonce nonce authority
    exact (advancesNonce_of_compile compiled _).mpr ⟨_, rest, rfl, advances⟩
  · intro source target lamports rest message compiled
    rw [Bool.eq_false_iff]
    intro detected
    obtain ⟨first, _, same, advances⟩ := (advancesNonce_of_compile compiled _).mp detected
    cases same
    exact SystemProgram.not_advancesNonce_transfer source target lamports _ advances

def aliasedNonce : Instruction :=
  SystemProgram.advanceNonce WellKnown.system.key (FixedBytes.filled .publicKey 1)

def aliasedTransfer : Instruction :=
  SystemProgram.transfer (FixedBytes.filled .publicKey 1) WellKnown.sysvarRecentBlockhashes.key 5

def nonceFirstMessage : Message where
  header := ⟨1, 0, 0⟩
  accountKeys := [FixedBytes.filled .publicKey 1, WellKnown.system.key,
    WellKnown.sysvarRecentBlockhashes.key]
  recentBlockhash := FixedBytes.filled .hash 9
  instructions := [⟨1, [1, 2, 0], [4, 0, 0, 0]⟩,
    ⟨1, [0, 2], [2, 0, 0, 0, 5, 0, 0, 0, 0, 0, 0, 0]⟩]

def transferFirstMessage : Message where
  header := ⟨1, 0, 0⟩
  accountKeys := [FixedBytes.filled .publicKey 1, WellKnown.sysvarRecentBlockhashes.key,
    WellKnown.system.key]
  recentBlockhash := FixedBytes.filled .hash 9
  instructions := [⟨2, [0, 1], [2, 0, 0, 0, 5, 0, 0, 0, 0, 0, 0, 0]⟩,
    ⟨2, [2, 1, 0], [4, 0, 0, 0]⟩]

theorem nonceFirst_compiledFrom : nonceFirstMessage.CompiledFrom [aliasedNonce, aliasedTransfer]
    (FixedBytes.filled .publicKey 1) (FixedBytes.filled .hash 9) := by
  decide +kernel

theorem transferFirst_compiledFrom :
    transferFirstMessage.CompiledFrom [aliasedTransfer, aliasedNonce]
      (FixedBytes.filled .publicKey 1) (FixedBytes.filled .hash 9) := by
  decide +kernel

theorem usesDurableNonce_of_compile_aliased :
    compile [aliasedNonce, aliasedTransfer] (FixedBytes.filled .publicKey 1)
      (FixedBytes.filled .hash 9) = .ok nonceFirstMessage ∧
    aliasedNonce.AdvancesNonce WellKnown.system.key ∧
    nonceFirstMessage.usesDurableNonce = true ∧
    compile [aliasedTransfer, aliasedNonce] (FixedBytes.filled .publicKey 1)
      (FixedBytes.filled .hash 9) = .ok transferFirstMessage ∧
    transferFirstMessage.usesDurableNonce = false := by
  obtain ⟨detects, nonceFirst, transferFirst⟩ :=
    usesDurableNonce_of_compile (FixedBytes.filled .publicKey 1) (FixedBytes.filled .hash 9)
  have compiled := compile_eq_ok_iff.mpr nonceFirst_compiledFrom
  have swapped := compile_eq_ok_iff.mpr transferFirst_compiledFrom
  have durable := nonceFirst _ _ _ _ compiled
  obtain ⟨first, rest, same, advances⟩ := (detects _ _ compiled).mp durable
  cases same
  exact ⟨compiled, advances, durable, swapped, transferFirst _ _ _ _ _ swapped⟩

end Message

end LedgerWire
