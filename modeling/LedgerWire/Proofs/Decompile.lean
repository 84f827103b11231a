import LedgerWire.Proofs.KeyLayout

/-!
Reading a message back as instructions. Every index stands for one account of the message's own
table, so nothing is found that the table does not hold, and a well-formed message can always be
read back. Where no key stands twice, an account has one index only, so nothing is lost either.
-/

namespace LedgerWire.Message

variable {message : Message} {found : List Instruction}

/-- The instruction that a compiled one stands for over a table of accounts. -/
structure Expands (metas : List AccountMeta) (compiled : CompiledInstruction)
    (found : Instruction) : Prop where
  program : ∃ account, metas[compiled.programIndex.toNat]? = some account ∧
    account.publicKey = found.program
  accounts : List.Forall₂ (fun index account => metas[index.toNat]? = some account)
    compiled.accounts found.accounts
  data : found.data = compiled.data

theorem metaAt_eq_ok_iff {metas : List AccountMeta} {index : UInt8} {account : AccountMeta} :
    metaAt metas.toArray index = .ok account ↔ metas[index.toNat]? = some account := by
  rw [metaAt, List.getElem?_toArray]
  cases metas[index.toNat]? <;> simp

theorem decompile_eq_ok_iff : message.decompile = .ok found ↔
    List.Forall₂ (Expands message.accountMetas) message.instructions found := by
  rw [decompile, mapM_eq_ok_iff]
  have expands (compiled : CompiledInstruction) (instruction : Instruction) :
      (do
        let program ← metaAt message.accountMetas.toArray compiled.programIndex
        let accounts ← compiled.accounts.mapM (metaAt message.accountMetas.toArray)
        return (⟨program.publicKey, accounts, compiled.data⟩ : Instruction)) = .ok instruction ↔
          Expands message.accountMetas compiled instruction := by
    simp only [bind_eq_ok_iff, metaAt_eq_ok_iff, mapM_eq_ok_iff]
    constructor
    · rintro ⟨account, held, accounts, expanded, made⟩
      cases made
      exact ⟨⟨account, held, rfl⟩, expanded, rfl⟩
    · rintro ⟨⟨account, held, program⟩, expanded, data⟩
      refine ⟨account, held, instruction.accounts, expanded, ?_⟩
      rw [program, ← data]
      rfl
  simp only [expands]

theorem getElem?_accountMetas (index : Nat) : message.accountMetas[index]? =
    message.accountKeys[index]?.map fun key =>
      ⟨key, message.isSigner index, message.isWritable index⟩ :=
  List.getElem?_mapIdx

theorem mem_take_of_getElem? {index bound : Nat} {keys : List PublicKey} {key : PublicKey}
    (held : keys[index]? = some key) (below : index < bound) : key ∈ keys.take bound := by
  apply List.mem_of_getElem?
  rwa [List.getElem?_take_of_lt below]

theorem mem_signerKeys_of_accountMetas {account : AccountMeta}
    (held : account ∈ message.accountMetas) (signs : account.isSigner = true) :
    account.publicKey ∈ message.signerKeys := by
  obtain ⟨index, placed⟩ := List.getElem?_of_mem held
  rw [getElem?_accountMetas, Option.map_eq_some_iff] at placed
  obtain ⟨key, keyHeld, rfl⟩ := placed
  exact mem_take_of_getElem? keyHeld (of_decide_eq_true signs)

theorem WellFormed.exists_decompile (formed : message.WellFormed) :
    ∃ found, message.decompile = .ok found := by
  have held {instruction : CompiledInstruction} (member : instruction ∈ message.instructions)
      {index : UInt8} (named : index ∈ instruction.programIndex :: instruction.accounts) :
      ∃ account, metaAt message.accountMetas.toArray index = .ok account := by
    have inside := formed.inside instruction member index named
    simp only [metaAt_eq_ok_iff, getElem?_accountMetas, List.getElem?_eq_getElem inside]
    exact ⟨_, rfl⟩
  apply exists_mapM_eq_ok
  intro instruction member
  obtain ⟨program, programHeld⟩ := held member List.mem_cons_self
  obtain ⟨accounts, accountsHeld⟩ := exists_mapM_eq_ok fun index named =>
    held member (List.mem_cons_of_mem _ named)
  simp only [programHeld, accountsHeld]
  exact ⟨_, rfl⟩

def Refers (message : Message) (key : PublicKey) : Prop :=
  ∃ instruction ∈ message.instructions,
    ∃ index ∈ instruction.programIndex :: instruction.accounts,
      message.accountKeys[index.toNat]? = some key

theorem publicKey_of_accountMetas {index : Nat} {account : AccountMeta}
    (held : message.accountMetas[index]? = some account) :
    message.accountKeys[index]? = some account.publicKey := by
  rw [← publicKeys_accountMetas, List.getElem?_map, held]
  rfl

theorem Expands.names_iff {compiled : CompiledInstruction} {instruction : Instruction}
    (expands : Expands message.accountMetas compiled instruction) (key : PublicKey) :
    (∃ index ∈ compiled.programIndex :: compiled.accounts,
      message.accountKeys[index.toNat]? = some key) ↔
        key ∈ instruction.program :: instruction.accounts.map AccountMeta.publicKey := by
  obtain ⟨account, held, program⟩ := expands.program
  have same : ∀ (index : UInt8) (account : AccountMeta),
      message.accountMetas[index.toNat]? = some account →
        (message.accountKeys[index.toNat]? = some key ↔ account.publicKey = key) := by
    intro index account held
    rw [publicKey_of_accountMetas held, Option.some.injEq]
  rw [List.exists_mem_cons_iff, exists_mem_congr expands.accounts same, same _ _ held, program,
    List.mem_cons, List.mem_map, eq_comm]

theorem mem_keySequence_iff {instructions : List Instruction} {feePayer key : PublicKey} :
    key ∈ keySequence instructions feePayer ↔ key = feePayer ∨
      ∃ instruction ∈ instructions,
        key ∈ instruction.program :: instruction.accounts.map AccountMeta.publicKey := by
  simp only [keySequence, List.mem_cons, List.mem_append, List.mem_flatMap, List.mem_map]
  constructor
  · rintro (payer | ⟨instruction, member, account⟩ | ⟨instruction, member, program⟩)
    · exact .inl payer
    · exact .inr ⟨instruction, member, .inr account⟩
    · exact .inr ⟨instruction, member, .inl program.symm⟩
  · rintro (payer | ⟨instruction, member, program | account⟩)
    · exact .inl payer
    · exact .inr (.inr ⟨instruction, member, program.symm⟩)
    · exact .inr (.inl ⟨instruction, member, account⟩)

theorem mem_keySequence_of_decompile (read : message.decompile = .ok found)
    {feePayer key : PublicKey} :
    key ∈ keySequence found feePayer ↔ key = feePayer ∨ message.Refers key := by
  rw [mem_keySequence_iff, Refers,
    exists_mem_congr (decompile_eq_ok_iff.mp read) fun _ _ expands => expands.names_iff key]

theorem exists_index_of_decompile (read : message.decompile = .ok found)
    {instruction : Instruction} (member : instruction ∈ found) {account : AccountMeta}
    (asked : account ∈ instruction.accounts) :
    ∃ index : UInt8, message.accountMetas[index.toNat]? = some account := by
  have expanded := decompile_eq_ok_iff.mp read
  obtain ⟨compiled, _, expands⟩ := exists_of_mem_forall₂ expanded member
  obtain ⟨index, _, held⟩ := exists_of_mem_forall₂ expands.accounts asked
  exact ⟨index, held⟩

theorem mem_accountMetas_of_decompile (read : message.decompile = .ok found) :
    ∀ instruction ∈ found, ∀ account ∈ instruction.accounts, account ∈ message.accountMetas := by
  intro instruction member account asked
  obtain ⟨index, held⟩ := exists_index_of_decompile read member asked
  exact List.mem_of_getElem? held

theorem nodup_publicKeys_accountMetas (formed : message.WellFormed) :
    (message.accountMetas.map AccountMeta.publicKey).Nodup := by
  rw [publicKeys_accountMetas]
  exact formed.distinct

section Distinct

variable {metas : List AccountMeta} (distinct : (metas.map AccountMeta.publicKey).Nodup)
include distinct

theorem index_unique {first second : UInt8} {account other : AccountMeta}
    (firstHeld : metas[first.toNat]? = some account)
    (secondHeld : metas[second.toNat]? = some other) (same : account.publicKey = other.publicKey) :
    first = second := by
  have inside : first.toNat < (metas.map AccountMeta.publicKey).length := by
    rw [List.length_map]
    exact (List.getElem?_eq_some_iff.mp firstHeld).1
  have sameKey : (metas.map AccountMeta.publicKey)[first.toNat]? =
      (metas.map AccountMeta.publicKey)[second.toNat]? := by
    rw [List.getElem?_map, List.getElem?_map, firstHeld, secondHeld, Option.map_some,
      Option.map_some, same]
  exact UInt8.toNat_inj.mp ((List.getElem?_inj inside distinct).mp sameKey)

theorem leftUnique_expands : Relator.LeftUnique (Expands metas) := by
  intro compiled found other expands otherExpands
  have index : Relator.LeftUnique fun (index : UInt8) (account : AccountMeta) =>
      metas[index.toNat]? = some account := by
    intro first account second firstHeld secondHeld
    exact index_unique distinct firstHeld secondHeld rfl
  obtain ⟨account, held, program⟩ := expands.program
  obtain ⟨otherAccount, otherHeld, otherProgram⟩ := otherExpands.program
  cases compiled
  cases other
  congr
  · exact index_unique distinct held otherHeld (program.trans otherProgram.symm)
  · exact index.forall₂ expands.accounts otherExpands.accounts
  · exact expands.data.symm.trans otherExpands.data

end Distinct

end LedgerWire.Message
