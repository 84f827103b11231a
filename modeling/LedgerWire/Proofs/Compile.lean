import LedgerWire.Proofs.KeyTable
import LedgerWire.Proofs.MessageStructure
import LedgerWire.Proofs.PrivilegeClasses

/-!
What compiling produces, said of lists alone: the keys that are mentioned, merged and put in the
order of their classes, and instructions that name each key by its place. Reading such a message
back gives the instructions it was compiled from, each account with all that was asked for its key.
-/

namespace LedgerWire

def Instruction.placedIn (keys : List PublicKey) (instruction : Instruction) :
    CompiledInstruction where
  programIndex := UInt8.ofNat (keys.idxOf instruction.program)
  accounts := instruction.accounts.map fun account => UInt8.ofNat (keys.idxOf account.publicKey)
  data := instruction.data

def Instruction.promoted (mentions : List AccountMeta) (instruction : Instruction) : Instruction :=
  { instruction with
    accounts := instruction.accounts.map fun account => mergedMeta mentions account.publicKey }

namespace Message

variable {instructions : List Instruction} {feePayer : PublicKey} {recentBlockhash : Hash}
variable {message : Message}

theorem getElem?_positions {keys : List PublicKey} {key : PublicKey} (distinct : keys.Nodup)
    (member : key ∈ keys) : (Std.HashMap.ofList keys.zipIdx)[key]? = some (keys.idxOf key) := by
  have apart : keys.zipIdx.Pairwise fun first second => (first.1 == second.1) = false := by
    have distinctFirsts : (keys.zipIdx.map Prod.fst).Nodup := by rwa [List.zipIdx_map_fst]
    exact (List.pairwise_map.mp distinctFirsts).imp (by simp)
  have placed : (key, keys.idxOf key) ∈ keys.zipIdx := by
    rw [List.mk_mem_zipIdx_iff_getElem?]
    exact List.getElem?_idxOf member
  exact Std.HashMap.getElem?_ofList_of_mem (beq_self_eq_true key) apart placed

theorem compileInstruction_positions {keys : List PublicKey} {instruction : Instruction}
    (distinct : keys.Nodup) (program : instruction.program ∈ keys)
    (accounts : ∀ account ∈ instruction.accounts, account.publicKey ∈ keys) :
    compileInstruction (Std.HashMap.ofList keys.zipIdx) instruction =
      .ok (instruction.placedIn keys) := by
  simp only [compileInstruction, bind_eq_ok_iff]
  refine ⟨UInt8.ofNat (keys.idxOf instruction.program), ?_,
    instruction.accounts.map fun account => UInt8.ofNat (keys.idxOf account.publicKey), ?_, rfl⟩
  · rw [getElem?_positions distinct program]
  · apply mapM_eq_ok_map
    intro account member
    rw [getElem?_positions distinct (accounts account member)]

theorem mem_mentions_program {instruction : Instruction} (member : instruction ∈ instructions) :
    instruction.program ∈ (mentions instructions feePayer).map AccountMeta.publicKey := by
  have mentioned : (⟨instruction.program, false, false⟩ : AccountMeta) ∈
      mentions instructions feePayer :=
    List.mem_cons_of_mem _ (List.mem_append_right _ (List.mem_map_of_mem member))
  exact List.mem_map_of_mem (f := AccountMeta.publicKey) mentioned

theorem mem_mentions_account {instruction : Instruction} {account : AccountMeta}
    (member : instruction ∈ instructions) (asked : account ∈ instruction.accounts) :
    account.publicKey ∈ (mentions instructions feePayer).map AccountMeta.publicKey := by
  have mentioned : account ∈ mentions instructions feePayer :=
    List.mem_cons_of_mem _
      (List.mem_append_left _ (List.mem_flatMap.mpr ⟨instruction, member, asked⟩))
  exact List.mem_map_of_mem mentioned

/-- The keys of a compiled message, each with all that was asked for it. -/
def keyMetas (instructions : List Instruction) (feePayer : PublicKey) : List AccountMeta :=
  orderByClass (mergedMetas (mentions instructions feePayer))

theorem publicKeys_keyMetas_perm : ((keyMetas instructions feePayer).map AccountMeta.publicKey).Perm
    ((mentions instructions feePayer).map AccountMeta.publicKey).eraseDups := by
  have merged : (mergedMetas (mentions instructions feePayer)).map AccountMeta.publicKey =
      ((mentions instructions feePayer).map AccountMeta.publicKey).eraseDups := by
    rw [mergedMetas, List.map_map]
    exact List.map_id _
  rw [← merged]
  exact (orderByClass_perm _).map AccountMeta.publicKey

theorem nodup_publicKeys_keyMetas :
    ((keyMetas instructions feePayer).map AccountMeta.publicKey).Nodup :=
  publicKeys_keyMetas_perm.nodup_iff.mpr (nodup_eraseDups _)

theorem mem_publicKeys_keyMetas {key : PublicKey} :
    key ∈ (keyMetas instructions feePayer).map AccountMeta.publicKey ↔
      key ∈ (mentions instructions feePayer).map AccountMeta.publicKey := by
  rw [publicKeys_keyMetas_perm.mem_iff, List.mem_eraseDups]

theorem keyMetas_eq_map_publicKeys : keyMetas instructions feePayer =
    ((keyMetas instructions feePayer).map AccountMeta.publicKey).map
      (mergedMeta (mentions instructions feePayer)) := by
  symm
  apply map_publicKey_eq_self
  intro account member
  rw [keyMetas, (orderByClass_perm _).mem_iff, mergedMetas] at member
  obtain ⟨key, _, rfl⟩ := List.mem_map.mp member
  rfl

structure CompiledFrom (message : Message) (instructions : List Instruction)
    (feePayer : PublicKey) (recentBlockhash : Hash) : Prop where
  fits : message.accountKeys.length ≤ maxAccountKeys
  header : Counts message.header (keyMetas instructions feePayer)
  accountKeys : message.accountKeys = (keyMetas instructions feePayer).map AccountMeta.publicKey
  recentBlockhash : message.recentBlockhash = recentBlockhash
  instructions : message.instructions =
    instructions.map (Instruction.placedIn message.accountKeys)

/-- No sorting is needed to tell what a message was compiled from. -/
theorem compiledFrom_iff {message : Message} {recentBlockhash : Hash} :
    message.CompiledFrom instructions feePayer recentBlockhash ↔
      message.accountKeys.length ≤ maxAccountKeys ∧
      Counts message.header (mergedMetas (mentions instructions feePayer)) ∧
      message.accountKeys = (Privileges.classes.flatMap fun privileges =>
        (mergedMetas (mentions instructions feePayer)).filter fun account =>
          account.privileges = privileges).map AccountMeta.publicKey ∧
      message.recentBlockhash = recentBlockhash ∧
      message.instructions = instructions.map (Instruction.placedIn message.accountKeys) := by
  rw [← orderByClass_eq_flatMap, ← keyMetas]
  constructor
  · intro compiled
    exact ⟨compiled.fits, compiled.header.perm (orderByClass_perm _), compiled.accountKeys,
      compiled.recentBlockhash, compiled.instructions⟩
  · rintro ⟨fits, counts, accountKeys, recentBlockhash, placed⟩
    exact ⟨fits, counts.perm (orderByClass_perm _).symm, accountKeys, recentBlockhash, placed⟩

instance (message : Message) (recentBlockhash : Hash) :
    Decidable (message.CompiledFrom instructions feePayer recentBlockhash) :=
  decidable_of_iff _ compiledFrom_iff.symm

theorem compile_eq (instructions : List Instruction) (feePayer : PublicKey)
    (recentBlockhash : Hash) : compile instructions feePayer recentBlockhash =
    let metas := keyMetas instructions feePayer
    let accountKeys := metas.map AccountMeta.publicKey
    if maxAccountKeys < metas.length then
      .error (.indexOutOfRange (metas.length - 1) maxAccountKeys)
    else
      headerOf metas >>= fun header =>
        .ok ⟨header, accountKeys, recentBlockhash,
          instructions.map (Instruction.placedIn accountKeys)⟩ := by
  have placed : instructions.mapM (compileInstruction (Std.HashMap.ofList
      ((keyMetas instructions feePayer).map AccountMeta.publicKey).zipIdx)) =
        .ok (instructions.map (Instruction.placedIn
          ((keyMetas instructions feePayer).map AccountMeta.publicKey))) := by
    apply mapM_eq_ok_map
    intro instruction member
    apply compileInstruction_positions nodup_publicKeys_keyMetas
    · exact mem_publicKeys_keyMetas.mpr (mem_mentions_program member)
    · intro account asked
      exact mem_publicKeys_keyMetas.mpr (mem_mentions_account member asked)
  simp only [compile, KeyTable.metas_ofMentions]
  rw [← keyMetas, placed]
  by_cases large : maxAccountKeys < (keyMetas instructions feePayer).length
  · simp only [large, if_true]
    rfl
  · simp only [large, if_false]
    rfl

theorem compile_eq_ok_iff : compile instructions feePayer recentBlockhash = .ok message ↔
    message.CompiledFrom instructions feePayer recentBlockhash := by
  rw [compile_eq]
  dsimp only
  split
  · rename_i large
    refine iff_of_false (by simp) fun compiled => Nat.not_lt.mpr compiled.fits ?_
    rwa [compiled.accountKeys, List.length_map]
  · rename_i fits
    simp only [bind_eq_ok_iff, headerOf_eq_ok_iff, Except.ok.injEq]
    constructor
    · rintro ⟨header, counts, rfl⟩
      exact ⟨by simpa using fits, counts, rfl, rfl, rfl⟩
    · intro compiled
      refine ⟨message.header, compiled.header, ?_⟩
      rw [← compiled.accountKeys, ← compiled.recentBlockhash, ← compiled.instructions]

theorem toNat_idxOf {keys : List PublicKey} {key : PublicKey} (fits : keys.length ≤ maxAccountKeys)
    (member : key ∈ keys) : (UInt8.ofNat (keys.idxOf key)).toNat = keys.idxOf key := by
  have place := List.idxOf_lt_length_of_mem member
  unfold maxAccountKeys at fits
  rw [UInt8.toNat_ofNat']
  omega

namespace CompiledFrom

variable (compiled : message.CompiledFrom instructions feePayer recentBlockhash)
include compiled

theorem mem_accountKeys {key : PublicKey} : key ∈ message.accountKeys ↔
    key ∈ (mentions instructions feePayer).map AccountMeta.publicKey := by
  rw [compiled.accountKeys, mem_publicKeys_keyMetas]

theorem wellFormed : message.WellFormed where
  readonlySigned := compiled.header.readonlySigned_le
  covered := by
    have covered := compiled.header.covered_le
    rwa [← List.length_map AccountMeta.publicKey, ← compiled.accountKeys] at covered
  distinct := by
    rw [compiled.accountKeys]
    exact nodup_publicKeys_keyMetas
  inside := by
    have place {key : PublicKey} (member : key ∈ message.accountKeys) :
        (UInt8.ofNat (message.accountKeys.idxOf key)).toNat < message.accountKeys.length := by
      rw [toNat_idxOf compiled.fits member]
      exact List.idxOf_lt_length_of_mem member
    intro placed placedMember index indexMember
    rw [compiled.instructions] at placedMember
    obtain ⟨instruction, member, rfl⟩ := List.mem_map.mp placedMember
    rcases List.mem_cons.mp indexMember with program | account
    · rw [program]
      exact place (compiled.mem_accountKeys.mpr (mem_mentions_program member))
    · obtain ⟨asked, askedMember, rfl⟩ := List.mem_map.mp account
      exact place (compiled.mem_accountKeys.mpr (mem_mentions_account member askedMember))

theorem accountMetas_eq : message.accountMetas = keyMetas instructions feePayer :=
  accountMetas_of_counts compiled.accountKeys (compiled.header.perm (orderByClass_perm _))

theorem accountMetas_eq_map : message.accountMetas =
    message.accountKeys.map (mergedMeta (mentions instructions feePayer)) := by
  rw [compiled.accountMetas_eq, compiled.accountKeys]
  exact keyMetas_eq_map_publicKeys

theorem metaAt_idxOf {key : PublicKey} (member : key ∈ message.accountKeys) :
    metaAt message.accountMetas.toArray (UInt8.ofNat (message.accountKeys.idxOf key)) =
      .ok (mergedMeta (mentions instructions feePayer) key) := by
  have found : message.accountKeys[message.accountKeys.idxOf key]? = some key :=
    List.getElem?_idxOf member
  rw [metaAt, toNat_idxOf compiled.fits member, List.getElem?_toArray, compiled.accountMetas_eq_map,
    List.getElem?_map, found]
  rfl

theorem decompile_eq : message.decompile =
    .ok (instructions.map (Instruction.promoted (mentions instructions feePayer))) := by
  rw [decompile, compiled.instructions, mapM_eq_ok_iff, List.forall₂_map_left_iff,
    List.forall₂_map_right_iff, List.forall₂_same]
  intro instruction member
  have program := compiled.metaAt_idxOf
    (compiled.mem_accountKeys.mpr (mem_mentions_program member))
  have accounts : (instruction.placedIn message.accountKeys).accounts.mapM
      (metaAt message.accountMetas.toArray) =
        .ok (instruction.promoted (mentions instructions feePayer)).accounts := by
    rw [mapM_eq_ok_iff, Instruction.placedIn, Instruction.promoted, List.forall₂_map_left_iff,
      List.forall₂_map_right_iff, List.forall₂_same]
    intro account asked
    exact compiled.metaAt_idxOf (compiled.mem_accountKeys.mpr (mem_mentions_account member asked))
  rw [bind_eq_ok_iff]
  refine ⟨_, program, ?_⟩
  rw [bind_eq_ok_iff]
  exact ⟨_, accounts, rfl⟩

end CompiledFrom

/-- The fee payer is given every privilege, any other key those that some account asks for. -/
def Granted (privilege : AccountMeta → Bool) (instructions : List Instruction)
    (feePayer key : PublicKey) : Prop :=
  key = feePayer ∨ ∃ instruction ∈ instructions, ∃ asked ∈ instruction.accounts,
    asked.publicKey = key ∧ privilege asked = true

theorem any_mentions_iff {privilege : AccountMeta → Bool} {key : PublicKey}
    (payer : privilege ⟨feePayer, true, true⟩ = true)
    (programs : ∀ program, privilege ⟨program, false, false⟩ = false) :
    ((mentions instructions feePayer).any fun mention =>
      mention.publicKey == key && privilege mention) = true ↔
        Granted privilege instructions feePayer key := by
  simp only [mentions, List.any_cons, List.any_append, List.any_map, List.any_flatMap, payer,
    Bool.or_eq_true, Bool.and_eq_true, beq_iff_eq, List.any_eq_true, Granted]
  constructor
  · rintro (⟨same, _⟩ | ⟨instruction, member, asked, askedMember, wanted⟩ | ⟨_, _, wanted⟩)
    · exact .inl same.symm
    · exact .inr ⟨instruction, member, asked, askedMember, wanted⟩
    · simp [programs] at wanted
  · rintro (same | ⟨instruction, member, asked, askedMember, wanted⟩)
    · exact .inl ⟨same.symm, trivial⟩
    · exact .inr (.inl ⟨instruction, member, asked, askedMember, wanted⟩)

/-- How a compiled instruction reads: as it was given, its accounts with all that their keys were
granted and nothing more. -/
structure ReadsAs (instructions : List Instruction) (feePayer : PublicKey)
    (given found : Instruction) : Prop where
  program : found.program = given.program
  data : found.data = given.data
  publicKeys : found.accounts.map AccountMeta.publicKey = given.accounts.map AccountMeta.publicKey
  signers : ∀ account ∈ found.accounts, account.isSigner = true ↔
    Granted AccountMeta.isSigner instructions feePayer account.publicKey
  writables : ∀ account ∈ found.accounts, account.isWritable = true ↔
    Granted AccountMeta.isWritable instructions feePayer account.publicKey

theorem readsAs_promoted (given : Instruction) : ReadsAs instructions feePayer given
    (given.promoted (mentions instructions feePayer)) where
  program := rfl
  data := rfl
  publicKeys := by simp [Instruction.promoted, mergedMeta]
  signers := by
    intro account member
    obtain ⟨asked, _, rfl⟩ := List.mem_map.mp member
    exact any_mentions_iff rfl fun _ => rfl
  writables := by
    intro account member
    obtain ⟨asked, _, rfl⟩ := List.mem_map.mp member
    exact any_mentions_iff rfl fun _ => rfl

/-- A compiled message reads back as its instructions, one for one and in order. No privilege that
was asked for is lost, and none is added. -/
theorem decompile_compiled (compiled : compile instructions feePayer recentBlockhash = .ok message) :
    ∃ found, message.decompile = .ok found ∧
      List.Forall₂ (ReadsAs instructions feePayer) instructions found := by
  refine ⟨_, (compile_eq_ok_iff.mp compiled).decompile_eq, ?_⟩
  rw [List.forall₂_map_right_iff, List.forall₂_same]
  intro given _
  exact readsAs_promoted given

def entangled : List Instruction :=
  let key := FixedBytes.filled .publicKey
  [⟨key 5, [⟨key 2, false, false⟩, ⟨key 1, false, false⟩, ⟨key 2, true, false⟩,
      ⟨key 3, false, true⟩, ⟨key 6, true, false⟩], [7, 7]⟩,
    ⟨key 3, [⟨key 5, false, true⟩, ⟨key 2, false, true⟩, ⟨key 4, false, false⟩], []⟩]

def entangledMessage : Message :=
  let key := FixedBytes.filled .publicKey
  { header := ⟨3, 1, 1⟩
    accountKeys := [key 1, key 2, key 6, key 3, key 5, key 4]
    recentBlockhash := FixedBytes.filled .hash 9
    instructions := [⟨4, [1, 0, 1, 3, 2], [7, 7]⟩, ⟨3, [4, 1, 5], []⟩] }

theorem entangled_compiledFrom : entangledMessage.CompiledFrom entangled
    (FixedBytes.filled .publicKey 1) (FixedBytes.filled .hash 9) := by
  decide +kernel

theorem decompile_compiled_entangled :
    compile entangled (FixedBytes.filled .publicKey 1) (FixedBytes.filled .hash 9) =
      .ok entangledMessage ∧
    ∃ found, entangledMessage.decompile = .ok found ∧
      List.Forall₂ (ReadsAs entangled (FixedBytes.filled .publicKey 1)) entangled found := by
  have compiled := compile_eq_ok_iff.mpr entangled_compiledFrom
  exact ⟨compiled, decompile_compiled compiled⟩

end Message

end LedgerWire
