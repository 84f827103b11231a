import LedgerWire.Proofs.Compile

/-!
How a compiled message lays out its keys, said of what was compiled: each key once, by class of
privileges and then by first mention, behind a header that counts the classes. The order of the
classes is `Privileges.rank`; putting keys in it keeps the order they had inside a class.
-/

namespace LedgerWire

theorem pairwise_idxOf_eraseDups (keys : List PublicKey) :
    keys.eraseDups.Pairwise fun first second => keys.idxOf first < keys.idxOf second := by
  induction keys using List.reverseRecOn with
  | nil => exact .nil
  | append_singleton keys key ih =>
      have kept : keys.eraseDups.Pairwise fun first second =>
          (keys ++ [key]).idxOf first < (keys ++ [key]).idxOf second := by
        apply ih.imp_of_mem
        intro first second firstMember secondMember before
        rw [List.mem_eraseDups] at firstMember secondMember
        rwa [List.idxOf_append_of_mem firstMember, List.idxOf_append_of_mem secondMember]
      rw [eraseDups_concat]
      by_cases member : key ∈ keys
      · rw [if_pos member]
        exact kept
      · rw [if_neg member, List.pairwise_append]
        refine ⟨kept, List.pairwise_singleton _ _, ?_⟩
        intro first firstMember second secondMember
        rw [List.mem_eraseDups] at firstMember
        rw [List.mem_singleton.mp secondMember, List.idxOf_append_of_mem firstMember,
          List.idxOf_append_of_notMem member]
        exact Nat.lt_add_right _ (List.idxOf_lt_length_of_mem firstMember)

namespace Message

theorem pairwise_orderByClass {before : AccountMeta → AccountMeta → Prop} {metas : List AccountMeta}
    (sorted : metas.Pairwise before) : (orderByClass metas).Pairwise fun first second =>
      first.privileges.rank < second.privileges.rank ∨
        first.privileges.rank = second.privileges.rank ∧ before first second := by
  have inClass {privileges : Privileges} {account : AccountMeta}
      (member : account ∈ metas.filter fun account => account.privileges = privileges) :
      account.privileges = privileges := of_decide_eq_true (List.mem_filter.mp member).2
  rw [orderByClass_eq_flatMap, List.pairwise_flatMap]
  constructor
  · intro privileges _
    apply (sorted.filter _).imp_of_mem
    intro first second firstMember secondMember inOrder
    exact .inr ⟨by rw [inClass firstMember, inClass secondMember], inOrder⟩
  · apply Privileges.pairwise_classes.imp
    intro lower higher lowerRank first firstMember second secondMember
    exact .inl (by rwa [inClass firstMember, inClass secondMember])

def keySequence (instructions : List Instruction) (feePayer : PublicKey) : List PublicKey :=
  feePayer :: (instructions.flatMap (fun instruction =>
    instruction.accounts.map AccountMeta.publicKey) ++ instructions.map Instruction.program)

/-- What all accounts of a key ask for together. The fee payer has every privilege, and being a
program gives none. -/
def requested (instructions : List Instruction) (feePayer key : PublicKey) : Privileges where
  signer := key == feePayer || instructions.any fun instruction =>
    instruction.accounts.any fun account => account.publicKey == key && account.isSigner
  writable := key == feePayer || instructions.any fun instruction =>
    instruction.accounts.any fun account => account.publicKey == key && account.isWritable

/-- One key comes before another by its class, and inside a class by its first mention. -/
def Precedes (instructions : List Instruction) (feePayer first second : PublicKey) : Prop :=
  let rank (key : PublicKey) := (requested instructions feePayer key).rank
  rank first < rank second ∨ rank first = rank second ∧
    (keySequence instructions feePayer).idxOf first <
      (keySequence instructions feePayer).idxOf second

structure PointsAt (keys : List PublicKey) (given : Instruction) (compiled : CompiledInstruction) :
    Prop where
  program : keys[compiled.programIndex.toNat]? = some given.program
  accounts : List.Forall₂ (fun account index => keys[index.toNat]? = some account.publicKey)
    given.accounts compiled.accounts
  data : compiled.data = given.data

structure LaidOutFor (message : Message) (instructions : List Instruction) (feePayer : PublicKey)
    (recentBlockhash : Hash) : Prop where
  distinct : message.accountKeys.Nodup
  mem_iff : ∀ key, key ∈ message.accountKeys ↔ key ∈ keySequence instructions feePayer
  ordered : message.accountKeys.Pairwise (Precedes instructions feePayer)
  first : message.accountKeys[0]? = some feePayer
  requiredSignatures : message.header.requiredSignatures.toNat =
    message.accountKeys.countP fun key => (requested instructions feePayer key).signer
  readonlySigned : message.header.readonlySigned.toNat = message.accountKeys.countP fun key =>
    (requested instructions feePayer key).signer && !(requested instructions feePayer key).writable
  readonlyUnsigned : message.header.readonlyUnsigned.toNat = message.accountKeys.countP fun key =>
    !(requested instructions feePayer key).signer && !(requested instructions feePayer key).writable
  privileges : ∀ index key, message.accountKeys[index]? = some key →
    ⟨message.isSigner index, message.isWritable index⟩ = requested instructions feePayer key
  instructions : List.Forall₂ (PointsAt message.accountKeys) instructions message.instructions
  recentBlockhash : message.recentBlockhash = recentBlockhash
  checked : message.check = .ok ()

variable {instructions : List Instruction} {feePayer : PublicKey} {recentBlockhash : Hash}
variable {message : Message}

theorem publicKeys_mentions : (mentions instructions feePayer).map AccountMeta.publicKey =
    keySequence instructions feePayer := by
  simp [mentions, keySequence, List.map_flatMap, Function.comp_def]

theorem grantedBy_mentions (key : PublicKey) :
    Privileges.grantedBy (mentions instructions feePayer) key =
      requested instructions feePayer key := by
  have noProgram : (instructions.any fun _ => false) = false := List.any_eq_false.mpr (by simp)
  simp [Privileges.grantedBy, requested, mentions, List.any_flatMap, Function.comp_def, noProgram,
    BEq.comm (a := feePayer)]

theorem mergedMeta_mentions (key : PublicKey) : mergedMeta (mentions instructions feePayer) key =
    ⟨key, (requested instructions feePayer key).signer,
      (requested instructions feePayer key).writable⟩ := by
  rw [mergedMeta, grantedBy_mentions]

theorem not_precedes_feePayer (key : PublicKey) : ¬ Precedes instructions feePayer key feePayer := by
  have payer : requested instructions feePayer feePayer = ⟨true, true⟩ := by simp [requested]
  have place : (keySequence instructions feePayer).idxOf feePayer = 0 := by simp [keySequence]
  simp [Precedes, payer, place, Privileges.rank]

theorem pairwise_mergedMetas (instructions : List Instruction) (feePayer : PublicKey) :
    (mergedMetas (mentions instructions feePayer)).Pairwise fun first second =>
      (keySequence instructions feePayer).idxOf first.publicKey <
        (keySequence instructions feePayer).idxOf second.publicKey := by
  rw [mergedMetas, publicKeys_mentions, List.pairwise_map]
  exact pairwise_idxOf_eraseDups _

theorem PointsAt.of_placedIn {keys : List PublicKey} {instruction : Instruction}
    (fits : keys.length ≤ maxAccountKeys) (program : instruction.program ∈ keys)
    (accounts : ∀ account ∈ instruction.accounts, account.publicKey ∈ keys) :
    PointsAt keys instruction (instruction.placedIn keys) where
  program := by
    rw [Instruction.placedIn, toNat_idxOf fits program]
    exact List.getElem?_idxOf program
  accounts := by
    rw [Instruction.placedIn, List.forall₂_map_right_iff, List.forall₂_same]
    intro account member
    rw [toNat_idxOf fits (accounts account member)]
    exact List.getElem?_idxOf (accounts account member)
  data := rfl

namespace CompiledFrom

variable (compiled : message.CompiledFrom instructions feePayer recentBlockhash)
include compiled

theorem keyMetas_eq : keyMetas instructions feePayer = message.accountKeys.map fun key =>
    ⟨key, (requested instructions feePayer key).signer,
      (requested instructions feePayer key).writable⟩ := by
  rw [← compiled.accountMetas_eq, compiled.accountMetas_eq_map]
  exact List.map_congr_left fun key _ => mergedMeta_mentions key

theorem pairwise_precedes : message.accountKeys.Pairwise (Precedes instructions feePayer) := by
  have sorted := pairwise_orderByClass (pairwise_mergedMetas instructions feePayer)
  rw [← keyMetas, compiled.keyMetas_eq, List.pairwise_map] at sorted
  exact sorted

theorem getElem?_zero : message.accountKeys[0]? = some feePayer := by
  have ordered := compiled.pairwise_precedes
  have member : feePayer ∈ message.accountKeys := by
    rw [compiled.mem_accountKeys, publicKeys_mentions]
    exact List.mem_cons_self
  cases keys : message.accountKeys with
  | nil => simp [keys] at member
  | cons key rest =>
      rw [keys] at ordered member
      rcases List.mem_cons.mp member with same | later
      · rw [same, List.getElem?_cons_zero]
      · exact absurd (List.rel_of_pairwise_cons ordered later) (not_precedes_feePayer key)

theorem privileges_getElem? {index : Nat} {key : PublicKey}
    (held : message.accountKeys[index]? = some key) :
    ⟨message.isSigner index, message.isWritable index⟩ = requested instructions feePayer key := by
  have byPlace : message.accountMetas[index]? =
      some ⟨key, message.isSigner index, message.isWritable index⟩ := by
    simp [accountMetas, held, isSigner, isWritable]
  rw [compiled.accountMetas_eq, compiled.keyMetas_eq, List.getElem?_map, held] at byPlace
  simp only [Option.map_some, Option.some.injEq, AccountMeta.mk.injEq, true_and] at byPlace
  rw [← byPlace.1, ← byPlace.2]

theorem counts_accountKeys (privileged : Privileges → Bool) :
    ((keyMetas instructions feePayer).countP fun account => privileged account.privileges) =
      message.accountKeys.countP fun key => privileged (requested instructions feePayer key) := by
  rw [compiled.keyMetas_eq, List.countP_map]
  rfl

theorem pointsAt_placed :
    List.Forall₂ (PointsAt message.accountKeys) instructions message.instructions := by
  rw [compiled.instructions, List.forall₂_map_right_iff, List.forall₂_same]
  intro instruction member
  apply PointsAt.of_placedIn compiled.fits
  · exact compiled.mem_accountKeys.mpr (mem_mentions_program member)
  · intro account asked
    exact compiled.mem_accountKeys.mpr (mem_mentions_account member asked)

end CompiledFrom

/-- What compiling puts into a message: the keys of its instructions, laid out by what is asked of
them, and indices that point at them. -/
theorem layout_of_compile (compiled : compile instructions feePayer recentBlockhash = .ok message) :
    message.LaidOutFor instructions feePayer recentBlockhash := by
  have compiled := compile_eq_ok_iff.mp compiled
  have formed := compiled.wellFormed
  exact {
    distinct := formed.distinct
    mem_iff := fun key => by rw [compiled.mem_accountKeys, publicKeys_mentions]
    ordered := compiled.pairwise_precedes
    first := compiled.getElem?_zero
    requiredSignatures :=
      compiled.header.requiredSignatures.trans (compiled.counts_accountKeys Privileges.signer)
    readonlySigned := compiled.header.readonlySigned.trans
      (compiled.counts_accountKeys fun granted => granted.signer && !granted.writable)
    readonlyUnsigned := compiled.header.readonlyUnsigned.trans
      (compiled.counts_accountKeys fun granted => !granted.signer && !granted.writable)
    privileges := fun index key held => compiled.privileges_getElem? held
    instructions := compiled.pointsAt_placed
    recentBlockhash := compiled.recentBlockhash
    checked := (check_eq_ok_iff message).mpr formed }

theorem layout_of_compile_entangled :
    compile entangled (FixedBytes.filled .publicKey 1) (FixedBytes.filled .hash 9) =
      .ok entangledMessage ∧
    entangledMessage.LaidOutFor entangled (FixedBytes.filled .publicKey 1)
      (FixedBytes.filled .hash 9) := by
  have compiled := compile_eq_ok_iff.mpr entangled_compiledFrom
  exact ⟨compiled, layout_of_compile compiled⟩

end Message

end LedgerWire
