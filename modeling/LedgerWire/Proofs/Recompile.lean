import LedgerWire.Proofs.Decompile

/-!
Compiling again what was read from a message. What is read asks, with each account, for all that its
key was granted, so merging adds nothing and the keys are laid out as before. A message that was laid
out in another way keeps its meaning: only keys that nothing names are dropped, and a key that is
named only as a program no longer has privileges that nobody asked for.
-/

namespace LedgerWire.Message

variable {instructions found : List Instruction} {feePayer : PublicKey} {recentBlockhash : Hash}
variable {message : Message}

def promotions (instructions : List Instruction) (feePayer : PublicKey) : List Instruction :=
  instructions.map (Instruction.promoted (mentions instructions feePayer))

theorem isSigner_mergedMeta_iff {key : PublicKey} :
    (mergedMeta (mentions instructions feePayer) key).isSigner = true ↔
      Granted AccountMeta.isSigner instructions feePayer key :=
  any_mentions_iff rfl fun _ => rfl

theorem isWritable_mergedMeta_iff {key : PublicKey} :
    (mergedMeta (mentions instructions feePayer) key).isWritable = true ↔
      Granted AccountMeta.isWritable instructions feePayer key :=
  any_mentions_iff rfl fun _ => rfl

theorem mergedMeta_eq_self (account : AccountMeta)
    (signer : Granted AccountMeta.isSigner instructions feePayer account.publicKey ↔
      account.isSigner = true)
    (writable : Granted AccountMeta.isWritable instructions feePayer account.publicKey ↔
      account.isWritable = true) :
    mergedMeta (mentions instructions feePayer) account.publicKey = account := by
  rw [← isSigner_mergedMeta_iff, ← Bool.eq_iff_iff] at signer
  rw [← isWritable_mergedMeta_iff, ← Bool.eq_iff_iff] at writable
  cases account
  exact (AccountMeta.mk.injEq _ _ _ _ _ _).mpr ⟨rfl, signer, writable⟩

/-- Asking again for what was granted grants nothing else. -/
theorem granted_promotions_iff {privilege : AccountMeta → Bool} {key : PublicKey}
    (merged : ∀ other, privilege (mergedMeta (mentions instructions feePayer) other) = true ↔
      Granted privilege instructions feePayer other) :
    Granted privilege (promotions instructions feePayer) feePayer key ↔
      Granted privilege instructions feePayer key := by
  constructor
  · rintro (payer | ⟨_, member, _, asked, rfl, wanted⟩)
    · exact .inl payer
    · obtain ⟨instruction, _, rfl⟩ := List.mem_map.mp member
      obtain ⟨account, _, rfl⟩ := List.mem_map.mp asked
      exact (merged account.publicKey).mp wanted
  · rintro (payer | ⟨instruction, member, account, asked, rfl, wanted⟩)
    · exact .inl payer
    · have granted : Granted privilege instructions feePayer account.publicKey :=
        .inr ⟨instruction, member, account, asked, rfl, wanted⟩
      exact .inr ⟨_, List.mem_map_of_mem member, _, List.mem_map_of_mem asked, rfl,
        (merged account.publicKey).mpr granted⟩

theorem mergedMeta_promotions :
    mergedMeta (mentions (promotions instructions feePayer) feePayer) =
      mergedMeta (mentions instructions feePayer) := by
  funext key
  apply mergedMeta_eq_self (mergedMeta (mentions instructions feePayer) key)
  · rw [isSigner_mergedMeta_iff]
    exact granted_promotions_iff fun _ => isSigner_mergedMeta_iff
  · rw [isWritable_mergedMeta_iff]
    exact granted_promotions_iff fun _ => isWritable_mergedMeta_iff

theorem keySequence_promotions :
    keySequence (promotions instructions feePayer) feePayer = keySequence instructions feePayer := by
  simp [keySequence, promotions, Instruction.promoted, mergedMeta, List.flatMap_map,
    Function.comp_def]

theorem keyMetas_promotions :
    keyMetas (promotions instructions feePayer) feePayer = keyMetas instructions feePayer := by
  simp only [keyMetas, mergedMetas, publicKeys_mentions, keySequence_promotions,
    mergedMeta_promotions]

theorem CompiledFrom.promotions
    (compiled : message.CompiledFrom instructions feePayer recentBlockhash) :
    message.CompiledFrom (promotions instructions feePayer) feePayer recentBlockhash where
  fits := compiled.fits
  header := by
    rw [keyMetas_promotions]
    exact compiled.header
  accountKeys := by
    rw [keyMetas_promotions]
    exact compiled.accountKeys
  recentBlockhash := compiled.recentBlockhash
  instructions := by
    rw [compiled.instructions, Message.promotions, List.map_map]
    apply List.map_congr_left
    intro instruction _
    simp [Instruction.placedIn, Instruction.promoted, mergedMeta]

/-- What a compiled message reads back as is compiled into the same message. -/
theorem recompile_decompiled
    (compiled : compile instructions feePayer recentBlockhash = .ok message) :
    ∃ found, message.decompile = .ok found ∧
      compile found feePayer recentBlockhash = .ok message := by
  have compiled := compile_eq_ok_iff.mp compiled
  exact ⟨promotions instructions feePayer, compiled.decompile_eq,
    compile_eq_ok_iff.mpr compiled.promotions⟩

theorem recompile_decompiled_entangled :
    compile entangled (FixedBytes.filled .publicKey 1) (FixedBytes.filled .hash 9) =
      .ok entangledMessage ∧
    ∃ found, entangledMessage.decompile = .ok found ∧ found ≠ entangled ∧
      compile found (FixedBytes.filled .publicKey 1) (FixedBytes.filled .hash 9) =
        .ok entangledMessage := by
  have compiled := compile_eq_ok_iff.mpr entangled_compiledFrom
  obtain ⟨found, read, recompiled⟩ := recompile_decompiled compiled
  refine ⟨compiled, found, read, ?_, recompiled⟩
  rintro rfl
  have promoted := entangled_compiledFrom.decompile_eq
  rw [read, Except.ok.injEq] at promoted
  exact absurd promoted (by decide +kernel)

theorem exists_counts {metas : List AccountMeta} (signers : metas.countP AccountMeta.isSigner ≤ 255)
    (others : (metas.countP fun account => !account.isSigner && !account.isWritable) ≤ 255) :
    ∃ header, Counts header metas := by
  have fits {count : Nat} (bound : count ≤ 255) : (UInt8.ofNat count).toNat = count :=
    UInt8.toNat_ofNat_of_lt' (Nat.lt_succ_of_le bound)
  have split := countP_split metas AccountMeta.isSigner
  exact ⟨⟨_, _, _⟩, fits signers, fits (by omega), fits others⟩

theorem feePayer_mem_keyMetas : ⟨feePayer, true, true⟩ ∈ keyMetas instructions feePayer := by
  have payer : mergedMeta (mentions instructions feePayer) feePayer = ⟨feePayer, true, true⟩ := by
    rw [mergedMeta_mentions]
    simp [requested]
  have member : feePayer ∈ (keyMetas instructions feePayer).map AccountMeta.publicKey := by
    rw [mem_publicKeys_keyMetas, publicKeys_mentions]
    exact List.mem_cons_self
  rw [← payer, keyMetas_eq_map_publicKeys]
  exact List.mem_map_of_mem member

theorem countP_isSigner_pos : 0 < (keyMetas instructions feePayer).countP AccountMeta.isSigner :=
  List.countP_pos_iff.mpr ⟨_, feePayer_mem_keyMetas, rfl⟩

theorem CompiledFrom.requiredSignatures_pos
    (compiled : message.CompiledFrom instructions feePayer recentBlockhash) :
    0 < message.requiredSignatures := by
  rw [Message.requiredSignatures, compiled.header.requiredSignatures]
  exact countP_isSigner_pos

theorem feePayer?_of_first (first : message.accountKeys[0]? = some feePayer)
    (signed : 0 < message.requiredSignatures) : message.feePayer? = some feePayer := by
  rw [feePayer?, List.head?_eq_getElem?, signerKeys, List.getElem?_take_of_lt signed]
  exact first

theorem exists_compile (fits : (keyMetas instructions feePayer).length ≤ maxAccountKeys)
    (signers : (keyMetas instructions feePayer).countP AccountMeta.isSigner ≤ 255) :
    ∃ message, compile instructions feePayer recentBlockhash = .ok message := by
  have payer : 0 < (keyMetas instructions feePayer).countP AccountMeta.isSigner :=
    countP_isSigner_pos
  have classes := length_eq_classes (keyMetas instructions feePayer)
  obtain ⟨header, counts⟩ := exists_counts signers (by unfold maxAccountKeys at fits; omega)
  let accountKeys := (keyMetas instructions feePayer).map AccountMeta.publicKey
  have fits : accountKeys.length ≤ maxAccountKeys := by rwa [List.length_map]
  refine ⟨⟨header, accountKeys, recentBlockhash,
    instructions.map (Instruction.placedIn accountKeys)⟩, compile_eq_ok_iff.mpr ?_⟩
  exact ⟨fits, counts, rfl, rfl, rfl⟩

section OneMetaForEachKey

variable {metas : List AccountMeta} (distinct : (metas.map AccountMeta.publicKey).Nodup)
  (payer : ⟨feePayer, true, true⟩ ∈ metas)
  (known : ∀ instruction ∈ instructions, ∀ account ∈ instruction.accounts, account ∈ metas)
include distinct payer known

theorem granted_iff_of_known {privilege : AccountMeta → Bool}
    (payerHas : privilege ⟨feePayer, true, true⟩ = true) {instruction : Instruction}
    (member : instruction ∈ instructions) {account : AccountMeta}
    (asked : account ∈ instruction.accounts) :
    Granted privilege instructions feePayer account.publicKey ↔ privilege account = true := by
  have accountKnown := known instruction member account asked
  constructor
  · rintro (same | ⟨other, otherMember, otherAccount, otherAsked, same, wanted⟩)
    · rw [List.inj_on_of_nodup_map distinct accountKnown payer same]
      exact payerHas
    · have otherKnown := known other otherMember otherAccount otherAsked
      rwa [List.inj_on_of_nodup_map distinct otherKnown accountKnown same] at wanted
  · intro wanted
    exact .inr ⟨instruction, member, account, asked, rfl, wanted⟩

theorem promotions_eq_self : promotions instructions feePayer = instructions := by
  have unchanged : ∀ instruction ∈ instructions,
      instruction.promoted (mentions instructions feePayer) = instruction := by
    intro instruction member
    have accounts : ∀ account ∈ instruction.accounts,
        mergedMeta (mentions instructions feePayer) account.publicKey = account := by
      intro account asked
      exact mergedMeta_eq_self account
        (granted_iff_of_known distinct payer known rfl member asked)
        (granted_iff_of_known distinct payer known rfl member asked)
    rw [Instruction.promoted, List.map_congr_left accounts, List.map_id']
  calc promotions instructions feePayer
      = instructions.map id := List.map_congr_left unchanged
    _ = instructions := List.map_id instructions

end OneMetaForEachKey

theorem length_le_of_subset_take {keys others : List PublicKey} {bound : Nat}
    (distinct : keys.Nodup) (within : keys ⊆ others.take bound) : keys.length ≤ bound :=
  Nat.le_trans (List.subperm_of_subset distinct within).length_le (List.length_take_le bound others)

section Foreign

variable (payerWrites : message.header.readonlySigned.toNat < message.requiredSignatures)
  (first : message.accountKeys[0]? = some feePayer) (read : message.decompile = .ok found)

include payerWrites first in
theorem feePayer_mem_accountMetas : ⟨feePayer, true, true⟩ ∈ message.accountMetas := by
  have inside : 0 < message.accountKeys.length := (List.getElem?_eq_some_iff.mp first).1
  have signer : message.isSigner 0 = true := decide_eq_true (Nat.zero_lt_of_lt payerWrites)
  have writable : message.isWritable 0 = true := by
    unfold requiredSignatures at payerWrites
    have signs : 0 < message.header.requiredSignatures.toNat := Nat.zero_lt_of_lt payerWrites
    have beforeReadonly := Nat.sub_pos_of_lt payerWrites
    simp only [isWritable, MessageHeader.isWritable, inside, signs, beforeReadonly, if_true,
      decide_true, Bool.and_self]
  have held : message.accountMetas[0]? = some ⟨feePayer, true, true⟩ := by
    rw [getElem?_accountMetas, first, Option.map_some, signer, writable]
  exact List.mem_of_getElem? held

include first read in
theorem length_keyMetas_of_decompile : (keyMetas found feePayer).length ≤ maxAccountKeys := by
  rw [← List.length_map AccountMeta.publicKey]
  apply length_le_of_subset_take nodup_publicKeys_keyMetas
  intro key member
  rw [mem_publicKeys_keyMetas, publicKeys_mentions, mem_keySequence_of_decompile read] at member
  rcases member with payer | ⟨_, _, index, _, held⟩
  · rw [payer]
    exact mem_take_of_getElem? first (by decide)
  · exact mem_take_of_getElem? held index.toNat_lt

include payerWrites first read in
theorem mem_signerKeys_of_granted {key : PublicKey}
    (granted : Granted AccountMeta.isSigner found feePayer key) : key ∈ message.signerKeys := by
  rcases granted with payer | ⟨instruction, member, account, asked, same, signs⟩
  · rw [payer]
    have held := feePayer_mem_accountMetas payerWrites first
    exact mem_signerKeys_of_accountMetas held rfl
  · rw [← same]
    have held := mem_accountMetas_of_decompile read instruction member account asked
    exact mem_signerKeys_of_accountMetas held signs

include payerWrites first read in
theorem countP_isSigner_of_decompile :
    (keyMetas found feePayer).countP AccountMeta.isSigner ≤ 255 := by
  let signers := ((keyMetas found feePayer).filter AccountMeta.isSigner).map AccountMeta.publicKey
  have distinct : signers.Nodup :=
    nodup_publicKeys_keyMetas.sublist (List.filter_sublist.map AccountMeta.publicKey)
  have within : signers ⊆ message.signerKeys := by
    intro key member
    obtain ⟨account, filtered, rfl⟩ := List.mem_map.mp member
    obtain ⟨held, signs⟩ := List.mem_filter.mp filtered
    rw [keyMetas_eq_map_publicKeys] at held
    obtain ⟨key, _, rfl⟩ := List.mem_map.mp held
    exact mem_signerKeys_of_granted payerWrites first read (isSigner_mergedMeta_iff.mp signs)
  have few := length_le_of_subset_take distinct within
  rw [List.countP_eq_length_filter, ← List.length_map AccountMeta.publicKey]
  exact Nat.le_trans few (Nat.le_of_lt_succ message.header.requiredSignatures.toNat_lt)

end Foreign

/-- A well-formed message whose first key is a writable signer can be compiled again, whatever order
its keys have and however many it carries. It reads the same, and keeps the keys that are named. -/
theorem recompile_foreign {message : Message} (checked : message.check = .ok ())
    (payerWrites : message.header.readonlySigned < message.header.requiredSignatures) :
    ∃ feePayer found recompiled, message.accountKeys[0]? = some feePayer ∧
      message.decompile = .ok found ∧
      compile found feePayer message.recentBlockhash = .ok recompiled ∧
      recompiled.decompile = .ok found ∧
      recompiled.feePayer? = some feePayer ∧ message.feePayer? = some feePayer ∧
      recompiled.recentBlockhash = message.recentBlockhash ∧
      recompiled.accountKeys.Nodup ∧
      ∀ key, key ∈ recompiled.accountKeys ↔ key = feePayer ∨ message.Refers key := by
  have formed := (check_eq_ok_iff message).mp checked
  have payerWrites : message.header.readonlySigned.toNat < message.requiredSignatures :=
    UInt8.lt_iff_toNat_lt.mp payerWrites
  have covered := formed.covered
  have inside : 0 < message.accountKeys.length := by omega
  obtain ⟨feePayer, first⟩ : ∃ feePayer, message.accountKeys[0]? = some feePayer :=
    ⟨_, List.getElem?_eq_getElem inside⟩
  obtain ⟨found, read⟩ := formed.exists_decompile
  obtain ⟨recompiled, compiled⟩ : ∃ recompiled,
      compile found feePayer message.recentBlockhash = .ok recompiled :=
    exists_compile (length_keyMetas_of_decompile first read)
      (countP_isSigner_of_decompile payerWrites first read)
  have fromFound := compile_eq_ok_iff.mp compiled
  have settled : promotions found feePayer = found :=
    promotions_eq_self (nodup_publicKeys_accountMetas formed)
      (feePayer_mem_accountMetas payerWrites first) (mem_accountMetas_of_decompile read)
  refine ⟨feePayer, found, recompiled, first, read, compiled, ?_, ?_, ?_,
    fromFound.recentBlockhash, fromFound.wellFormed.distinct, ?_⟩
  · rw [fromFound.decompile_eq]
    exact congrArg Except.ok settled
  · exact feePayer?_of_first fromFound.getElem?_zero fromFound.requiredSignatures_pos
  · exact feePayer?_of_first first (Nat.zero_lt_of_lt payerWrites)
  · intro key
    rw [fromFound.mem_accountKeys, publicKeys_mentions, mem_keySequence_of_decompile read]

def wideKey (index : Nat) : PublicKey :=
  ⟨LittleEndian.encode 32 index, LittleEndian.length_encode 32 index⟩

def sprawlingMessage : Message where
  header := ⟨3, 1, 40⟩
  accountKeys := (List.range 300).map wideKey
  recentBlockhash := FixedBytes.filled .hash 9
  instructions := [⟨200, [5, 2, 5, 1], [7, 7]⟩, ⟨5, [0, 255], []⟩]

theorem sprawlingMessage_wellFormed : sprawlingMessage.WellFormed where
  readonlySigned := by decide
  covered := by simp [sprawlingMessage, requiredSignatures]
  distinct := by
    have value {index : Nat} (member : index ∈ List.range 300) :
        LittleEndian.decode (wideKey index).bytes = index :=
      LittleEndian.decode_encode 32 index (Nat.lt_trans (List.mem_range.mp member) (by decide))
    apply List.nodup_range.map_on
    intro first firstMember second secondMember same
    rw [← value firstMember, ← value secondMember, same]
  inside := by
    intro instruction _ index _
    have byte := index.toNat_lt
    simp only [sprawlingMessage, List.length_map, List.length_range]
    omega

theorem recompile_foreign_sprawling :
    sprawlingMessage.check = .ok () ∧
    sprawlingMessage.header.readonlySigned < sprawlingMessage.header.requiredSignatures ∧
    ∃ found recompiled, sprawlingMessage.decompile = .ok found ∧
      compile found (wideKey 0) sprawlingMessage.recentBlockhash = .ok recompiled ∧
      recompiled.decompile = .ok found ∧ recompiled ≠ sprawlingMessage := by
  have checked := (check_eq_ok_iff sprawlingMessage).mpr sprawlingMessage_wellFormed
  have payerWrites : sprawlingMessage.header.readonlySigned <
      sprawlingMessage.header.requiredSignatures := by decide
  obtain ⟨feePayer, found, recompiled, first, read, compiled, readAgain, _⟩ :=
    recompile_foreign checked payerWrites
  have payer : feePayer = wideKey 0 := by simpa [sprawlingMessage, eq_comm] using first
  rw [payer] at compiled
  refine ⟨checked, payerWrites, found, recompiled, read, compiled, readAgain, ?_⟩
  rintro rfl
  have fits := (compile_eq_ok_iff.mp compiled).fits
  simp [sprawlingMessage, maxAccountKeys] at fits

end LedgerWire.Message
