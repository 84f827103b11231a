import LedgerWire.Proofs.Recompile
import Mathlib.Data.Finset.Card

/-!
When compiling fails. A table of one byte's worth of keys has room for every key but not always for
its count of signers: the fee payer signs and is writable, so it is in neither of the other classes
that are counted, and these always fit. Every key that is looked up stands in the table, at a place
that one byte can name.
-/

namespace LedgerWire.Message

variable {instructions : List Instruction} {feePayer : PublicKey} {recentBlockhash : Hash}

theorem classCount_of_fits {accounts : Nat} (fits : accounts ≤ 255) :
    classCount accounts = .ok (UInt8.ofNat accounts) := if_pos fits

theorem classCount_of_large {accounts : Nat} (large : 255 < accounts) :
    classCount accounts = .error (.invalidHeader (.classTooLarge accounts)) :=
  if_neg (Nat.not_le.mpr large)

theorem card_keySequence : (keySequence instructions feePayer).toFinset.card =
    (keyMetas instructions feePayer).length := by
  have same : (keySequence instructions feePayer).toFinset =
      ((keyMetas instructions feePayer).map AccountMeta.publicKey).toFinset := by
    ext key
    rw [List.mem_toFinset, List.mem_toFinset, mem_publicKeys_keyMetas, publicKeys_mentions]
  rw [same, List.toFinset_card_of_nodup nodup_publicKeys_keyMetas, List.length_map]

theorem countP_isSigner_eq_length_iff :
    (keyMetas instructions feePayer).countP AccountMeta.isSigner =
      (keyMetas instructions feePayer).length ↔
        ∀ key ∈ (keySequence instructions feePayer).toFinset,
          (requested instructions feePayer key).signer = true := by
  rw [List.countP_eq_length, keyMetas_eq_map_publicKeys, List.forall_mem_map]
  simp only [mergedMeta_mentions, mem_publicKeys_keyMetas, publicKeys_mentions, List.mem_toFinset]

/-- All that compiling does with a table and counts no signers for: it counts the other classes of
the header, and it finds the place of each key and makes it a byte. -/
structure Placeable (metas : List AccountMeta) (keys : List PublicKey) : Prop where
  readonlySigned : ∃ count,
    classCount (metas.countP fun account => account.isSigner && !account.isWritable) = .ok count
  readonlyUnsigned : ∃ count,
    classCount (metas.countP fun account => !account.isSigner && !account.isWritable) = .ok count
  placed : ∀ key ∈ keys, ∃ index : Nat,
    (Std.HashMap.ofList (metas.map AccountMeta.publicKey).zipIdx)[key]? = some index ∧
      (UInt8.ofNat index).toNat = index

theorem placeable_keyMetas (fits : (keyMetas instructions feePayer).length ≤ maxAccountKeys) :
    Placeable (keyMetas instructions feePayer) (keySequence instructions feePayer) := by
  have payer : 0 < (keyMetas instructions feePayer).countP fun account =>
      account.isSigner && account.isWritable :=
    List.countP_pos_iff.mpr ⟨_, feePayer_mem_keyMetas, rfl⟩
  have signers := countP_split (keyMetas instructions feePayer) AccountMeta.isSigner
  have classes := length_eq_classes (keyMetas instructions feePayer)
  have bound : maxAccountKeys = 255 + 1 := rfl
  constructor
  · exact ⟨_, classCount_of_fits (by omega)⟩
  · exact ⟨_, classCount_of_fits (by omega)⟩
  · intro key mentioned
    have member : key ∈ (keyMetas instructions feePayer).map AccountMeta.publicKey := by
      rwa [mem_publicKeys_keyMetas, publicKeys_mentions]
    have place := getElem?_positions nodup_publicKeys_keyMetas member
    exact ⟨_, place, toNat_idxOf (by rwa [List.length_map]) member⟩

theorem compile_of_crowd
    (full : (keyMetas instructions feePayer).length = maxAccountKeys)
    (allSign : (keyMetas instructions feePayer).countP AccountMeta.isSigner =
      (keyMetas instructions feePayer).length) :
    compile instructions feePayer recentBlockhash =
      .error (.invalidHeader (.classTooLarge maxAccountKeys)) := by
  have refused : headerOf (keyMetas instructions feePayer) =
      .error (.invalidHeader (.classTooLarge maxAccountKeys)) := by
    rw [headerOf, allSign, full, classCount_of_large (by decide)]
    rfl
  simp only [compile_eq, full, Nat.lt_irrefl, if_false, refused]
  rfl

theorem exists_compile_of_room (fits : (keyMetas instructions feePayer).length ≤ maxAccountKeys)
    (room : ¬ ((keyMetas instructions feePayer).length = maxAccountKeys ∧
      (keyMetas instructions feePayer).countP AccountMeta.isSigner =
        (keyMetas instructions feePayer).length)) :
    ∃ message, compile instructions feePayer recentBlockhash = .ok message := by
  have bound : maxAccountKeys = 255 + 1 := rfl
  have atMost : (keyMetas instructions feePayer).countP AccountMeta.isSigner ≤
      (keyMetas instructions feePayer).length := List.countP_le_length
  exact exists_compile fits (by omega)

/-- Compiling fails on more keys than one byte can index, and on as many when all of them sign. -/
theorem compile_outcome (instructions : List Instruction) (feePayer : PublicKey)
    (recentBlockhash : Hash) :
    let keys := (keySequence instructions feePayer).toFinset
    let metas := orderByClass (KeyTable.ofMentions (mentions instructions feePayer)).metas
    if maxAccountKeys < keys.card then
      compile instructions feePayer recentBlockhash =
        .error (.indexOutOfRange (keys.card - 1) maxAccountKeys)
    else
      Placeable metas (keySequence instructions feePayer) ∧
      if keys.card = maxAccountKeys ∧
          ∀ key ∈ keys, (requested instructions feePayer key).signer = true then
        compile instructions feePayer recentBlockhash =
          .error (.invalidHeader (.classTooLarge maxAccountKeys))
      else
        ∃ message, compile instructions feePayer recentBlockhash = .ok message ∧
          List.Forall₂ (PointsAt message.accountKeys) instructions message.instructions := by
  dsimp only
  rw [KeyTable.metas_ofMentions, ← keyMetas, card_keySequence]
  by_cases large : maxAccountKeys < (keyMetas instructions feePayer).length
  · rw [if_pos large, compile_eq]
    exact if_pos large
  · have fits := Nat.not_lt.mp large
    rw [if_neg large]
    refine ⟨placeable_keyMetas fits, ?_⟩
    split
    · rename_i crowd
      exact compile_of_crowd crowd.1 (countP_isSigner_eq_length_iff.mpr crowd.2)
    · rename_i room
      rw [← countP_isSigner_eq_length_iff] at room
      obtain ⟨message, compiled⟩ := exists_compile_of_room fits room
      exact ⟨message, compiled, (compile_eq_ok_iff.mp compiled).pointsAt_placed⟩

end LedgerWire.Message
