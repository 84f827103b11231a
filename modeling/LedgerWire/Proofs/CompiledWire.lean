import LedgerWire.Proofs.Compile
import LedgerWire.Proofs.WireRoundTrip

/-!
Compiled messages on the wire. The first byte of a message counts its signers, and its top bit marks
a version: what compiling produces is read back up to 127 signers, though a header can count 255.
-/

namespace LedgerWire.Message

variable {instructions : List Instruction} {feePayer : PublicKey} {recentBlockhash : Hash}
variable {message : Message} {bytes : Bytes}

theorem decode_of_many_signers (many : 127 < message.requiredSignatures)
    (written : message.encode = .ok bytes) :
    decode bytes = .error (.unsupportedVersion .message (message.requiredSignatures - 128)) := by
  obtain ⟨_, rfl⟩ := encode_eq_ok_iff.mp written
  exact decode_of_version many _

theorem decode_compiled (compiled : compile instructions feePayer recentBlockhash = .ok message)
    (written : message.encode = .ok bytes) :
    decode bytes =
      if message.requiredSignatures ≤ 127 then .ok message
      else .error (.unsupportedVersion .message (message.requiredSignatures - 128)) := by
  split
  · rename_i few
    exact decode_of_encode (compile_eq_ok_iff.mp compiled).wellFormed few written
  · rename_i many
    exact decode_of_many_signers (Nat.lt_of_not_le many) written

theorem decode_compiled_entangled :
    compile entangled (FixedBytes.filled .publicKey 1) (FixedBytes.filled .hash 9) =
      .ok entangledMessage ∧
    ∃ bytes, entangledMessage.encode = .ok bytes ∧ decode bytes = .ok entangledMessage := by
  have compiled := compile_eq_ok_iff.mpr entangled_compiledFrom
  have written : entangledMessage.encode =
      .ok (entangledMessage.write entangledMessage.shortestSpelling) :=
    encode_eq_ok_iff.mpr ⟨⟨rfl, rfl, .cons ⟨rfl, rfl⟩ (.cons ⟨rfl, rfl⟩ .nil)⟩, rfl⟩
  exact ⟨compiled, _, written, decode_compiled compiled written⟩

def crowdKey (index : Nat) : PublicKey := FixedBytes.filled .publicKey (UInt8.ofNat (index + 1))

def crowdKeys : List PublicKey := (List.range 129).map crowdKey

def crowd : List Instruction :=
  [⟨crowdKey 128, (List.range 127).map fun index => ⟨crowdKey (index + 1), true, false⟩, []⟩]

def crowdMessage : Message where
  header := ⟨128, 127, 1⟩
  accountKeys := crowdKeys
  recentBlockhash := FixedBytes.filled .hash 9
  instructions := [⟨128, (List.range 127).map fun index => UInt8.ofNat (index + 1), []⟩]

theorem crowdKeys_eq : crowdKeys =
    crowdKey 0 :: (List.range 127).map (fun index => crowdKey (index + 1)) ++ [crowdKey 128] := by
  have split : List.range 129 = 0 :: (List.range 127).map (· + 1) ++ [128] := by
    rw [List.range_succ, List.range_succ_eq_map]
  rw [crowdKeys, split]
  simp [Function.comp_def]

theorem nodup_crowdKeys : crowdKeys.Nodup := by
  apply List.nodup_range.map_on
  intro first firstBound second secondBound same
  simp only [crowdKey, FixedBytes.filled, FixedBytes.mk.injEq, FixedBytes.Kind.size,
    List.replicate_inj] at same
  have sameByte := congrArg UInt8.toNat (same.2.resolve_left (by decide))
  rw [List.mem_range] at firstBound secondBound
  simp only [UInt8.toNat_ofNat'] at sameByte
  omega

theorem publicKeys_mentions_crowd :
    (mentions crowd (crowdKey 0)).map AccountMeta.publicKey = crowdKeys := by
  rw [crowdKeys_eq]
  simp [crowd, mentions, Function.comp_def]

-- Merging 129 keys takes long to evaluate, so it is done by their being distinct.
theorem keyMetas_crowd : keyMetas crowd (crowdKey 0) = mentions crowd (crowdKey 0) := by
  have ordered : orderByClass (mentions crowd (crowdKey 0)) = mentions crowd (crowdKey 0) := by
    simp [crowd, mentions, orderByClass_eq_filters, List.filter_map, Function.comp_def]
  have distinct : ((mentions crowd (crowdKey 0)).map AccountMeta.publicKey).Nodup := by
    rw [publicKeys_mentions_crowd]
    exact nodup_crowdKeys
  rw [keyMetas, mergedMetas_of_nodup distinct, ordered]

theorem idxOf_crowdKey {index : Nat} (inside : index < 129) :
    crowdKeys.idxOf (crowdKey index) = index := by
  have bound : index < crowdKeys.length := by simpa [crowdKeys] using inside
  have placed := nodup_crowdKeys.idxOf_getElem index bound
  simpa [crowdKeys] using placed

theorem crowd_compiledFrom :
    crowdMessage.CompiledFrom crowd (crowdKey 0) (FixedBytes.filled .hash 9) where
  fits := by simp [crowdMessage, crowdKeys, maxAccountKeys]
  header := by
    rw [keyMetas_crowd]
    exact ⟨by decide +kernel, by decide +kernel, by decide +kernel⟩
  accountKeys := by
    rw [keyMetas_crowd, publicKeys_mentions_crowd]
    rfl
  recentBlockhash := rfl
  instructions := by
    have accounts : ((List.range 127).map fun index => UInt8.ofNat (index + 1)) =
        (List.range 127).map fun index => UInt8.ofNat (crowdKeys.idxOf (crowdKey (index + 1))) := by
      apply List.map_congr_left
      intro index member
      rw [idxOf_crowdKey (Nat.succ_lt_succ (Nat.lt_succ_of_lt (List.mem_range.mp member)))]
    simp only [crowdMessage, crowd, Instruction.placedIn, List.map_cons, List.map_nil, List.map_map,
      Function.comp_def, accounts, idxOf_crowdKey (show 128 < 129 by decide)]
    rfl

theorem crowd_spelledBy : crowdMessage.SpelledBy crowdMessage.shortestSpelling := by
  rw [spelledBy_shortest_iff]
  simp [crowdMessage, crowdKeys, CompactLength.maxLength]

/-- A compiled message of 128 signers is written as something that cannot be read. -/
theorem decode_compiled_crowd : ¬ ∀ (instructions : List Instruction) (feePayer : PublicKey)
    (recentBlockhash : Hash) (message : Message) (bytes : Bytes),
    compile instructions feePayer recentBlockhash = .ok message → message.encode = .ok bytes →
      decode bytes = .ok message := by
  intro readBack
  have compiled := compile_eq_ok_iff.mpr crowd_compiledFrom
  have written := encode_eq_ok_iff.mpr ⟨crowd_spelledBy, rfl⟩
  have refused := decode_of_many_signers (by decide) written
  rw [readBack _ _ _ _ _ compiled written] at refused
  cases refused

end LedgerWire.Message
