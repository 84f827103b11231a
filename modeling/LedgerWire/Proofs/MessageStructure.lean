import LedgerWire.Message.Basic
import Mathlib.Data.List.Nodup
import Std.Data.HashSet.Lemmas

/-!
The structure of a message that passes its check: a header that its keys can cover, keys that stand
once each, and instructions that name keys of the table.
-/

namespace LedgerWire.Message

structure WellFormed (message : Message) : Prop where
  readonlySigned : message.header.readonlySigned.toNat ≤ message.requiredSignatures
  covered : message.requiredSignatures + message.header.readonlyUnsigned.toNat ≤
    message.accountKeys.length
  distinct : message.accountKeys.Nodup
  inside : ∀ instruction ∈ message.instructions,
    ∀ index ∈ instruction.programIndex :: instruction.accounts,
      index.toNat < message.accountKeys.length

theorem wellFormed_iff (message : Message) : message.WellFormed ↔
    message.header.readonlySigned.toNat ≤ message.requiredSignatures ∧
    message.requiredSignatures + message.header.readonlyUnsigned.toNat ≤
      message.accountKeys.length ∧
    message.accountKeys.Nodup ∧
    ∀ instruction ∈ message.instructions,
      ∀ index ∈ instruction.programIndex :: instruction.accounts,
        index.toNat < message.accountKeys.length :=
  ⟨fun formed => ⟨formed.1, formed.2, formed.3, formed.4⟩,
    fun parts => ⟨parts.1, parts.2.1, parts.2.2.1, parts.2.2.2⟩⟩

instance (message : Message) : Decidable message.WellFormed :=
  letI (instruction : CompiledInstruction) : Decidable
      (∀ index ∈ instruction.programIndex :: instruction.accounts,
        index.toNat < message.accountKeys.length) := List.decidableBAll _ _
  decidable_of_iff _ (wellFormed_iff message).symm

theorem getElem?_signerKeys_iff {message : Message} {slot : Nat} {key : PublicKey} :
    message.signerKeys[slot]? = some key ↔
      slot < message.requiredSignatures ∧ message.accountKeys[slot]? = some key := by
  rw [signerKeys, List.getElem?_take]
  split
  · rename_i inside
    exact (and_iff_right inside).symm
  · rename_i outside
    exact iff_of_false (by simp) fun both => outside both.1

theorem WellFormed.nodup_signerKeys {message : Message} (formed : message.WellFormed) :
    message.signerKeys.Nodup :=
  (List.take_sublist _ _).nodup formed.distinct

theorem WellFormed.length_signerKeys {message : Message} (formed : message.WellFormed) :
    message.signerKeys.length = message.requiredSignatures := by
  have covered := formed.covered
  rw [signerKeys, List.length_take]
  omega

theorem firstRepeat?_eq_none_iff {seen : Std.HashSet PublicKey} {index : Nat}
    {keys : List PublicKey} :
    firstRepeat? seen index keys = none ↔ keys.Nodup ∧ ∀ key ∈ keys, key ∉ seen := by
  induction keys generalizing seen index with
  | nil => simp [firstRepeat?]
  | cons key rest ih =>
      rw [firstRepeat?]
      by_cases known : seen.contains key
      · simp only [known, if_true, reduceCtorEq, false_iff, not_and]
        intro _ fresh
        exact fresh key (by simp) known
      · simp only [known, Bool.false_eq_true, if_false, ih, List.nodup_cons, List.forall_mem_cons,
          Std.HashSet.mem_insert, beq_iff_eq, not_or]
        constructor
        · rintro ⟨distinct, fresh⟩
          exact ⟨⟨fun member => (fresh key member).1 rfl, distinct⟩, known,
            fun other member => (fresh other member).2⟩
        · rintro ⟨⟨absent, distinct⟩, _, fresh⟩
          refine ⟨distinct, fun other member => ⟨?_, fresh other member⟩⟩
          rintro rfl
          exact absent member

theorem firstRepeat?_empty_eq_none_iff {keys : List PublicKey} :
    firstRepeat? ∅ 0 keys = none ↔ keys.Nodup := by
  simp [firstRepeat?_eq_none_iff]

theorem firstOutside?_eq_none_iff {keyCount : Nat} {instructions : List CompiledInstruction} :
    firstOutside? keyCount instructions = none ↔ ∀ instruction ∈ instructions,
      ∀ index ∈ instruction.programIndex :: instruction.accounts, index.toNat < keyCount := by
  simp [firstOutside?]

theorem check_eq (message : Message) : message.check =
    if message.header.requiredSignatures < message.header.readonlySigned then
      .error (.invalidHeader
        (.readonlySigned message.header.readonlySigned.toNat message.requiredSignatures))
    else if message.accountKeys.length <
        message.requiredSignatures + message.header.readonlyUnsigned.toNat then
      .error (.invalidHeader (.tooFewKeys
        (message.requiredSignatures + message.header.readonlyUnsigned.toNat)
        message.accountKeys.length))
    else
      match firstRepeat? ∅ 0 message.accountKeys with
      | some (index, key) => .error (.duplicateAccount index key)
      | none =>
          match firstOutside? message.accountKeys.length message.instructions with
          | some index => .error (.indexOutOfRange index.toNat message.accountKeys.length)
          | none => .ok () := by
  unfold check
  dsimp only [requiredSignatures]
  by_cases excess : message.header.requiredSignatures < message.header.readonlySigned
  · simp only [excess, if_true]
    rfl
  · simp only [excess, if_false]
    by_cases short : message.accountKeys.length <
        message.header.requiredSignatures.toNat + message.header.readonlyUnsigned.toNat
    · simp only [short, if_true]
      rfl
    · simp only [short, if_false]
      cases firstRepeat? ∅ 0 message.accountKeys with
      | some found => rfl
      | none => cases firstOutside? message.accountKeys.length message.instructions <;> rfl

theorem check_eq_ok_iff (message : Message) : message.check = .ok () ↔ message.WellFormed := by
  rw [check_eq, wellFormed_iff]
  split
  · rename_i excess
    exact iff_of_false (by simp) fun parts => Nat.not_lt.mpr parts.1 excess
  · rename_i readonlySigned
    split
    · rename_i excess
      exact iff_of_false (by simp) fun parts => Nat.not_lt.mpr parts.2.1 excess
    · rename_i covered
      have inside : firstOutside? message.accountKeys.length message.instructions = none ↔
          ∀ instruction ∈ message.instructions,
            ∀ index ∈ instruction.programIndex :: instruction.accounts,
              index.toNat < message.accountKeys.length := firstOutside?_eq_none_iff
      rw [← firstRepeat?_empty_eq_none_iff, ← inside]
      cases firstRepeat? ∅ 0 message.accountKeys with
      | some found => simp
      | none =>
          cases firstOutside? message.accountKeys.length message.instructions with
          | some index => simp
          | none =>
              simp only [and_true, true_iff]
              exact ⟨Nat.le_of_not_lt readonlySigned, Nat.le_of_not_lt covered⟩

end LedgerWire.Message
