import LedgerWire.Proofs.Decompile

/-!
What the check of a message's structure finds. It passes the messages whose header, keys and indices
fit together, and of any other it names the first thing that does not. In a message that passes,
every index leads to a key, and the header cuts the keys into its four blocks.
-/

namespace LedgerWire.Message

variable {message : Message} {failure : WireError} {keys : List PublicKey} {key : PublicKey}
variable {start index : Nat}

def Repeats (keys : List PublicKey) (index : Nat) (key : PublicKey) : Prop :=
  keys[index]? = some key ∧ key ∈ keys.take index

structure FirstRepeat (keys : List PublicKey) (start index : Nat) (key : PublicKey) : Prop where
  reached : start ≤ index
  repeated : Repeats keys index key
  least : ∀ earlier, start ≤ earlier → earlier < index → ∀ other, ¬ Repeats keys earlier other

def indices (instructions : List CompiledInstruction) : List UInt8 :=
  instructions.flatMap fun instruction => instruction.programIndex :: instruction.accounts

structure HeaderFits (message : Message) : Prop where
  readonlySigned : message.header.readonlySigned.toNat ≤ message.requiredSignatures
  covered : message.requiredSignatures + message.header.readonlyUnsigned.toNat ≤
    message.accountKeys.length

/-- The faults of a message in the order in which they are looked for, each where there is none of
those before it. -/
inductive Faulty (message : Message) : WireError → Prop where
  | readonlySigned : message.requiredSignatures < message.header.readonlySigned.toNat →
      Faulty message (.invalidHeader
        (.readonlySigned message.header.readonlySigned.toNat message.requiredSignatures))
  | tooFewKeys : message.header.readonlySigned.toNat ≤ message.requiredSignatures →
      message.accountKeys.length <
        message.requiredSignatures + message.header.readonlyUnsigned.toNat →
      Faulty message (.invalidHeader (.tooFewKeys
        (message.requiredSignatures + message.header.readonlyUnsigned.toNat)
        message.accountKeys.length))
  | duplicateAccount {index : Nat} {key : PublicKey} : message.HeaderFits →
      FirstRepeat message.accountKeys 0 index key → Faulty message (.duplicateAccount index key)
  | indexOutOfRange {before after : List UInt8} {index : UInt8} : message.HeaderFits →
      message.accountKeys.Nodup → indices message.instructions = before ++ index :: after →
      (∀ earlier ∈ before, earlier.toNat < message.accountKeys.length) →
      message.accountKeys.length ≤ index.toNat →
      Faulty message (.indexOutOfRange index.toNat message.accountKeys.length)

theorem repeats_append_length_iff {before rest : List PublicKey} {first : PublicKey} :
    Repeats (before ++ first :: rest) before.length key ↔ key = first ∧ first ∈ before := by
  rw [Repeats, List.getElem?_append_right (Nat.le_refl _), Nat.sub_self, List.getElem?_cons_zero,
    Option.some.injEq, List.take_left]
  constructor
  · rintro ⟨rfl, member⟩
    exact ⟨rfl, member⟩
  · rintro ⟨rfl, member⟩
    exact ⟨rfl, member⟩

theorem firstRepeat_iff_of_repeats {first : PublicKey} (repeated : Repeats keys start first) :
    FirstRepeat keys start index key ↔ start = index ∧ first = key := by
  constructor
  · rintro ⟨reached, repeatedThere, least⟩
    have here : start = index := by
      by_contra later
      exact least start (Nat.le_refl _) (by omega) first repeated
    subst here
    exact ⟨rfl, Option.some.inj (repeated.1.symm.trans repeatedThere.1)⟩
  · rintro ⟨rfl, rfl⟩
    exact ⟨Nat.le_refl _, repeated, fun earlier reached below => by omega⟩

theorem firstRepeat_succ_iff (fresh : ∀ other, ¬ Repeats keys start other) :
    FirstRepeat keys (start + 1) index key ↔ FirstRepeat keys start index key := by
  constructor
  · rintro ⟨reached, repeated, least⟩
    refine ⟨by omega, repeated, fun earlier above below => ?_⟩
    by_cases here : earlier = start
    · rwa [here]
    · exact least earlier (by omega) below
  · rintro ⟨reached, repeated, least⟩
    have later : index ≠ start := by
      rintro rfl
      exact fresh key repeated
    exact ⟨by omega, repeated, fun earlier above => least earlier (by omega)⟩

theorem firstRepeat?_append_eq_some_iff {seen : Std.HashSet PublicKey} {before : List PublicKey}
    (known : ∀ key, key ∈ seen ↔ key ∈ before) :
    firstRepeat? seen before.length keys = some (index, key) ↔
      FirstRepeat (before ++ keys) before.length index key := by
  -- The search goes on with what it has seen, so the keys before it grow along the list.
  induction keys generalizing seen before with
  | nil =>
      refine iff_of_false (by simp [firstRepeat?]) ?_
      rintro ⟨reached, ⟨held, _⟩, _⟩
      rw [List.append_nil, List.getElem?_eq_none reached] at held
      cases held
  | cons first rest ih =>
      rw [firstRepeat?]
      by_cases again : seen.contains first
      · have repeated : Repeats (before ++ first :: rest) before.length first :=
          repeats_append_length_iff.mpr ⟨rfl, (known first).mp again⟩
        rw [if_pos again, firstRepeat_iff_of_repeats repeated, Option.some.injEq, Prod.mk.injEq]
      · have fresh (other : PublicKey) : ¬ Repeats (before ++ first :: rest) before.length other :=
          fun repeated => again ((known first).mpr (repeats_append_length_iff.mp repeated).2)
        have knownNext (key : PublicKey) : key ∈ seen.insert first ↔ key ∈ before ++ [first] := by
          rw [Std.HashSet.mem_insert, known, List.mem_append, List.mem_singleton, beq_iff_eq,
            eq_comm, or_comm]
        have next := ih knownNext
        rw [List.length_append, List.length_singleton, List.append_assoc,
          List.singleton_append] at next
        rw [if_neg again, next, firstRepeat_succ_iff fresh]

theorem firstRepeat?_eq_some_iff :
    firstRepeat? ∅ 0 keys = some (index, key) ↔ FirstRepeat keys 0 index key :=
  have known (key : PublicKey) : key ∈ (∅ : Std.HashSet PublicKey) ↔ key ∈ [] := by
    simp
  firstRepeat?_append_eq_some_iff known

theorem firstOutside?_eq_some_iff {keyCount : Nat} {instructions : List CompiledInstruction}
    {index : UInt8} : firstOutside? keyCount instructions = some index ↔
      ∃ before after, indices instructions = before ++ index :: after ∧
        (∀ earlier ∈ before, earlier.toNat < keyCount) ∧ keyCount ≤ index.toNat := by
  rw [firstOutside?, ← List.find?_flatMap, List.find?_eq_some_iff_append, ← indices]
  simp only [decide_eq_true_eq, Bool.not_eq_true', decide_eq_false_iff_not, Nat.not_le]
  constructor
  · rintro ⟨outside, before, after, split, inside⟩
    exact ⟨before, after, split, inside, outside⟩
  · rintro ⟨before, after, split, inside, outside⟩
    exact ⟨outside, before, after, split, inside⟩

theorem faulty_of_check (failed : message.check = .error failure) : message.Faulty failure := by
  rw [check_eq] at failed
  split at failed
  · rename_i excess
    cases failed
    exact .readonlySigned excess
  · rename_i signers
    split at failed
    · rename_i short
      cases failed
      exact .tooFewKeys (Nat.not_lt.mp signers) short
    · rename_i covered
      have fits : message.HeaderFits := ⟨Nat.not_lt.mp signers, Nat.not_lt.mp covered⟩
      cases repeated : firstRepeat? ∅ 0 message.accountKeys with
      | some found =>
          rw [repeated] at failed
          cases failed
          exact .duplicateAccount fits (firstRepeat?_eq_some_iff.mp repeated)
      | none =>
          have distinct := firstRepeat?_empty_eq_none_iff.mp repeated
          cases outside : firstOutside? message.accountKeys.length message.instructions with
          | some index =>
              obtain ⟨before, after, split, inside, beyond⟩ := firstOutside?_eq_some_iff.mp outside
              rw [repeated, outside] at failed
              cases failed
              exact .indexOutOfRange fits distinct split inside beyond
          | none =>
              rw [repeated, outside] at failed
              cases failed

theorem not_lt_readonlySigned
    (signers : message.header.readonlySigned.toNat ≤ message.requiredSignatures) :
    ¬ message.header.requiredSignatures < message.header.readonlySigned :=
  Nat.not_lt.mpr signers

theorem check_of_faulty (faulty : message.Faulty failure) : message.check = .error failure := by
  cases faulty with
  | readonlySigned excess =>
      have excess : message.header.requiredSignatures < message.header.readonlySigned := excess
      rw [check_eq, if_pos excess]
  | tooFewKeys signers short =>
      rw [check_eq, if_neg (not_lt_readonlySigned signers), if_pos short]
  | duplicateAccount fits repeated =>
      rw [check_eq, if_neg (not_lt_readonlySigned fits.readonlySigned),
        if_neg (Nat.not_lt.mpr fits.covered), firstRepeat?_eq_some_iff.mpr repeated]
  | indexOutOfRange fits distinct split inside beyond =>
      rw [check_eq, if_neg (not_lt_readonlySigned fits.readonlySigned),
        if_neg (Nat.not_lt.mpr fits.covered), firstRepeat?_empty_eq_none_iff.mpr distinct,
        firstOutside?_eq_some_iff.mpr ⟨_, _, split, inside, beyond⟩]

theorem privileges_by_index (message : Message) :
    (List.range message.accountKeys.length).map
        (fun index => ⟨message.isSigner index, message.isWritable index⟩) =
      message.accountMetas.map AccountMeta.privileges := by
  apply List.ext_getElem?
  intro index
  rw [List.getElem?_map, List.getElem?_map, getElem?_accountMetas]
  by_cases inside : index < message.accountKeys.length
  · rw [List.getElem?_range inside, List.getElem?_eq_getElem inside]
    rfl
  · have beyond := Nat.not_lt.mp inside
    rw [List.getElem?_eq_none (by rwa [List.length_range]), List.getElem?_eq_none beyond]
    rfl

/-- The check passes a message exactly if its structure is right, and otherwise names the first of
its faults. A message that passes can be read back as instructions, and its keys stand in four
blocks of the sizes that the header counts. -/
theorem check_outcome (message : Message) :
    (message.check = .ok () ↔
      message.header.readonlySigned.toNat ≤ message.requiredSignatures ∧
      message.requiredSignatures + message.header.readonlyUnsigned.toNat ≤
        message.accountKeys.length ∧
      message.accountKeys.Nodup ∧
      ∀ index ∈ indices message.instructions, index.toNat < message.accountKeys.length) ∧
    (∀ failure, message.check = .error failure ↔ message.Faulty failure) ∧
    (message.check = .ok () →
      (∃ found, message.decompile = .ok found) ∧
      (List.range message.accountKeys.length).map
          (fun index => ⟨message.isSigner index, message.isWritable index⟩) =
        privilegesByPlace message.header message.accountKeys.length) := by
  refine ⟨?_, fun failure => ⟨faulty_of_check, check_of_faulty⟩, fun checked => ?_⟩
  · rw [check_eq_ok_iff, wellFormed_iff]
    simp only [indices, List.forall_mem_flatMap]
  · have formed := (check_eq_ok_iff message).mp checked
    refine ⟨formed.exists_decompile, ?_⟩
    rw [privileges_by_index, privileges_accountMetas formed.readonlySigned formed.covered]

def repeatingMessage : Message :=
  let key := FixedBytes.filled .publicKey
  { header := ⟨2, 1, 1⟩
    accountKeys := [key 1, key 2, key 1, key 3, key 2]
    recentBlockhash := FixedBytes.filled .hash 9
    instructions := [⟨3, [0, 5], []⟩] }

theorem repeatingMessage_firstRepeat :
    FirstRepeat repeatingMessage.accountKeys 0 2 (FixedBytes.filled .publicKey 1) where
  reached := Nat.zero_le _
  repeated := ⟨rfl, by decide⟩
  least := by
    rintro earlier _ below other ⟨held, member⟩
    match earlier with
    | 0 => cases member
    | 1 =>
        cases held
        exact absurd member (by decide)

theorem check_outcome_entangled :
    entangledMessage.check = .ok () ∧ (∃ found, entangledMessage.decompile = .ok found) ∧
    (List.range 6).map
        (fun index => ⟨entangledMessage.isSigner index, entangledMessage.isWritable index⟩) =
      ([⟨true, true⟩, ⟨true, true⟩, ⟨true, false⟩, ⟨false, true⟩, ⟨false, true⟩, ⟨false, false⟩] :
        List Privileges) ∧
    repeatingMessage.check = .error (.duplicateAccount 2 (FixedBytes.filled .publicKey 1)) := by
  have checked : entangledMessage.check = .ok () :=
    (check_outcome entangledMessage).1.mpr (by decide +kernel)
  obtain ⟨read, blocks⟩ := (check_outcome entangledMessage).2.2 checked
  have faulty : repeatingMessage.Faulty (.duplicateAccount 2 (FixedBytes.filled .publicKey 1)) :=
    .duplicateAccount ⟨by decide, by decide⟩ repeatingMessage_firstRepeat
  exact ⟨checked, read, blocks, ((check_outcome repeatingMessage).2.1 _).mpr faulty⟩

end LedgerWire.Message
