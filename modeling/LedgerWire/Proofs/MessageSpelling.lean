import LedgerWire.Message.Wire
import LedgerWire.Proofs.Decoder
import LedgerWire.Proofs.MessageStructure
import LedgerWire.Proofs.Outcome

/-!
Messages on the wire, with the spelling of each length prefix apart from what the message holds. A
spelling and a message together make the bytes; the reader takes any spelling of a well-formed
message, and the writer gives each length its shortest.
-/

namespace LedgerWire

open CompactLength (Spells IsShortest shortest)

@[ext] structure InstructionSpelling where
  accountCount : Bytes
  dataLength : Bytes

@[ext] structure MessageSpelling where
  keyCount : Bytes
  instructionCount : Bytes
  instructions : List InstructionSpelling

namespace CompiledInstruction

structure SpelledBy (instruction : CompiledInstruction) (spelling : InstructionSpelling) :
    Prop where
  accountCount : Spells spelling.accountCount instruction.accounts.length
  dataLength : Spells spelling.dataLength instruction.data.length

structure ShortestBy (instruction : CompiledInstruction) (spelling : InstructionSpelling) :
    Prop where
  accountCount : IsShortest spelling.accountCount instruction.accounts.length
  dataLength : IsShortest spelling.dataLength instruction.data.length

def write (instruction : CompiledInstruction) (spelling : InstructionSpelling) : Bytes :=
  instruction.programIndex :: (spelling.accountCount ++ instruction.accounts ++
    spelling.dataLength ++ instruction.data)

def shortestSpelling (instruction : CompiledInstruction) : InstructionSpelling :=
  ⟨shortest instruction.accounts.length, shortest instruction.data.length⟩

variable {instruction : CompiledInstruction} {spelling : InstructionSpelling}

theorem encode_eq_ok_iff {bytes : Bytes} : instruction.encode = .ok bytes ↔
    instruction.SpelledBy instruction.shortestSpelling ∧
      bytes = instruction.write instruction.shortestSpelling := by
  simp only [encode, bind_eq_ok_iff, CompactLength.encode_eq_ok_iff]
  constructor
  · rintro ⟨accountCount, ⟨fewAccounts, rfl⟩, dataLength, ⟨littleData, rfl⟩, made⟩
    cases made
    exact ⟨⟨CompactLength.spells_shortest fewAccounts, CompactLength.spells_shortest littleData⟩, rfl⟩
  · rintro ⟨spelled, rfl⟩
    exact ⟨_, ⟨spelled.accountCount.le_maxLength, rfl⟩, _, ⟨spelled.dataLength.le_maxLength, rfl⟩, rfl⟩

theorem decoder_eq : decoder = (Decoder.byte >>= fun programIndex =>
    Decoder.compactLength >>= fun accountCount => Decoder.bytes accountCount >>= fun accounts =>
    Decoder.compactLength >>= fun dataLength => Decoder.bytes dataLength >>= fun data =>
    pure ⟨programIndex, accounts, data⟩) := rfl

instance local_decoder : decoder.Local := by
  rw [decoder_eq]
  infer_instance

theorem reads_decoder_iff {taken : Bytes} : decoder.Reads taken instruction ↔
    ∃ spelling, instruction.SpelledBy spelling ∧ taken = instruction.write spelling := by
  simp only [decoder_eq, Decoder.reads_bind_iff, Decoder.reads_byte_iff, Decoder.reads_bytes_iff,
    Decoder.reads_compactLength_iff, Decoder.reads_pure_iff]
  constructor
  · rintro ⟨_, _, programIndex, rfl, rfl, accountCount, _, _, rfl, spelledCount, _, _, accounts, rfl,
      ⟨rfl, rfl⟩, dataLength, _, _, rfl, spelledLength, _, _, data, rfl, ⟨rfl, rfl⟩, rfl, rfl⟩
    exact ⟨⟨accountCount, dataLength⟩, ⟨spelledCount, spelledLength⟩, by simp [write]⟩
  · rintro ⟨spelling, spelled, rfl⟩
    exact ⟨[instruction.programIndex], _, instruction.programIndex, rfl, rfl, spelling.accountCount,
      instruction.accounts ++ (spelling.dataLength ++ instruction.data), _, by simp,
      spelled.accountCount, instruction.accounts, _, instruction.accounts, rfl, ⟨rfl, rfl⟩,
      spelling.dataLength, instruction.data, _, rfl, spelled.dataLength, instruction.data, [],
      instruction.data, by simp, ⟨rfl, rfl⟩, rfl, rfl⟩

theorem length_write : (instruction.write spelling).length =
    1 + spelling.accountCount.length + instruction.accounts.length +
      spelling.dataLength.length + instruction.data.length := by
  simp only [write, List.length_cons, List.length_append]
  omega

theorem length_write_shortest :
    (instruction.write instruction.shortestSpelling).length = instruction.encodedSize := by
  simp only [length_write, shortestSpelling, CompactLength.length_shortest, encodedSize]

theorem SpelledBy.encodedSize_le (spelled : instruction.SpelledBy spelling) :
    instruction.encodedSize ≤ (instruction.write spelling).length := by
  have accountCount := spelled.accountCount.encodedLength_le
  have dataLength := spelled.dataLength.encodedLength_le
  simp only [length_write, encodedSize]
  omega

theorem SpelledBy.eq_shortestSpelling (spelled : instruction.SpelledBy spelling)
    (size : (instruction.write spelling).length = instruction.encodedSize) :
    spelling = instruction.shortestSpelling := by
  have accountCount := spelled.accountCount.encodedLength_le
  have dataLength := spelled.dataLength.encodedLength_le
  simp only [length_write, encodedSize] at size
  have accountCountEq := spelled.accountCount.eq_shortest (by omega)
  have dataLengthEq := spelled.dataLength.eq_shortest (by omega)
  exact InstructionSpelling.ext accountCountEq dataLengthEq

theorem SpelledBy.shortestBy_iff (spelled : instruction.SpelledBy spelling) :
    instruction.ShortestBy spelling ↔ spelling = instruction.shortestSpelling := by
  constructor
  · rintro ⟨accountCount, dataLength⟩
    rw [CompactLength.isShortest_iff spelled.accountCount] at accountCount
    rw [CompactLength.isShortest_iff spelled.dataLength] at dataLength
    exact InstructionSpelling.ext accountCount dataLength
  · rintro rfl
    exact ⟨(CompactLength.isShortest_iff spelled.accountCount).mpr rfl,
      (CompactLength.isShortest_iff spelled.dataLength).mpr rfl⟩

theorem write_unique {other : CompiledInstruction} {otherSpelling : InstructionSpelling}
    {rest otherRest : Bytes} (spelled : instruction.SpelledBy spelling)
    (otherSpelled : other.SpelledBy otherSpelling)
    (same : instruction.write spelling ++ rest = other.write otherSpelling ++ otherRest) :
    instruction = other ∧ spelling = otherSpelling ∧ rest = otherRest := by
  obtain ⟨rfl, sameBytes, sameRest⟩ := (reads_decoder_iff.mpr ⟨_, spelled, rfl⟩).unique
    (reads_decoder_iff.mpr ⟨_, otherSpelled, rfl⟩) same
  simp only [write, List.cons.injEq, true_and, List.append_assoc] at sameBytes
  obtain ⟨_, sameCount, sameTail⟩ :=
    Decoder.spells_unique spelled.accountCount otherSpelled.accountCount sameBytes
  obtain ⟨_, sameLength, _⟩ := Decoder.spells_unique spelled.dataLength otherSpelled.dataLength
    (List.append_cancel_left sameTail)
  exact ⟨rfl, InstructionSpelling.ext sameCount sameLength, sameRest⟩

theorem spelledBy_shortest_iff : instruction.SpelledBy instruction.shortestSpelling ↔
    instruction.accounts.length ≤ CompactLength.maxLength ∧
      instruction.data.length ≤ CompactLength.maxLength := by
  rw [← CompactLength.spells_shortest_iff, ← CompactLength.spells_shortest_iff]
  exact ⟨fun spelled => ⟨spelled.1, spelled.2⟩, fun parts => ⟨parts.1, parts.2⟩⟩

theorem SpelledBy.toShortest (spelled : instruction.SpelledBy spelling) :
    instruction.SpelledBy instruction.shortestSpelling where
  accountCount := CompactLength.spells_shortest spelled.accountCount.le_maxLength
  dataLength := CompactLength.spells_shortest spelled.dataLength.le_maxLength

theorem forall₂_toShortest {instructions : List CompiledInstruction}
    {spellings : List InstructionSpelling}
    (spelled : List.Forall₂ SpelledBy instructions spellings) :
    List.Forall₂ SpelledBy instructions (instructions.map shortestSpelling) := by
  induction spelled with
  | nil => exact .nil
  | cons first _ ih => exact .cons first.toShortest ih

def writeAll (instructions : List CompiledInstruction) (spellings : List InstructionSpelling) :
    Bytes :=
  (List.zipWith write instructions spellings).flatten

theorem reads_times_decoder_iff {count : Nat} {taken : Bytes}
    {instructions : List CompiledInstruction} :
    (Decoder.times count decoder).Reads taken instructions ↔ instructions.length = count ∧
      ∃ spellings, List.Forall₂ SpelledBy instructions spellings ∧
        taken = writeAll instructions spellings := by
  rw [Decoder.reads_times_iff, and_congr_right_iff]
  rintro -
  constructor
  · rintro ⟨parts, read, rfl⟩
    induction read with
    | nil => exact ⟨[], .nil, rfl⟩
    | cons readFirst _ ih =>
        obtain ⟨spelling, spelled, rfl⟩ := reads_decoder_iff.mp readFirst
        obtain ⟨spellings, allSpelled, rest⟩ := ih
        exact ⟨spelling :: spellings, .cons spelled allSpelled, by simp [writeAll, rest]⟩
  · rintro ⟨spellings, spelled, rfl⟩
    refine ⟨List.zipWith write instructions spellings, ?_, rfl⟩
    induction spelled with
    | nil => exact .nil
    | cons first _ ih => exact .cons (reads_decoder_iff.mpr ⟨_, first, rfl⟩) ih

theorem mapM_encode_eq_ok_iff {instructions : List CompiledInstruction} {parts : List Bytes} :
    instructions.mapM encode = .ok parts ↔
      List.Forall₂ SpelledBy instructions (instructions.map shortestSpelling) ∧
        parts = List.zipWith write instructions (instructions.map shortestSpelling) := by
  rw [mapM_eq_ok_iff]
  simp only [encode_eq_ok_iff]
  induction instructions generalizing parts with
  | nil => simp
  | cons first rest ih =>
      rw [List.forall₂_cons_left_iff, List.map_cons, List.forall₂_cons, List.zipWith_cons_cons]
      simp only [ih]
      constructor
      · rintro ⟨_, _, ⟨spelled, rfl⟩, ⟨allSpelled, rfl⟩, rfl⟩
        exact ⟨⟨spelled, allSpelled⟩, rfl⟩
      · rintro ⟨⟨spelled, allSpelled⟩, rfl⟩
        exact ⟨_, _, ⟨spelled, rfl⟩, ⟨allSpelled, rfl⟩, rfl⟩

theorem length_writeAll_shortest (instructions : List CompiledInstruction) :
    (writeAll instructions (instructions.map shortestSpelling)).length =
      instructions.foldr (fun instruction total => instruction.encodedSize + total) 0 := by
  induction instructions with
  | nil => rfl
  | cons first rest ih =>
      simp only [writeAll, List.map_cons, List.zipWith_cons_cons, List.flatten_cons,
        List.length_append, length_write_shortest, List.foldr_cons] at ih ⊢
      rw [ih]

theorem totalSize_le_of_spelledBy {instructions : List CompiledInstruction}
    {spellings : List InstructionSpelling}
    (spelled : List.Forall₂ SpelledBy instructions spellings) :
    instructions.foldr (fun instruction total => instruction.encodedSize + total) 0 ≤
      (writeAll instructions spellings).length := by
  induction spelled with
  | nil => exact Nat.le_refl _
  | cons first _ ih =>
      have head := first.encodedSize_le
      simp only [writeAll, List.zipWith_cons_cons, List.flatten_cons, List.length_append,
        List.foldr_cons] at ih ⊢
      omega

theorem eq_map_shortestSpelling {instructions : List CompiledInstruction}
    {spellings : List InstructionSpelling}
    (spelled : List.Forall₂ SpelledBy instructions spellings)
    (size : (writeAll instructions spellings).length =
      instructions.foldr (fun instruction total => instruction.encodedSize + total) 0) :
    spellings = instructions.map shortestSpelling := by
  induction spelled with
  | nil => rfl
  | cons first rest ih =>
      have head := first.encodedSize_le
      have tail := totalSize_le_of_spelledBy rest
      simp only [writeAll, List.zipWith_cons_cons, List.flatten_cons, List.length_append,
        List.foldr_cons] at size tail ih
      rw [first.eq_shortestSpelling (by omega), ih (by omega), List.map_cons]

theorem forall₂_shortestBy_iff {instructions : List CompiledInstruction}
    {spellings : List InstructionSpelling}
    (spelled : List.Forall₂ SpelledBy instructions spellings) :
    List.Forall₂ ShortestBy instructions spellings ↔
      spellings = instructions.map shortestSpelling := by
  induction spelled with
  | nil => simp
  | cons first _ ih =>
      rw [List.forall₂_cons, first.shortestBy_iff, ih, List.map_cons, List.cons.injEq]

theorem writeAll_unique {instructions others : List CompiledInstruction}
    {spellings otherSpellings : List InstructionSpelling} {rest otherRest : Bytes}
    (spelled : List.Forall₂ SpelledBy instructions spellings)
    (otherSpelled : List.Forall₂ SpelledBy others otherSpellings)
    (sameCount : instructions.length = others.length)
    (same : writeAll instructions spellings ++ rest = writeAll others otherSpellings ++ otherRest) :
    instructions = others ∧ spellings = otherSpellings ∧ rest = otherRest := by
  induction spelled generalizing others otherSpellings with
  | nil =>
      cases otherSpelled with
      | nil => exact ⟨rfl, rfl, same⟩
      | cons _ _ => simp at sameCount
  | cons first _ ih =>
      cases otherSpelled with
      | nil => simp at sameCount
      | cons otherFirst otherSpelled =>
          simp only [writeAll, List.zipWith_cons_cons, List.flatten_cons,
            List.append_assoc] at same ih
          obtain ⟨sameFirst, sameSpelling, sameTail⟩ := write_unique first otherFirst same
          obtain ⟨sameOthers, sameSpellings, sameRest⟩ :=
            ih otherSpelled (by simpa using sameCount) sameTail
          exact ⟨by rw [sameFirst, sameOthers], by rw [sameSpelling, sameSpellings], sameRest⟩

end CompiledInstruction

namespace MessageHeader

theorem encode_injective : Function.Injective encode := by
  intro header other same
  simp only [encode, List.cons.injEq, and_true] at same
  exact MessageHeader.ext same.1 same.2.1 same.2.2

theorem decoder_eq : decoder = (Decoder.byte >>= fun requiredSignatures =>
    if 128 ≤ requiredSignatures then
      throw (.unsupportedVersion .message (requiredSignatures.toNat - 128))
    else Decoder.byte >>= fun readonlySigned => Decoder.byte >>= fun readonlyUnsigned =>
      pure ⟨requiredSignatures, readonlySigned, readonlyUnsigned⟩) := by
  funext cursor
  unfold decoder
  simp only [bind, EStateM.bind]
  split
  · split <;> rfl
  · rfl

instance local_decoder : decoder.Local := by
  rw [decoder_eq]
  infer_instance

theorem reads_decoder_iff {taken : Bytes} {header : MessageHeader} : decoder.Reads taken header ↔
    header.requiredSignatures.toNat < 128 ∧ taken = header.encode := by
  rw [decoder_eq, Decoder.reads_bind_iff]
  simp only [Decoder.reads_byte_iff]
  constructor
  · rintro ⟨_, back, requiredSignatures, rfl, rfl, read⟩
    split at read
    · exact absurd read Decoder.not_reads_throw
    · rename_i small
      simp only [Decoder.reads_bind_iff, Decoder.reads_byte_iff, Decoder.reads_pure_iff] at read
      obtain ⟨_, _, readonlySigned, rfl, rfl, _, _, readonlyUnsigned, rfl, rfl, rfl, rfl⟩ := read
      exact ⟨Nat.lt_of_not_le small, rfl⟩
  · rintro ⟨small, rfl⟩
    refine ⟨[header.requiredSignatures], _, header.requiredSignatures, rfl, rfl, ?_⟩
    rw [if_neg (show ¬ 128 ≤ header.requiredSignatures from Nat.not_le.mpr small)]
    simp only [Decoder.reads_bind_iff, Decoder.reads_byte_iff, Decoder.reads_pure_iff]
    exact ⟨[header.readonlySigned], [header.readonlyUnsigned], header.readonlySigned, rfl, rfl,
      [header.readonlyUnsigned], [], header.readonlyUnsigned, rfl, rfl, rfl, rfl⟩

theorem refuses_version {first : UInt8} (versioned : 128 ≤ first.toNat) :
    decoder.Refuses [first] (.unsupportedVersion .message (first.toNat - 128)) := by
  have read : Decoder.byte.Reads [first] first := Decoder.reads_byte_iff.mpr rfl
  rw [decoder_eq]
  change Decoder.Refuses _ ([first] ++ []) _
  apply read.bind_refuses
  rw [if_pos (show 128 ≤ first from versioned)]
  exact Decoder.refuses_throw _

end MessageHeader

namespace Message

structure SpelledBy (message : Message) (spelling : MessageSpelling) : Prop where
  keyCount : Spells spelling.keyCount message.accountKeys.length
  instructionCount : Spells spelling.instructionCount message.instructions.length
  instructions : List.Forall₂ CompiledInstruction.SpelledBy message.instructions
    spelling.instructions

structure ShortestBy (message : Message) (spelling : MessageSpelling) : Prop where
  keyCount : IsShortest spelling.keyCount message.accountKeys.length
  instructionCount : IsShortest spelling.instructionCount message.instructions.length
  instructions : List.Forall₂ CompiledInstruction.ShortestBy message.instructions
    spelling.instructions

def write (message : Message) (spelling : MessageSpelling) : Bytes :=
  message.header.encode ++ (spelling.keyCount ++ (message.accountKeys.flatMap FixedBytes.bytes ++
    (message.recentBlockhash.bytes ++ (spelling.instructionCount ++
      CompiledInstruction.writeAll message.instructions spelling.instructions))))

structure WrittenAs (message : Message) (spelling : MessageSpelling) (bytes : Bytes) : Prop where
  spelled : message.SpelledBy spelling
  bytes_eq : bytes = message.write spelling

def shortestSpelling (message : Message) : MessageSpelling where
  keyCount := shortest message.accountKeys.length
  instructionCount := shortest message.instructions.length
  instructions := message.instructions.map CompiledInstruction.shortestSpelling

variable {message : Message} {spelling : MessageSpelling}

theorem encode_eq_ok_iff {bytes : Bytes} :
    message.encode = .ok bytes ↔ message.WrittenAs message.shortestSpelling bytes := by
  simp only [encode, bind_eq_ok_iff, CompactLength.encode_eq_ok_iff,
    CompiledInstruction.mapM_encode_eq_ok_iff]
  constructor
  · rintro ⟨keyCount, ⟨fewKeys, rfl⟩, instructionCount, ⟨fewInstructions, rfl⟩, parts,
      ⟨spelled, rfl⟩, made⟩
    cases made
    exact ⟨⟨CompactLength.spells_shortest fewKeys, CompactLength.spells_shortest fewInstructions,
      spelled⟩, rfl⟩
  · rintro ⟨spelled, rfl⟩
    exact ⟨_, ⟨spelled.keyCount.le_maxLength, rfl⟩, _, ⟨spelled.instructionCount.le_maxLength, rfl⟩,
      _, ⟨spelled.instructions, rfl⟩, rfl⟩

theorem length_write : (message.write spelling).length =
    3 + spelling.keyCount.length + message.accountKeys.length * 32 + 32 +
      spelling.instructionCount.length +
      (CompiledInstruction.writeAll message.instructions spelling.instructions).length := by
  simp only [write, MessageHeader.encode, List.length_append, List.length_cons, List.length_nil,
    Decoder.length_flatMap_bytes, message.recentBlockhash.length_eq, FixedBytes.Kind.size]
  omega

theorem length_write_shortest :
    (message.write message.shortestSpelling).length = message.encodedSize := by
  simp only [length_write, shortestSpelling, CompactLength.length_shortest,
    CompiledInstruction.length_writeAll_shortest, encodedSize]

theorem SpelledBy.encodedSize_le (spelled : message.SpelledBy spelling) :
    message.encodedSize ≤ (message.write spelling).length := by
  have keyCount := spelled.keyCount.encodedLength_le
  have instructionCount := spelled.instructionCount.encodedLength_le
  have instructions := CompiledInstruction.totalSize_le_of_spelledBy spelled.instructions
  simp only [length_write, encodedSize]
  omega

theorem SpelledBy.eq_shortestSpelling (spelled : message.SpelledBy spelling)
    (size : (message.write spelling).length = message.encodedSize) :
    spelling = message.shortestSpelling := by
  have keyCount := spelled.keyCount.encodedLength_le
  have instructionCount := spelled.instructionCount.encodedLength_le
  have instructions := CompiledInstruction.totalSize_le_of_spelledBy spelled.instructions
  simp only [length_write, encodedSize] at size
  have keyCountEq := spelled.keyCount.eq_shortest (by omega)
  have instructionCountEq := spelled.instructionCount.eq_shortest (by omega)
  have instructionsEq :=
    CompiledInstruction.eq_map_shortestSpelling spelled.instructions (by omega)
  exact MessageSpelling.ext keyCountEq instructionCountEq instructionsEq

theorem SpelledBy.shortestBy_iff (spelled : message.SpelledBy spelling) :
    message.ShortestBy spelling ↔ spelling = message.shortestSpelling := by
  constructor
  · rintro ⟨keyCount, instructionCount, instructions⟩
    rw [CompactLength.isShortest_iff spelled.keyCount] at keyCount
    rw [CompactLength.isShortest_iff spelled.instructionCount] at instructionCount
    rw [CompiledInstruction.forall₂_shortestBy_iff spelled.instructions] at instructions
    exact MessageSpelling.ext keyCount instructionCount instructions
  · rintro rfl
    exact ⟨(CompactLength.isShortest_iff spelled.keyCount).mpr rfl,
      (CompactLength.isShortest_iff spelled.instructionCount).mpr rfl,
      (CompiledInstruction.forall₂_shortestBy_iff spelled.instructions).mpr rfl⟩

/-- Written bytes tell the message and its spelling, and where the message ends. -/
theorem write_unique {other : Message} {otherSpelling : MessageSpelling} {rest otherRest : Bytes}
    (spelled : message.SpelledBy spelling) (otherSpelled : other.SpelledBy otherSpelling)
    (same : message.write spelling ++ rest = other.write otherSpelling ++ otherRest) :
    message = other ∧ spelling = otherSpelling ∧ rest = otherRest := by
  simp only [write, List.append_assoc] at same
  obtain ⟨sameHeader, same⟩ := List.append_inj same rfl
  obtain ⟨sameKeyCount, sameKeySpelling, same⟩ :=
    Decoder.spells_unique spelled.keyCount otherSpelled.keyCount same
  obtain ⟨sameKeys, _, same⟩ := (Decoder.reads_times_fixed_iff.mpr ⟨rfl, rfl⟩).unique
    (Decoder.reads_times_fixed_iff.mpr ⟨sameKeyCount.symm, rfl⟩) same
  obtain ⟨sameBlockhash, same⟩ := List.append_inj same
    (message.recentBlockhash.length_eq.trans other.recentBlockhash.length_eq.symm)
  obtain ⟨sameInstructionCount, sameInstructionSpelling, same⟩ :=
    Decoder.spells_unique spelled.instructionCount otherSpelled.instructionCount same
  obtain ⟨sameInstructions, sameSpellings, sameRest⟩ := CompiledInstruction.writeAll_unique
    spelled.instructions otherSpelled.instructions sameInstructionCount same
  refine ⟨?_, ?_, sameRest⟩
  · exact Message.ext (MessageHeader.encode_injective sameHeader) sameKeys
      (FixedBytes.ext sameBlockhash) sameInstructions
  · exact MessageSpelling.ext sameKeySpelling sameInstructionSpelling sameSpellings

theorem WrittenAs.unique {other : MessageSpelling} {bytes : Bytes}
    (written : message.WrittenAs spelling bytes) (otherWritten : message.WrittenAs other bytes) :
    spelling = other := by
  have same : message.write spelling ++ [] = message.write other ++ [] := by
    rw [← written.bytes_eq, ← otherWritten.bytes_eq]
  exact (write_unique written.spelled otherWritten.spelled same).2.1

theorem spelledBy_shortest_iff : message.SpelledBy message.shortestSpelling ↔
    message.accountKeys.length ≤ CompactLength.maxLength ∧
    message.instructions.length ≤ CompactLength.maxLength ∧
    ∀ instruction ∈ message.instructions,
      instruction.accounts.length ≤ CompactLength.maxLength ∧
        instruction.data.length ≤ CompactLength.maxLength := by
  have spelledEach : List.Forall₂ CompiledInstruction.SpelledBy message.instructions
      (message.instructions.map CompiledInstruction.shortestSpelling) ↔
        ∀ instruction ∈ message.instructions,
          instruction.accounts.length ≤ CompactLength.maxLength ∧
            instruction.data.length ≤ CompactLength.maxLength := by
    rw [List.forall₂_map_right_iff, List.forall₂_same]
    simp only [CompiledInstruction.spelledBy_shortest_iff]
  rw [← spelledEach, ← CompactLength.spells_shortest_iff, ← CompactLength.spells_shortest_iff]
  exact ⟨fun spelled => ⟨spelled.1, spelled.2, spelled.3⟩,
    fun parts => ⟨parts.1, parts.2.1, parts.2.2⟩⟩

theorem SpelledBy.toShortest (spelled : message.SpelledBy spelling) :
    message.SpelledBy message.shortestSpelling where
  keyCount := CompactLength.spells_shortest spelled.keyCount.le_maxLength
  instructionCount := CompactLength.spells_shortest spelled.instructionCount.le_maxLength
  instructions := CompiledInstruction.forall₂_toShortest spelled.instructions

theorem decoder_eq : decoder = (MessageHeader.decoder >>= fun header =>
    Decoder.compactLength >>= fun keyCount =>
    Decoder.times keyCount (Decoder.fixed .publicKey) >>= fun accountKeys =>
    Decoder.fixed .hash >>= fun recentBlockhash =>
    Decoder.compactLength >>= fun instructionCount =>
    Decoder.times instructionCount CompiledInstruction.decoder >>= fun instructions =>
    ofExcept (check ⟨header, accountKeys, recentBlockhash, instructions⟩) >>= fun _ =>
    pure ⟨header, accountKeys, recentBlockhash, instructions⟩) := rfl

instance local_decoder : decoder.Local := by
  rw [decoder_eq]
  infer_instance

theorem reads_decoder_iff {taken : Bytes} : decoder.Reads taken message ↔
    message.requiredSignatures < 128 ∧ message.WellFormed ∧
      ∃ spelling, message.WrittenAs spelling taken := by
  simp only [decoder_eq, Decoder.reads_bind_iff, MessageHeader.reads_decoder_iff,
    Decoder.reads_compactLength_iff, Decoder.reads_times_fixed_iff, Decoder.reads_fixed_iff,
    CompiledInstruction.reads_times_decoder_iff, Decoder.reads_ofExcept_iff, Decoder.reads_pure_iff]
  constructor
  · rintro ⟨_, _, header, rfl, ⟨few, rfl⟩, keyCount, _, _, rfl, spelledKeys, _, _, accountKeys, rfl,
      ⟨rfl, rfl⟩, _, _, recentBlockhash, rfl, rfl, instructionCount, _, _, rfl, spelledInstructions,
      _, _, instructions, rfl, ⟨rfl, spellings, spelled, rfl⟩, _, _, _, rfl, ⟨rfl, checked⟩, rfl, rfl⟩
    exact ⟨few, (check_eq_ok_iff _).mp checked, ⟨keyCount, instructionCount, spellings⟩,
      ⟨spelledKeys, spelledInstructions, spelled⟩, by simp [write]⟩
  · rintro ⟨few, formed, spelling, ⟨spelled, rfl⟩⟩
    exact ⟨message.header.encode, _, message.header, rfl, ⟨few, rfl⟩, spelling.keyCount, _, _, rfl,
      spelled.keyCount, _, _, message.accountKeys, rfl, ⟨rfl, rfl⟩, _, _, message.recentBlockhash,
      rfl, rfl, spelling.instructionCount, _, _, rfl, spelled.instructionCount, _, [],
      message.instructions, by simp, ⟨rfl, spelling.instructions, spelled.instructions, rfl⟩,
      [], [], (), rfl, ⟨rfl, (check_eq_ok_iff message).mpr formed⟩, rfl, rfl⟩

theorem decode_eq (bytes : Bytes) : decode bytes = decoder.readAll bytes := rfl

/-- A first byte with its top bit set is a version, and nothing after it is read. -/
theorem decode_of_version {first : UInt8} (versioned : 128 ≤ first.toNat) (rest : Bytes) :
    decode (first :: rest) = .error (.unsupportedVersion .message (first.toNat - 128)) := by
  have refused : decoder.Refuses [first]
      (.unsupportedVersion .message (first.toNat - 128)) := by
    rw [decoder_eq]
    exact (MessageHeader.refuses_version versioned).bind _
  exact refused.readAll_append rest

theorem decode_eq_ok_iff {bytes : Bytes} : decode bytes = .ok message ↔
    message.requiredSignatures < 128 ∧ message.WellFormed ∧
      ∃ spelling, message.WrittenAs spelling bytes :=
  Decoder.readAll_eq_ok_iff.trans reads_decoder_iff

end Message

end LedgerWire
