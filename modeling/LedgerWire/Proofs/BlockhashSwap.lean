import LedgerWire.Proofs.Compile
import LedgerWire.Proofs.MessageSpelling

/-!
A message with another blockhash in the place of its own. Of its bytes only those of the blockhash
change, and how many keys there are tells where they stand. Nothing else that is asked of a message
looks at the blockhash. Compiling only hands it on, so that a message may be compiled before its
blockhash is known.
-/

namespace LedgerWire.Message

variable {message other : Message} {bytes : Bytes}

def blockhashOffset (message : Message) : Nat :=
  3 + CompactLength.encodedLength message.accountKeys.length + 32 * message.accountKeys.length

/-- All that is asked of a message, but for its blockhash and its bytes. -/
structure AnswersAlike (message other : Message) : Prop where
  check : message.check = other.check
  decompile : message.decompile = other.decompile
  advancesNonce : ∀ systemProgram,
    message.advancesNonce systemProgram = other.advancesNonce systemProgram
  usesDurableNonce : message.usesDurableNonce = other.usesDurableNonce
  encodedSize : message.encodedSize = other.encodedSize
  isSigner : ∀ index, message.isSigner index = other.isSigner index
  isWritable : ∀ index, message.isWritable index = other.isWritable index

theorem answersAlike_of_fields (header : message.header = other.header)
    (accountKeys : message.accountKeys = other.accountKeys)
    (instructions : message.instructions = other.instructions) : AnswersAlike message other := by
  cases message
  cases other
  subst header accountKeys instructions
  exact ⟨rfl, rfl, fun _ => rfl, rfl, rfl, fun _ => rfl, fun _ => rfl⟩

theorem answersAlike_withBlockhash (message : Message) (recentBlockhash : Hash) :
    AnswersAlike (message.withBlockhash recentBlockhash) message :=
  answersAlike_of_fields rfl rfl rfl

def writeFront (message : Message) : Bytes :=
  message.header.encode ++ (message.shortestSpelling.keyCount ++
    message.accountKeys.flatMap FixedBytes.bytes)

def writeBack (message : Message) : Bytes :=
  message.shortestSpelling.instructionCount ++
    CompiledInstruction.writeAll message.instructions message.shortestSpelling.instructions

theorem write_shortest (message : Message) : message.write message.shortestSpelling =
    message.writeFront ++ (message.recentBlockhash.bytes ++ message.writeBack) := by
  simp only [write, writeFront, writeBack, List.append_assoc]

theorem length_writeFront (message : Message) :
    message.writeFront.length = message.blockhashOffset := by
  simp only [writeFront, blockhashOffset, shortestSpelling, MessageHeader.encode,
    List.length_append, List.length_cons, List.length_nil, CompactLength.length_shortest,
    Decoder.length_flatMap_bytes, FixedBytes.Kind.size]
  omega

theorem encode_eq_ok_front_back_iff : message.encode = .ok bytes ↔
    message.SpelledBy message.shortestSpelling ∧
      bytes = message.writeFront ++ (message.recentBlockhash.bytes ++ message.writeBack) := by
  rw [encode_eq_ok_iff, ← write_shortest]
  exact ⟨fun written => ⟨written.spelled, written.bytes_eq⟩, fun parts => ⟨parts.1, parts.2⟩⟩

theorem SpelledBy.withBlockhash {spelling : MessageSpelling} (spelled : message.SpelledBy spelling)
    (recentBlockhash : Hash) : (message.withBlockhash recentBlockhash).SpelledBy spelling :=
  ⟨spelled.keyCount, spelled.instructionCount, spelled.instructions⟩

theorem encode_withBlockhash (encoded : message.encode = .ok bytes) (recentBlockhash : Hash) :
    ∃ front back, front.length = message.blockhashOffset ∧
      bytes = front ++ (message.recentBlockhash.bytes ++ back) ∧
      (message.withBlockhash recentBlockhash).encode =
        .ok (front ++ (recentBlockhash.bytes ++ back)) := by
  obtain ⟨spelled, written⟩ := encode_eq_ok_front_back_iff.mp encoded
  refine ⟨message.writeFront, message.writeBack, message.length_writeFront, written, ?_⟩
  exact encode_eq_ok_front_back_iff.mpr ⟨spelled.withBlockhash recentBlockhash, rfl⟩

theorem compile_withBlockhash (instructions : List Instruction) (feePayer : PublicKey)
    (first second : Hash) : compile instructions feePayer second =
      (compile instructions feePayer first).map fun message => message.withBlockhash second := by
  rw [compile_eq, compile_eq]
  dsimp only
  split
  · rfl
  · cases headerOf (keyMetas instructions feePayer) <;> rfl

/-- Another blockhash takes the place of the one before it among the bytes of a message, and no
other answer changes. To compile with a blockhash is to compile with any other and to replace that
one, also where compiling fails. -/
theorem blockhash_swap :
    (∀ (message : Message) (bytes : Bytes) (recentBlockhash : Hash), message.encode = .ok bytes →
      ∃ front back, front.length = message.blockhashOffset ∧
        bytes = front ++ (message.recentBlockhash.bytes ++ back) ∧
        (message.withBlockhash recentBlockhash).encode =
          .ok (front ++ (recentBlockhash.bytes ++ back))) ∧
    (∀ (message : Message) (recentBlockhash : Hash),
      AnswersAlike (message.withBlockhash recentBlockhash) message) ∧
    ∀ (instructions : List Instruction) (feePayer : PublicKey) (first second : Hash),
      compile instructions feePayer second =
        (compile instructions feePayer first).map
          fun message => message.withBlockhash second := by
  refine ⟨?_, answersAlike_withBlockhash, compile_withBlockhash⟩
  intro message bytes recentBlockhash encoded
  exact encode_withBlockhash encoded recentBlockhash

theorem blockhash_swap_entangled :
    let nonce := FixedBytes.filled .hash 90
    (∃ front back, front.length = 196 ∧
      entangledMessage.encode = .ok (front ++ (List.replicate 32 9 ++ back)) ∧
      (entangledMessage.withBlockhash nonce).encode =
        .ok (front ++ (List.replicate 32 90 ++ back))) ∧
    compile entangled (FixedBytes.filled .publicKey 1) nonce =
      .ok (entangledMessage.withBlockhash nonce) := by
  intro nonce
  have spelled : entangledMessage.SpelledBy entangledMessage.shortestSpelling :=
    spelledBy_shortest_iff.mpr (by decide)
  have encoded := encode_eq_ok_iff.mpr ⟨spelled, rfl⟩
  have compiled := compile_eq_ok_iff.mpr entangled_compiledFrom
  obtain ⟨front, back, place, written, swapped⟩ := blockhash_swap.1 _ _ nonce encoded
  rw [written] at encoded
  refine ⟨⟨front, back, place, encoded, swapped⟩, ?_⟩
  rw [blockhash_swap.2.2 entangled _ (FixedBytes.filled .hash 9) nonce, compiled]
  rfl

end LedgerWire.Message
