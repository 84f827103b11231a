import LedgerWire.Proofs.TransactionSpelling

/-!
How decoders fail. A `Steady` decoder fails in one of two ways: the bytes end inside something that
it reads, and then it says where that starts and how long it is; or what it has read is wrong, and
then it is wrong whatever follows, and the failure does not tell where. From this it follows what
becomes of a byte string that should be one value, and how that changes behind other bytes.
-/

namespace LedgerWire

def WireError.movedBy (distance : Nat) : WireError → WireError
  | truncatedInput offset needed remaining => truncatedInput (distance + offset) needed remaining
  | trailingBytes offset remaining => trailingBytes (distance + offset) remaining
  | failure => failure

theorem mapError_movedBy {α : Type} (first second : Nat) (outcome : Except WireError α) :
    (outcome.mapError fun failure => failure.movedBy second).mapError
        (fun failure => failure.movedBy first) =
      outcome.mapError fun failure => failure.movedBy (first + second) := by
  cases outcome with
  | ok value => rfl
  | error failure => cases failure <;> simp [Except.mapError, WireError.movedBy, Nat.add_assoc]

/-- Tells of no place that is counted from where the bytes start. -/
class WireError.Placeless (failure : WireError) : Prop where
  movedBy_eq : ∀ distance, failure.movedBy distance = failure

instance (value limit : Nat) : (WireError.encodingRange value limit).Placeless := ⟨fun _ => rfl⟩

instance (index length : Nat) : (WireError.indexOutOfRange index length).Placeless := ⟨fun _ => rfl⟩

instance (fault : HeaderFault) : (WireError.invalidHeader fault).Placeless := ⟨fun _ => rfl⟩

instance (index : Nat) (key : PublicKey) : (WireError.duplicateAccount index key).Placeless :=
  ⟨fun _ => rfl⟩

instance (subject : Versioned) (version : Nat) :
    (WireError.unsupportedVersion subject version).Placeless := ⟨fun _ => rfl⟩

theorem WireError.not_placeless_truncatedInput {offset needed remaining : Nat} :
    ¬ (truncatedInput offset needed remaining).Placeless := by
  intro placeless
  have moved := placeless.movedBy_eq 1
  simp [movedBy] at moved

theorem WireError.not_placeless_trailingBytes {offset remaining : Nat} :
    ¬ (trailingBytes offset remaining).Placeless := by
  intro placeless
  have moved := placeless.movedBy_eq 1
  simp [movedBy] at moved

namespace Decoder

variable {α β : Type}

/-- Stops behind these bytes unless there are `needed` more. This is how a short read fails where no
record is named. -/
def Awaits (decoder : Decoder α) (bytes : Bytes) (needed : Nat) : Prop :=
  ∀ (offset : Nat) (more : Bytes), more.length < needed →
    ∃ after, decoder ⟨none, offset, bytes ++ more⟩ =
      .error (.truncatedInput (offset + bytes.length) needed more.length) after

class Steady (decoder : Decoder α) : Prop where
  failed : ∀ {offset input failure after},
    decoder ⟨none, offset, input⟩ = .error failure after →
      (∃ bytes more needed, input = bytes ++ more ∧ more.length < needed ∧
        decoder.Awaits bytes needed) ∨
      failure.Placeless ∧ decoder.Refuses input failure

theorem Awaits.bind {first : Decoder α} {bytes : Bytes} {needed : Nat}
    (awaits : first.Awaits bytes needed) (next : α → Decoder β) :
    (first >>= next).Awaits bytes needed := by
  intro offset more short
  obtain ⟨after, ran⟩ := awaits offset more short
  exact ⟨after, by simp only [Bind.bind, EStateM.bind, ran]⟩

theorem Reads.bind_awaits {first : Decoder α} {next : α → Decoder β} {front back : Bytes}
    {middle : α} {needed : Nat} (read : first.Reads front middle)
    (awaits : (next middle).Awaits back needed) :
    (first >>= next).Awaits (front ++ back) needed := by
  intro offset more short
  have start := read none offset (back ++ more)
  obtain ⟨after, ran⟩ := awaits (offset + front.length) more short
  refine ⟨after, ?_⟩
  simp only [Bind.bind, EStateM.bind, List.append_assoc, start, ran, List.length_append,
    Nat.add_assoc]

instance steady_pure (value : α) : Steady (pure value : Decoder α) where
  failed := by
    intro offset input failure after ran
    cases ran

instance steady_throw (failure : WireError) [placeless : failure.Placeless] :
    Steady (throw failure : Decoder α) where
  failed := by
    intro offset input found after ran
    cases ran
    exact .inr ⟨placeless, fun record offset rest => ⟨_, rfl⟩⟩

theorem steady_ofExcept {outcome : Except WireError α}
    (placeless : ∀ failure, outcome = .error failure → failure.Placeless) :
    Steady (ofExcept outcome : Decoder α) := by
  cases outcome with
  | error failure =>
      have := placeless failure rfl
      exact steady_throw failure
  | ok value => exact steady_pure value

instance steady_bind (first : Decoder α) (next : α → Decoder β) [Local first] [Steady first]
    [∀ middle, Steady (next middle)] : Steady (first >>= next) where
  failed := by
    intro offset input failure after ran
    cases ranFirst : first ⟨none, offset, input⟩ with
    | error early between =>
        simp only [Bind.bind, EStateM.bind, ranFirst] at ran
        cases ran
        rcases Steady.failed ranFirst with ⟨bytes, more, needed, rfl, short, awaits⟩ |
          ⟨placeless, refused⟩
        · exact .inl ⟨bytes, more, needed, rfl, short, awaits.bind next⟩
        · exact .inr ⟨placeless, refused.bind next⟩
    | ok middle between =>
        simp only [Bind.bind, EStateM.bind, ranFirst] at ran
        obtain ⟨front, rest, rfl, rfl, read⟩ := Local.taken ranFirst
        rcases Steady.failed ran with ⟨bytes, more, needed, rfl, short, awaits⟩ |
          ⟨placeless, refused⟩
        · refine .inl ⟨front ++ bytes, more, needed, ?_, short, read.bind_awaits awaits⟩
          rw [List.append_assoc]
        · exact .inr ⟨placeless, read.bind_refuses refused⟩

instance steady_ite (condition : Prop) [Decidable condition] (first second : Decoder α)
    [Steady first] [Steady second] : Steady (if condition then first else second) := by
  split
  · assumption
  · assumption

instance steady_exactly (count : Nat) : Steady (exactly count) where
  failed := by
    intro offset input failure after ran
    have short : input.length < count := by
      unfold exactly at ran
      split at ran
      · cases ran
      · rename_i missing
        simp only [List.length_take] at missing
        omega
    refine .inl ⟨[], input, count, rfl, short, ?_⟩
    intro offset more short
    have missing : ¬ (more.take count).length = count := by
      rw [List.length_take]
      omega
    refine ⟨⟨none, offset, more⟩, ?_⟩
    unfold exactly
    exact dif_neg missing

instance steady_bytes (count : Nat) : Steady (bytes count) :=
  inferInstanceAs (Steady (exactly count >>= fun held => pure held.val))

instance steady_number (width : Nat) : Steady (number width) :=
  inferInstanceAs (Steady (bytes width >>= fun held => pure (LittleEndian.decode held)))

instance steady_byte : Steady byte :=
  inferInstanceAs (Steady (number 1 >>= fun value => pure (UInt8.ofNat value)))

instance steady_fixed (kind : FixedBytes.Kind) : Steady (fixed kind) := by
  rw [fixed_eq]
  infer_instance

instance steady_compactLength : Steady compactLength where
  failed := by
    intro offset input failure after ran
    cases decoded : CompactLength.decodeGroups CompactLength.maxGroups input with
    | ok reading => simp [compactLength, decoded] at ran
    | error fault =>
        simp only [compactLength, decoded] at ran
        cases ran
        cases fault with
        | cut used =>
            obtain rfl := CompactLength.length_of_decodeGroups_cut decoded
            refine .inl ⟨input, [], 1, by simp, by simp, ?_⟩
            intro offset more short
            obtain rfl : more = [] := List.length_eq_zero_iff.mp (by omega)
            simp [compactLength, decoded, CompactLength.Fault.toWireError]
        | unfinished bits =>
            refine .inr ⟨inferInstanceAs (WireError.encodingRange _ _).Placeless, ?_⟩
            intro record offset rest
            have same := CompactLength.decodeGroups_append_of_unfinished decoded rest
            simp [compactLength, same, CompactLength.Fault.toWireError]

instance steady_times (count : Nat) (item : Decoder α) [Local item] [Steady item] :
    Steady (times count item) := by
  induction count with
  | zero => exact steady_pure []
  | succ count ih =>
      rw [times_succ]
      infer_instance

theorem Reads.awaits_of_cut {decoder : Decoder α} [Local decoder] [Steady decoder]
    {part more : Bytes} {value : α} (read : decoder.Reads (part ++ more) value) (cut : more ≠ []) :
    ∃ bytes left needed, part = bytes ++ left ∧ left.length < needed ∧
      decoder.Awaits bytes needed := by
  cases ran : decoder ⟨none, 0, part⟩ with
  | ok found after =>
      obtain ⟨front, rest, rfl, _, readFront⟩ := Local.taken ran
      have same : front ++ (rest ++ more) = front ++ rest ++ more ++ [] := by simp
      have whole := (readFront.unique read same).2.1
      rw [List.append_assoc, List.self_eq_append_right, List.append_eq_nil_iff] at whole
      exact absurd whole.2 cut
  | error failure after =>
      rcases Steady.failed ran with awaiting | ⟨_, refused⟩
      · exact awaiting
      · obtain ⟨_, failedThere⟩ := refused none 0 more
        have ranWhole := read none 0 []
        rw [List.append_nil, failedThere] at ranWhole
        cases ranWhole

/-- What becomes of a byte string that should be one value. -/
inductive Fate (decoder : Decoder α) : Bytes → Except WireError α → Prop where
  | whole {bytes : Bytes} {value : α} (read : decoder.Reads bytes value) :
      Fate decoder bytes (.ok value)
  | trailing {bytes more : Bytes} {value : α} (read : decoder.Reads bytes value)
      (left : more ≠ []) :
      Fate decoder (bytes ++ more) (.error (.trailingBytes bytes.length more.length))
  | truncated {bytes more : Bytes} {needed : Nat} (awaits : decoder.Awaits bytes needed)
      (short : more.length < needed) :
      Fate decoder (bytes ++ more) (.error (.truncatedInput bytes.length needed more.length))
  | refused {bytes : Bytes} {failure : WireError} (placeless : failure.Placeless)
      (refused : decoder.Refuses bytes failure) : Fate decoder bytes (.error failure)

theorem Fate.readAll_eq {decoder : Decoder α} {bytes : Bytes} {outcome : Except WireError α}
    (fate : decoder.Fate bytes outcome) : decoder.readAll bytes = outcome := by
  simp only [readAll, runOn, Bind.bind, EStateM.bind, Cursor.ofBytes]
  cases fate with
  | whole read =>
      have ran := read none 0 []
      rw [List.append_nil] at ran
      rw [ran]
      rfl
  | @trailing bytes more value read left =>
      obtain ⟨byte, rest, rfl⟩ := List.exists_cons_of_ne_nil left
      simp only [read none 0 (byte :: rest), finish, Nat.zero_add, Cursor.remaining]
  | @truncated bytes more needed awaits short =>
      obtain ⟨after, ran⟩ := awaits 0 more short
      simp only [ran, Nat.zero_add]
  | @refused bytes failure placeless refused =>
      obtain ⟨after, ran⟩ := refused none 0 []
      rw [List.append_nil] at ran
      simp only [ran]

theorem fate_readAll (decoder : Decoder α) [Local decoder] [Steady decoder] (bytes : Bytes) :
    decoder.Fate bytes (decoder.readAll bytes) := by
  -- A fate settles the outcome, so it is enough to find one.
  suffices exists_fate : ∃ outcome, decoder.Fate bytes outcome by
    obtain ⟨outcome, fate⟩ := exists_fate
    rwa [fate.readAll_eq]
  cases ran : decoder ⟨none, 0, bytes⟩ with
  | error failure after =>
      rcases Steady.failed ran with ⟨bytes, more, needed, rfl, short, awaits⟩ |
        ⟨placeless, refused⟩
      · exact ⟨_, .truncated awaits short⟩
      · exact ⟨_, .refused placeless refused⟩
  | ok value after =>
      obtain ⟨front, rest, rfl, rfl, read⟩ := Local.taken ran
      by_cases all : rest = []
      · rw [all, List.append_nil]
        exact ⟨_, .whole read⟩
      · exact ⟨_, .trailing read all⟩

theorem Reads.map {decoder : Decoder α} {bytes : Bytes} {value : α}
    (read : decoder.Reads bytes value) (convert : α → β) :
    (decoder >>= fun value => pure (convert value)).Reads bytes (convert value) := by
  have finished : (pure (convert value) : Decoder β).Reads [] (convert value) :=
    reads_pure_iff.mpr ⟨rfl, rfl⟩
  have both : (decoder >>= fun value => pure (convert value)).Reads (bytes ++ [])
    (convert value) := read.bind finished
  rwa [List.append_nil] at both

theorem Fate.map {decoder : Decoder α} {bytes : Bytes} {outcome : Except WireError α}
    (fate : decoder.Fate bytes outcome) (convert : α → β) :
    (decoder >>= fun value => pure (convert value)).Fate bytes (outcome.map convert) := by
  cases fate with
  | whole read => exact .whole (read.map convert)
  | trailing read left => exact .trailing (read.map convert) left
  | truncated awaits short => exact .truncated (awaits.bind _) short
  | refused placeless refused => exact .refused placeless (refused.bind _)

/-- Behind bytes that are read first everything happens as before, that much further on. -/
theorem Fate.behind {first : Decoder α} {next : α → Decoder β} {front bytes : Bytes} {middle : α}
    {outcome : Except WireError β} (read : first.Reads front middle)
    (fate : (next middle).Fate bytes outcome) :
    (first >>= next).Fate (front ++ bytes)
      (outcome.mapError fun failure => failure.movedBy front.length) := by
  cases fate with
  | whole readNext => exact .whole (read.bind readNext)
  | trailing readNext left =>
      rw [← List.append_assoc]
      simpa [Except.mapError, WireError.movedBy] using Fate.trailing (read.bind readNext) left
  | truncated awaits short =>
      rw [← List.append_assoc]
      simpa [Except.mapError, WireError.movedBy] using Fate.truncated (read.bind_awaits awaits) short
  | refused placeless refused =>
      rw [Except.mapError, placeless.movedBy_eq]
      exact .refused placeless (read.bind_refuses refused)

end Decoder

instance CompiledInstruction.steady_decoder : decoder.Steady := by
  rw [decoder_eq]
  infer_instance

instance MessageHeader.steady_decoder : decoder.Steady := by
  rw [decoder_eq]
  infer_instance

theorem Message.placeless_of_check {message : Message} {failure : WireError}
    (failed : message.check = .error failure) : failure.Placeless := by
  rw [check_eq] at failed
  split at failed
  · cases failed
    infer_instance
  · split at failed
    · cases failed
      infer_instance
    · split at failed
      · cases failed
        infer_instance
      · split at failed
        · cases failed
          infer_instance
        · cases failed

instance Message.steady_decoder : decoder.Steady := by
  have checked (message : Message) : Decoder.Steady (ofExcept message.check) :=
    Decoder.steady_ofExcept fun _ => placeless_of_check
  rw [decoder_eq]
  infer_instance

instance Transaction.steady_decoder : decoder.Steady := by
  rw [decoder_eq]
  infer_instance

end LedgerWire
