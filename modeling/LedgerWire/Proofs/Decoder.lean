import LedgerWire.Decoder
import LedgerWire.Proofs.CompactLength
import Mathlib.Data.List.Forall2

/-!
What decoders read. `Reads decoder bytes value` says that the decoder takes these bytes off any
input that starts with them; a decoder is `Local` if all its successful runs are of this kind. For
local decoders `Reads` follows the way they are put together, and so gives their grammar.
-/

namespace LedgerWire.Decoder

variable {α β : Type}

def Reads (decoder : Decoder α) (bytes : Bytes) (value : α) : Prop :=
  ∀ record offset rest, decoder ⟨record, offset, bytes ++ rest⟩ =
    .ok value ⟨record, offset + bytes.length, rest⟩

class Local (decoder : Decoder α) : Prop where
  taken : ∀ {record offset input value after}, decoder ⟨record, offset, input⟩ = .ok value after →
    ∃ bytes rest, input = bytes ++ rest ∧ after = ⟨record, offset + bytes.length, rest⟩ ∧
      decoder.Reads bytes value

/-- No value's bytes start another's, and no bytes are read in two ways. -/
theorem Reads.unique {decoder : Decoder α} {bytes others rest otherRest : Bytes} {value other : α}
    (read : decoder.Reads bytes value) (readOther : decoder.Reads others other)
    (same : bytes ++ rest = others ++ otherRest) :
    value = other ∧ bytes = others ∧ rest = otherRest := by
  have first := read none 0 rest
  have second := readOther none 0 otherRest
  rw [same, second] at first
  injection first with valueEq cursorEq
  injection cursorEq with _ offsetEq restEq
  have bytesEq : bytes = others := by
    apply (List.append_inj same _).1
    omega
  exact ⟨valueEq.symm, bytesEq, restEq.symm⟩

theorem Reads.bind {first : Decoder α} {next : α → Decoder β} {front back : Bytes} {middle : α}
    {value : β} (read : first.Reads front middle) (readNext : (next middle).Reads back value) :
    (first >>= next).Reads (front ++ back) value := by
  intro record offset rest
  have start := read record offset (back ++ rest)
  have finish := readNext record (offset + front.length) rest
  simp only [Bind.bind, EStateM.bind, List.append_assoc, start, finish, List.length_append,
    Nat.add_assoc]

/-- The decoder fails in this way on any input that starts with these bytes. -/
def Refuses (decoder : Decoder α) (bytes : Bytes) (failure : WireError) : Prop :=
  ∀ record offset rest, ∃ after, decoder ⟨record, offset, bytes ++ rest⟩ = .error failure after

theorem refuses_throw (failure : WireError) :
    (throw failure : Decoder α).Refuses [] failure := by
  intro record offset rest
  exact ⟨⟨record, offset, rest⟩, rfl⟩

theorem Refuses.bind {first : Decoder α} {bytes : Bytes} {failure : WireError}
    (refused : first.Refuses bytes failure) (next : α → Decoder β) :
    (first >>= next).Refuses bytes failure := by
  intro record offset rest
  obtain ⟨after, ran⟩ := refused record offset rest
  exact ⟨after, by simp only [Bind.bind, EStateM.bind, ran]⟩

theorem Reads.bind_refuses {first : Decoder α} {next : α → Decoder β} {front back : Bytes}
    {middle : α} {failure : WireError} (read : first.Reads front middle)
    (refused : (next middle).Refuses back failure) :
    (first >>= next).Refuses (front ++ back) failure := by
  intro record offset rest
  have start := read record offset (back ++ rest)
  obtain ⟨after, ran⟩ := refused record (offset + front.length) rest
  refine ⟨after, ?_⟩
  simp only [Bind.bind, EStateM.bind, List.append_assoc, start, ran]

instance local_pure (value : α) : Local (pure value : Decoder α) where
  taken := by
    intro record offset input result after ran
    injection ran with valueEq cursorEq
    subst valueEq cursorEq
    exact ⟨[], input, rfl, rfl, fun record offset rest => rfl⟩

instance local_throw (failure : WireError) : Local (throw failure : Decoder α) where
  taken := by
    intro record offset input result after ran
    cases ran

instance local_bind (first : Decoder α) (next : α → Decoder β) [Local first]
    [∀ middle, Local (next middle)] : Local (first >>= next) where
  taken := by
    intro record offset input value after ran
    simp only [Bind.bind, EStateM.bind] at ran
    split at ran
    · rename_i middle between ranFirst
      obtain ⟨front, left, rfl, rfl, read⟩ := Local.taken ranFirst
      obtain ⟨back, rest, rfl, rfl, readNext⟩ := Local.taken ran
      refine ⟨front ++ back, rest, by simp, by simp [Nat.add_assoc], read.bind readNext⟩
    · cases ran

instance local_ite (condition : Prop) [Decidable condition] (first second : Decoder α)
    [Local first] [Local second] : Local (if condition then first else second) where
  taken := by
    intro record offset input value after ran
    by_cases holds : condition
    · simp only [holds, if_true] at ran ⊢
      exact Local.taken ran
    · simp only [holds, if_false] at ran ⊢
      exact Local.taken ran

instance local_ofExcept (result : Except WireError α) : Local (ofExcept result : Decoder α) := by
  cases result with
  | error failure => exact local_throw failure
  | ok value => exact local_pure value

theorem reads_pure_iff {value result : α} {bytes : Bytes} :
    (pure value : Decoder α).Reads bytes result ↔ bytes = [] ∧ result = value := by
  constructor
  · intro read
    have ran := read none 0 []
    injection ran with valueEq cursorEq
    injection cursorEq with _ _ restEq
    exact ⟨by simpa using restEq, valueEq.symm⟩
  · rintro ⟨rfl, rfl⟩ record offset rest
    rfl

theorem not_reads_throw {failure : WireError} {bytes : Bytes} {result : α} :
    ¬ (throw failure : Decoder α).Reads bytes result := by
  intro read
  cases read none 0 []

theorem reads_ofExcept_iff {outcome : Except WireError α} {bytes : Bytes} {result : α} :
    (ofExcept outcome : Decoder α).Reads bytes result ↔ bytes = [] ∧ outcome = .ok result := by
  cases outcome with
  | error failure => exact iff_of_false not_reads_throw (by simp)
  | ok value =>
      rw [Except.ok.injEq, eq_comm (a := value)]
      exact reads_pure_iff

theorem reads_bind_iff {first : Decoder α} {next : α → Decoder β} [Local first]
    [∀ middle, Local (next middle)] {bytes : Bytes} {value : β} :
    (first >>= next).Reads bytes value ↔
      ∃ front back middle, bytes = front ++ back ∧ first.Reads front middle ∧
        (next middle).Reads back value := by
  constructor
  · intro read
    have ran := read none 0 []
    simp only [Bind.bind, EStateM.bind] at ran
    split at ran
    · rename_i middle between ranFirst
      obtain ⟨front, left, inputEq, rfl, readFirst⟩ := Local.taken ranFirst
      obtain ⟨back, rest, rfl, afterEq, readNext⟩ := Local.taken ran
      injection afterEq with _ _ restEq
      subst restEq
      exact ⟨front, back, middle, by simpa using inputEq, readFirst, readNext⟩
    · cases ran
  · rintro ⟨front, back, middle, rfl, readFirst, readNext⟩
    exact readFirst.bind readNext

theorem reads_map_iff {decoder : Decoder α} [Local decoder] {convert : α → β} {bytes : Bytes}
    {result : β} : (decoder >>= fun value => pure (convert value)).Reads bytes result ↔
      ∃ value, decoder.Reads bytes value ∧ result = convert value := by
  simp only [reads_bind_iff, reads_pure_iff]
  constructor
  · rintro ⟨front, _, value, rfl, read, rfl, made⟩
    exact ⟨value, by rwa [List.append_nil], made⟩
  · rintro ⟨value, read, made⟩
    exact ⟨bytes, [], value, (List.append_nil bytes).symm, read, rfl, made⟩

theorem exactly_append (count : Nat) (value : { bytes : Bytes // bytes.length = count }) :
    (exactly count).Reads value.val value := by
  intro record offset rest
  obtain ⟨bytes, rfl⟩ := value
  simp [exactly, Cursor.advance]

instance local_exactly (count : Nat) : Local (exactly count) where
  taken := by
    intro record offset input value after ran
    unfold exactly at ran
    split at ran
    · rename_i enough
      injection ran with valueEq cursorEq
      subst valueEq cursorEq
      refine ⟨input.take count, input.drop count, by simp, ?_, exactly_append count ⟨_, enough⟩⟩
      simp only [Cursor.advance, Cursor.mk.injEq, and_true, true_and]
      exact congrArg (offset + ·) enough.symm
    · cases ran

theorem reads_exactly_iff {count : Nat} {bytes : Bytes}
    {value : { bytes : Bytes // bytes.length = count }} :
    (exactly count).Reads bytes value ↔ bytes = value.val := by
  constructor
  · intro read
    have ran := read none 0 []
    unfold exactly at ran
    split at ran
    · rename_i enough
      injection ran with valueEq afterEq
      injection afterEq with _ _ restEq
      subst valueEq
      have all : bytes.length ≤ count := by simpa using restEq
      simpa using (List.take_of_length_le all).symm
    · cases ran
  · rintro rfl
    exact exactly_append count value

instance local_bytes (count : Nat) : Local (bytes count) :=
  inferInstanceAs (Local (exactly count >>= fun held => pure held.val))

theorem reads_bytes_iff {count : Nat} {taken value : Bytes} :
    (bytes count).Reads taken value ↔ taken = value ∧ value.length = count := by
  change (exactly count >>= fun held => pure held.val).Reads taken value ↔ _
  simp only [reads_bind_iff, reads_exactly_iff, reads_pure_iff]
  constructor
  · rintro ⟨front, back, held, rfl, rfl, rfl, rfl⟩
    exact ⟨by simp, held.property⟩
  · rintro ⟨rfl, length_eq⟩
    exact ⟨taken, [], ⟨taken, length_eq⟩, by simp, rfl, rfl, rfl⟩

instance local_number (width : Nat) : Local (number width) :=
  inferInstanceAs (Local (bytes width >>= fun held => pure (LittleEndian.decode held)))

theorem reads_number_iff {width value : Nat} {taken : Bytes} :
    (number width).Reads taken value ↔
      taken.length = width ∧ value = LittleEndian.decode taken := by
  change (bytes width >>= fun held => pure (LittleEndian.decode held)).Reads taken value ↔ _
  simp only [reads_bind_iff, reads_bytes_iff, reads_pure_iff]
  constructor
  · rintro ⟨front, back, held, rfl, ⟨rfl, length_eq⟩, rfl, rfl⟩
    simp [length_eq]
  · rintro ⟨length_eq, rfl⟩
    exact ⟨taken, [], taken, by simp, ⟨rfl, length_eq⟩, rfl, rfl⟩

instance local_byte : Local byte :=
  inferInstanceAs (Local (number 1 >>= fun value => pure (UInt8.ofNat value)))

theorem reads_byte_iff {taken : Bytes} {value : UInt8} : byte.Reads taken value ↔ taken = [value] := by
  change (number 1 >>= fun value => pure (UInt8.ofNat value)).Reads taken value ↔ _
  simp only [reads_bind_iff, reads_number_iff, reads_pure_iff]
  constructor
  · rintro ⟨front, back, number, rfl, ⟨length_eq, rfl⟩, rfl, rfl⟩
    obtain ⟨only, rfl⟩ := List.length_eq_one_iff.mp length_eq
    simp [LittleEndian.decode]
  · rintro rfl
    exact ⟨[value], [], value.toNat, rfl, ⟨rfl, by simp [LittleEndian.decode]⟩, rfl, by simp⟩

theorem fixed_eq (kind : FixedBytes.Kind) :
    fixed kind = (exactly kind.size >>= fun held => pure ⟨held.val, held.property⟩) := rfl

instance local_fixed (kind : FixedBytes.Kind) : Local (fixed kind) := by
  rw [fixed_eq]
  infer_instance

theorem reads_fixed_iff {kind : FixedBytes.Kind} {taken : Bytes} {value : FixedBytes kind} :
    (fixed kind).Reads taken value ↔ taken = value.bytes := by
  rw [fixed_eq]
  simp only [reads_bind_iff, reads_exactly_iff, reads_pure_iff]
  constructor
  · rintro ⟨front, back, held, rfl, rfl, rfl, rfl⟩
    simp
  · rintro rfl
    exact ⟨value.bytes, [], ⟨value.bytes, value.length_eq⟩, by simp, rfl, rfl, rfl⟩

theorem compactLength_append {taken : Bytes} {length : Nat}
    (spelled : CompactLength.Spells taken length) : compactLength.Reads taken length := by
  intro record offset rest
  simp [compactLength, spelled.decodeGroups_append, Cursor.advance]

instance local_compactLength : Local compactLength where
  taken := by
    intro record offset input value after ran
    unfold compactLength at ran
    split at ran
    · rename_i reading read
      injection ran with valueEq cursorEq
      subst valueEq cursorEq
      have within := (CompactLength.decodeGroups_take_append read).1
      refine ⟨input.take reading.used, input.drop reading.used, by simp, ?_,
        compactLength_append (CompactLength.spells_take_of_decodeGroups read)⟩
      simp only [Cursor.advance, List.length_take, Nat.min_eq_left within]
    · cases ran

theorem reads_compactLength_iff {taken : Bytes} {length : Nat} :
    compactLength.Reads taken length ↔ CompactLength.Spells taken length := by
  constructor
  · intro read
    have ran := read none 0 []
    unfold compactLength at ran
    split at ran
    · rename_i reading decoded
      injection ran with valueEq cursorEq
      simp only [Cursor.advance, Cursor.mk.injEq, Nat.zero_add] at cursorEq
      rw [List.append_nil] at decoded
      unfold CompactLength.Spells
      rw [decoded, ← valueEq, ← cursorEq.2.1]
    · cases ran
  · exact compactLength_append

theorem spells_unique {bytes others rest otherRest : Bytes} {length otherLength : Nat}
    (spelled : CompactLength.Spells bytes length)
    (otherSpelled : CompactLength.Spells others otherLength)
    (same : bytes ++ rest = others ++ otherRest) :
    length = otherLength ∧ bytes = others ∧ rest = otherRest :=
  (compactLength_append spelled).unique (compactLength_append otherSpelled) same

instance local_times (count : Nat) (item : Decoder α) [Local item] : Local (times count item) := by
  induction count with
  | zero => exact local_pure []
  | succ count ih =>
      rw [times_succ]
      infer_instance

theorem reads_times_iff {count : Nat} {item : Decoder α} [Local item] {taken : Bytes}
    {values : List α} :
    (times count item).Reads taken values ↔
      values.length = count ∧ ∃ parts, List.Forall₂ item.Reads parts values ∧ taken = parts.flatten := by
  induction count generalizing taken values with
  | zero =>
      rw [times_zero, reads_pure_iff]
      constructor
      · rintro ⟨rfl, rfl⟩
        exact ⟨rfl, [], .nil, rfl⟩
      · rintro ⟨empty, parts, read, rfl⟩
        obtain rfl := List.length_eq_zero_iff.mp empty
        cases read
        exact ⟨rfl, rfl⟩
  | succ count ih =>
      simp only [times_succ, reads_bind_iff, reads_pure_iff, ih]
      constructor
      · rintro ⟨front, back, first, rfl, readFirst, middle, last, others, rfl,
          ⟨length_eq, parts, read, rfl⟩, rfl, rfl⟩
        exact ⟨by simp [length_eq], front :: parts, .cons readFirst read, by simp⟩
      · rintro ⟨length_eq, parts, read, rfl⟩
        cases read with
        | nil => simp at length_eq
        | @cons front first parts others readFirst read =>
            exact ⟨front, parts.flatten, first, rfl, readFirst, parts.flatten, [], others, by simp,
              ⟨by simpa using length_eq, parts, read, rfl⟩, rfl, rfl⟩

theorem forall₂_reads_iff {item : Decoder α} {Fits : α → Prop} {write : α → Bytes}
    (reads_item : ∀ part value, item.Reads part value ↔ Fits value ∧ part = write value)
    {parts : List Bytes} {values : List α} : List.Forall₂ item.Reads parts values ↔
      (∀ value ∈ values, Fits value) ∧ parts = values.map write := by
  induction values generalizing parts with
  | nil => simp
  | cons value values ih =>
      rw [List.forall₂_cons_right_iff, List.forall_mem_cons, List.map_cons]
      constructor
      · rintro ⟨part, others, read, readOthers, rfl⟩
        obtain ⟨fits, rfl⟩ := (reads_item part value).mp read
        obtain ⟨othersFit, rfl⟩ := ih.mp readOthers
        exact ⟨⟨fits, othersFit⟩, rfl⟩
      · rintro ⟨⟨fits, othersFit⟩, rfl⟩
        exact ⟨_, _, (reads_item _ value).mpr ⟨fits, rfl⟩, ih.mpr ⟨othersFit, rfl⟩, rfl⟩

theorem reads_times_write_iff {item : Decoder α} [Local item] {Fits : α → Prop} {write : α → Bytes}
    (reads_item : ∀ part value, item.Reads part value ↔ Fits value ∧ part = write value)
    {count : Nat} {taken : Bytes} {values : List α} : (times count item).Reads taken values ↔
      values.length = count ∧ (∀ value ∈ values, Fits value) ∧ taken = values.flatMap write := by
  simp only [reads_times_iff, forall₂_reads_iff reads_item, List.flatMap_def]
  constructor
  · rintro ⟨length_eq, _, ⟨fits, rfl⟩, rfl⟩
    exact ⟨length_eq, fits, rfl⟩
  · rintro ⟨length_eq, fits, rfl⟩
    exact ⟨length_eq, _, ⟨fits, rfl⟩, rfl⟩

theorem reads_times_fixed_iff {count : Nat} {kind : FixedBytes.Kind} {taken : Bytes}
    {values : List (FixedBytes kind)} :
    (times count (fixed kind)).Reads taken values ↔
      values.length = count ∧ taken = values.flatMap FixedBytes.bytes := by
  have reads_item (part : Bytes) (value : FixedBytes kind) :
      (fixed kind).Reads part value ↔ True ∧ part = value.bytes := by
    rw [true_and, reads_fixed_iff]
  simp [reads_times_write_iff reads_item]

theorem length_flatMap_bytes {kind : FixedBytes.Kind} (values : List (FixedBytes kind)) :
    (values.flatMap FixedBytes.bytes).length = values.length * kind.size := by
  induction values with
  | nil => simp
  | cons first rest ih =>
      simp only [List.flatMap_cons, List.length_append, first.length_eq, ih, List.length_cons]
      rw [Nat.succ_mul, Nat.add_comm]

theorem exists_flatMap_bytes (kind : FixedBytes.Kind) {count : Nat} {block : Bytes}
    (size : block.length = count * kind.size) :
    ∃ values : List (FixedBytes kind), values.length = count ∧
      values.flatMap FixedBytes.bytes = block := by
  induction count generalizing block with
  | zero =>
      rw [Nat.zero_mul, List.length_eq_zero_iff] at size
      exact ⟨[], rfl, size.symm⟩
  | succ count ih =>
      rw [Nat.succ_mul] at size
      have first : (block.take kind.size).length = kind.size := by
        rw [List.length_take]
        omega
      have left : (block.drop kind.size).length = count * kind.size := by
        rw [List.length_drop]
        omega
      obtain ⟨values, length_eq, others⟩ := ih left
      refine ⟨⟨_, first⟩ :: values, congrArg (· + 1) length_eq, ?_⟩
      rw [List.flatMap_cons, others, List.take_append_drop]

def readAll (decoder : Decoder α) (bytes : Bytes) : Except WireError α :=
  runOn (do let value ← decoder; finish; return value) (Cursor.ofBytes bytes none)

theorem readAll_eq_ok_iff {decoder : Decoder α} [Local decoder] {bytes : Bytes} {value : α} :
    decoder.readAll bytes = .ok value ↔ decoder.Reads bytes value := by
  simp only [readAll, runOn, Bind.bind, EStateM.bind, Cursor.ofBytes]
  constructor
  · intro ran
    cases result : decoder ⟨none, 0, bytes⟩ with
    | error failure after => simp [result] at ran
    | ok found after =>
        obtain ⟨front, rest, rfl, rfl, read⟩ := Local.taken result
        cases rest with
        | nil =>
            simp only [result, finish, pure, EStateM.pure, Except.ok.injEq] at ran
            simpa [← ran] using read
        | cons byte rest => simp [result, finish] at ran
  · intro read
    have ran := read none 0 []
    rw [List.append_nil] at ran
    rw [ran]
    rfl

theorem Refuses.readAll_append {decoder : Decoder α} {bytes : Bytes} {failure : WireError}
    (refused : decoder.Refuses bytes failure) (rest : Bytes) :
    decoder.readAll (bytes ++ rest) = .error failure := by
  obtain ⟨after, ran⟩ := refused none 0 rest
  simp only [readAll, runOn, Bind.bind, EStateM.bind, Cursor.ofBytes, ran]

end LedgerWire.Decoder
