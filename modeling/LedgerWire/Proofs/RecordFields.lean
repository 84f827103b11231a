import LedgerWire.Proofs.Decoder

/-!
The fields of records: words of a fixed width, and lists behind a count of their elements. A decoder
that spans a width takes whatever bytes stand there; a count is accepted only with room for its
elements, so these cannot run short.
-/

namespace LedgerWire

namespace Decoder

variable {α β : Type}

theorem reads_number_iff_encode {width value : Nat} {taken : Bytes} :
    (number width).Reads taken value ↔
      value < Nat.pow 256 width ∧ taken = LittleEndian.encode width value := by
  rw [reads_number_iff]
  constructor
  · rintro ⟨rfl, rfl⟩
    exact ⟨LittleEndian.decode_lt taken, (LittleEndian.encode_decode taken).symm⟩
  · rintro ⟨bound, rfl⟩
    exact ⟨LittleEndian.length_encode width value,
      (LittleEndian.decode_encode width value bound).symm⟩

theorem reads_word_iff {Word : Type} (width : Nat) {ofNat : Nat → Word} {toNat : Word → Nat}
    (bound : ∀ word, toNat word < Nat.pow 256 width) (ofNat_toNat : ∀ word, ofNat (toNat word) = word)
    (toNat_ofNat : ∀ value, value < Nat.pow 256 width → toNat (ofNat value) = value)
    {taken : Bytes} {word : Word} :
    (number width >>= fun value => pure (ofNat value)).Reads taken word ↔
      taken = LittleEndian.encode width (toNat word) := by
  simp only [reads_map_iff, reads_number_iff_encode]
  constructor
  · rintro ⟨value, ⟨small, rfl⟩, rfl⟩
    rw [toNat_ofNat value small]
  · rintro rfl
    exact ⟨toNat word, ⟨bound word, rfl⟩, (ofNat_toNat word).symm⟩

instance local_word32 : Local word32 :=
  inferInstanceAs (Local (number 4 >>= fun value => pure (UInt32.ofNat value)))

theorem reads_word32_iff {taken : Bytes} {word : UInt32} :
    word32.Reads taken word ↔ taken = LittleEndian.encode 4 word.toNat :=
  reads_word_iff 4 UInt32.toNat_lt (fun _ => UInt32.ofNat_toNat)
    fun _ small => UInt32.toNat_ofNat_of_lt' small

instance local_word64 : Local word64 :=
  inferInstanceAs (Local (number 8 >>= fun value => pure (UInt64.ofNat value)))

theorem reads_word64_iff {taken : Bytes} {word : UInt64} :
    word64.Reads taken word ↔ taken = LittleEndian.encode 8 word.toNat :=
  reads_word_iff 8 UInt64.toNat_lt (fun _ => UInt64.ofNat_toNat)
    fun _ small => UInt64.toNat_ofNat_of_lt' small

instance local_int64 : Local int64 :=
  inferInstanceAs (Local (word64 >>= fun word => pure word.toInt64))

theorem reads_int64_iff {taken : Bytes} {value : Int64} :
    int64.Reads taken value ↔ taken = LittleEndian.encode 8 value.toUInt64.toNat := by
  change (word64 >>= fun word => pure word.toInt64).Reads taken value ↔ _
  simp only [reads_map_iff, reads_word64_iff]
  constructor
  · rintro ⟨word, rfl, rfl⟩
    rfl
  · rintro rfl
    exact ⟨value.toUInt64, rfl, rfl⟩

theorem skip_eq (count : Nat) : skip count = (exactly count >>= fun _ => pure ()) := rfl

instance local_skip (count : Nat) : Local (skip count) := by
  rw [skip_eq]
  infer_instance

theorem reads_skip_iff {count : Nat} {taken : Bytes} {value : Unit} :
    (skip count).Reads taken value ↔ taken.length = count := by
  rw [skip_eq]
  simp only [reads_map_iff, reads_exactly_iff]
  constructor
  · rintro ⟨held, rfl, _⟩
    exact held.property
  · intro size
    exact ⟨⟨taken, size⟩, rfl, trivial⟩

/-- Reads each value from what the writer makes of it, and from nothing else. -/
class ReadsBack (decoder : Decoder α) (write : outParam (α → Bytes)) : Prop where
  reads_iff : ∀ {part value}, decoder.Reads part value ↔ part = write value

theorem ReadsBack.reads_iff_fits {decoder : Decoder α} {write : α → Bytes}
    [readsBack : ReadsBack decoder write] (part : Bytes) (value : α) :
    decoder.Reads part value ↔ True ∧ part = write value := by
  rw [true_and, readsBack.reads_iff]

instance readsBack_byte : ReadsBack byte fun value => [value] where
  reads_iff := reads_byte_iff

instance readsBack_word32 : ReadsBack word32 fun word => LittleEndian.encode 4 word.toNat where
  reads_iff := reads_word32_iff

instance readsBack_word64 : ReadsBack word64 fun word => LittleEndian.encode 8 word.toNat where
  reads_iff := reads_word64_iff

instance readsBack_int64 :
    ReadsBack int64 fun value => LittleEndian.encode 8 value.toUInt64.toNat where
  reads_iff := reads_int64_iff

instance readsBack_fixed (kind : FixedBytes.Kind) : ReadsBack (fixed kind) FixedBytes.bytes where
  reads_iff := reads_fixed_iff

theorem reads_bind_write_iff {field : Decoder α} {next : α → Decoder β} {Fits : α → Prop}
    {write : α → Bytes} [Local field] [∀ value, Local (next value)]
    (reads_field : ∀ part value, field.Reads part value ↔ Fits value ∧ part = write value)
    {taken : Bytes} {result : β} : (field >>= next).Reads taken result ↔
      ∃ value back, Fits value ∧ taken = write value ++ back ∧ (next value).Reads back result := by
  simp only [reads_bind_iff, reads_field]
  constructor
  · rintro ⟨_, back, value, rfl, ⟨fits, rfl⟩, readNext⟩
    exact ⟨value, back, fits, rfl, readNext⟩
  · rintro ⟨value, back, fits, rfl, readNext⟩
    exact ⟨_, back, value, rfl, ⟨fits, rfl⟩, readNext⟩

theorem reads_field_iff {field : Decoder α} {next : α → Decoder β} {write : α → Bytes}
    [Local field] [ReadsBack field write] [∀ value, Local (next value)] {taken : Bytes}
    {result : β} : (field >>= next).Reads taken result ↔
      ∃ value back, taken = write value ++ back ∧ (next value).Reads back result := by
  simp only [reads_bind_write_iff ReadsBack.reads_iff_fits, true_and]

theorem reads_last_field_iff {field : Decoder α} {convert : α → β} {write : α → Bytes}
    [Local field] [readsBack : ReadsBack field write] {taken : Bytes} {result : β} :
    (field >>= fun value => pure (convert value)).Reads taken result ↔
      ∃ value, taken = write value ∧ result = convert value := by
  simp only [reads_map_iff, readsBack.reads_iff]

theorem reads_skip_bind_iff {count : Nat} {next : Unit → Decoder β} [Local (next ())]
    {taken : Bytes} {result : β} : (skip count >>= next).Reads taken result ↔
      ∃ gap back, gap.length = count ∧ taken = gap ++ back ∧ (next ()).Reads back result := by
  simp only [reads_bind_iff, reads_skip_iff]
  constructor
  · rintro ⟨gap, back, _, rfl, size, readNext⟩
    exact ⟨gap, back, size, rfl, readNext⟩
  · rintro ⟨gap, back, size, rfl, readNext⟩
    exact ⟨gap, back, (), rfl, size, readNext⟩

theorem reads_ofExcept_bind_iff {outcome : Except WireError α} {next : α → Decoder β}
    [∀ value, Local (next value)] {taken : Bytes} {result : β} :
    (ofExcept outcome >>= next).Reads taken result ↔
      ∃ value, outcome = .ok value ∧ (next value).Reads taken result := by
  simp only [reads_bind_iff, reads_ofExcept_iff]
  constructor
  · rintro ⟨_, back, value, rfl, ⟨rfl, found⟩, readNext⟩
    exact ⟨value, found, readNext⟩
  · rintro ⟨value, found, readNext⟩
    exact ⟨[], taken, value, rfl, ⟨rfl, found⟩, readNext⟩

/-- What is read does not depend on where it stands, so the position matters to failures only. -/
theorem local_position_bind {next : Nat → Decoder α} [∀ offset, Local (next offset)]
    (steady : ∀ offset other bytes value,
      (next offset).Reads bytes value → (next other).Reads bytes value) :
    Local (position >>= next) where
  taken := by
    intro record offset input value after ran
    have ranHere : next offset ⟨record, offset, input⟩ = .ok value after := ran
    obtain ⟨bytes, rest, inputEq, afterEq, read⟩ := Local.taken ranHere
    refine ⟨bytes, rest, inputEq, afterEq, ?_⟩
    intro record other rest
    exact steady offset other bytes value read record other rest

theorem reads_position_bind_iff {next : Nat → Decoder α} [∀ offset, Local (next offset)]
    {bytes : Bytes} {value : α} : (position >>= next).Reads bytes value ↔
      ∀ offset, (next offset).Reads bytes value := by
  constructor
  · intro read offset
    have ran : next offset ⟨none, offset, bytes ++ []⟩ = .ok value ⟨none, offset + bytes.length, []⟩ :=
      read none offset []
    obtain ⟨taken, rest, inputEq, afterEq, readTaken⟩ := Local.taken ran
    injection afterEq with _ _ restEq
    subst restEq
    rw [List.append_cancel_right inputEq]
    exact readTaken
  · intro read record offset rest
    exact read offset record offset rest

/-- Takes any bytes of this width, and never more or fewer. -/
class Spans (decoder : Decoder α) (width : outParam Nat) : Prop where
  exists_reads : ∀ bytes : Bytes, bytes.length = width → ∃ value, decoder.Reads bytes value

theorem exists_reads (decoder : Decoder α) {width : Nat} [spans : Spans decoder width]
    {bytes : Bytes} (size : bytes.length = width) : ∃ value, decoder.Reads bytes value :=
  spans.exists_reads bytes size

theorem Reads.length_eq {decoder : Decoder α} {width : Nat} [Spans decoder width] {bytes : Bytes}
    {value : α} (read : decoder.Reads bytes value) : bytes.length = width := by
  rcases Nat.lt_or_ge bytes.length width with short | enough
  · let more : Bytes := List.replicate (width - bytes.length) 0
    have size : (bytes ++ more).length = width := by
      rw [List.length_append, List.length_replicate]
      omega
    obtain ⟨other, readLonger⟩ := exists_reads decoder size
    have same : bytes ++ more = (bytes ++ more) ++ [] := (List.append_nil _).symm
    rw [(read.unique readLonger same).2.1, size]
  · have size : (bytes.take width).length = width := List.length_take_of_le enough
    obtain ⟨other, readShorter⟩ := exists_reads decoder size
    have same : bytes ++ [] = bytes.take width ++ bytes.drop width := by
      rw [List.append_nil, List.take_append_drop]
    rw [(read.unique readShorter same).2.1, size]

instance spans_pure (value : α) : Spans (pure value : Decoder α) 0 where
  exists_reads := by
    intro bytes size
    exact ⟨value, reads_pure_iff.mpr ⟨List.length_eq_zero_iff.mp size, rfl⟩⟩

instance spans_bind (first : Decoder α) (next : α → Decoder β) {width nextWidth : Nat}
    [Spans first width] [∀ middle, Spans (next middle) nextWidth] :
    Spans (first >>= next) (width + nextWidth) where
  exists_reads := by
    intro bytes size
    have frontSize : (bytes.take width).length = width := by
      rw [List.length_take]
      omega
    have backSize : (bytes.drop width).length = nextWidth := by
      rw [List.length_drop]
      omega
    obtain ⟨middle, read⟩ := exists_reads first frontSize
    obtain ⟨value, readNext⟩ := exists_reads (next middle) backSize
    refine ⟨value, ?_⟩
    rw [← List.take_append_drop width bytes]
    exact read.bind readNext

instance spans_exactly (count : Nat) : Spans (exactly count) count where
  exists_reads bytes size := ⟨⟨bytes, size⟩, reads_exactly_iff.mpr rfl⟩

instance spans_skip (count : Nat) : Spans (skip count) count where
  exists_reads _ size := ⟨(), reads_skip_iff.mpr size⟩

instance spans_number (width : Nat) : Spans (number width) width where
  exists_reads _ size := ⟨_, reads_number_iff.mpr ⟨size, rfl⟩⟩

instance spans_byte : Spans byte 1 :=
  inferInstanceAs (Spans (number 1 >>= fun value => pure (UInt8.ofNat value)) (1 + 0))

instance spans_word32 : Spans word32 4 :=
  inferInstanceAs (Spans (number 4 >>= fun value => pure (UInt32.ofNat value)) (4 + 0))

instance spans_word64 : Spans word64 8 :=
  inferInstanceAs (Spans (number 8 >>= fun value => pure (UInt64.ofNat value)) (8 + 0))

instance spans_fixed (kind : FixedBytes.Kind) : Spans (fixed kind) kind.size where
  exists_reads bytes size := ⟨⟨bytes, size⟩, reads_fixed_iff.mpr rfl⟩

instance spans_times (count : Nat) (item : Decoder α) {width : Nat} [Spans item width] :
    Spans (times count item) (count * width) := by
  induction count with
  | zero =>
      rw [Nat.zero_mul]
      exact spans_pure []
  | succ count ih =>
      rw [times_succ, Nat.succ_mul, Nat.add_comm]
      infer_instance

def counted (elementSize : Nat) (item : Decoder α) : Decoder (List α) :=
  count elementSize >>= fun elements => times elements item

theorem count_append {size elements : Nat} {front rest : Bytes}
    (read : (number 8).Reads front elements) (bound : elements * size ≤ maxSize)
    (room : elements * size ≤ rest.length) (record : Option String) (offset : Nat) :
    count size ⟨record, offset, front ++ rest⟩ =
      .ok elements ⟨record, offset + front.length, rest⟩ := by
  simp only [count, Bind.bind, EStateM.bind, read record offset rest]
  exact if_pos ⟨bound, room⟩

theorem count_taken {size elements offset : Nat} {record : Option String} {input : Bytes}
    {after : Cursor} (ran : count size ⟨record, offset, input⟩ = .ok elements after) :
    ∃ front rest, input = front ++ rest ∧ after = ⟨record, offset + front.length, rest⟩ ∧
      (number 8).Reads front elements ∧ elements * size ≤ maxSize := by
  simp only [count, Bind.bind, EStateM.bind] at ran
  cases number_ran : number 8 ⟨record, offset, input⟩ with
  | error failure between => simp only [number_ran, reduceCtorEq] at ran
  | ok found between =>
      obtain ⟨front, rest, rfl, rfl, read⟩ := Local.taken number_ran
      simp only [number_ran] at ran
      split at ran
      · rename_i accepted
        injection ran with foundEq cursorEq
        subst foundEq cursorEq
        exact ⟨front, rest, rfl, rfl, read, accepted.1⟩
      · cases ran

variable {size : Nat} {item : Decoder α}

theorem Reads.counted [Spans item size] {elements : Nat} {front back : Bytes} {values : List α}
    (read : (number 8).Reads front elements) (bound : elements * size ≤ maxSize)
    (readItems : (times elements item).Reads back values) :
    (counted size item).Reads (front ++ back) values := by
  intro record offset rest
  have room : elements * size ≤ (back ++ rest).length := by
    rw [List.length_append, readItems.length_eq]
    exact Nat.le_add_right _ _
  simp only [Decoder.counted, Bind.bind, EStateM.bind, List.append_assoc,
    count_append read bound room record offset, readItems record (offset + front.length) rest,
    List.length_append, Nat.add_assoc]

theorem counted_taken [Local item] {offset : Nat} {record : Option String} {input : Bytes}
    {values : List α} {after : Cursor}
    (ran : counted size item ⟨record, offset, input⟩ = .ok values after) :
    ∃ elements front back rest, input = front ++ back ++ rest ∧
      after = ⟨record, offset + (front ++ back).length, rest⟩ ∧
      (number 8).Reads front elements ∧ elements * size ≤ maxSize ∧
      (times elements item).Reads back values := by
  simp only [counted, Bind.bind, EStateM.bind] at ran
  split at ran
  · rename_i elements between ranCount
    obtain ⟨front, left, rfl, rfl, read, bound⟩ := count_taken ranCount
    obtain ⟨back, rest, rfl, rfl, readItems⟩ := Local.taken ran
    exact ⟨elements, front, back, rest, by simp, by simp [Nat.add_assoc], read, bound, readItems⟩
  · cases ran

instance local_counted [Local item] [Spans item size] : Local (counted size item) where
  taken := by
    intro record offset input values after ran
    obtain ⟨elements, front, back, rest, rfl, rfl, read, bound, readItems⟩ := counted_taken ran
    exact ⟨front ++ back, rest, rfl, rfl, read.counted bound readItems⟩

theorem reads_counted_iff [Local item] [Spans item size] {taken : Bytes} {values : List α} :
    (counted size item).Reads taken values ↔
      ∃ elements front back, taken = front ++ back ∧ (number 8).Reads front elements ∧
        elements * size ≤ maxSize ∧ (times elements item).Reads back values := by
  constructor
  · intro read
    have ran := read none 0 []
    rw [List.append_nil] at ran
    obtain ⟨elements, front, back, rest, takenEq, afterEq, readCount, bound, readItems⟩ :=
      counted_taken ran
    injection afterEq with _ _ restEq
    subst restEq
    exact ⟨elements, front, back, by rwa [List.append_nil] at takenEq, readCount, bound, readItems⟩
  · rintro ⟨elements, front, back, rfl, readCount, bound, readItems⟩
    exact readCount.counted bound readItems

def writeCounted (write : α → Bytes) (values : List α) : Bytes :=
  LittleEndian.encode 8 values.length ++ values.flatMap write

theorem length_writeCounted {write : α → Bytes}
    (length_write : ∀ value, (write value).length = size) (values : List α) :
    (writeCounted write values).length = 8 + values.length * size := by
  simp only [writeCounted, List.length_append, LittleEndian.length_encode, List.length_flatMap,
    length_write, List.map_const', List.sum_replicate_nat]

theorem ReadsBack.length_write (item : Decoder α) {write : α → Bytes}
    [readsBack : ReadsBack item write] [Spans item size] (value : α) :
    (write value).length = size :=
  Reads.length_eq (readsBack.reads_iff.mpr rfl)

theorem reads_counted_write_iff [Local item] [Spans item size] (positive : 0 < size)
    {Fits : α → Prop} {write : α → Bytes}
    (reads_item : ∀ part value, item.Reads part value ↔ Fits value ∧ part = write value)
    (taken : Bytes) (values : List α) : (counted size item).Reads taken values ↔
      (values.length * size ≤ maxSize ∧ ∀ value ∈ values, Fits value) ∧
        taken = writeCounted write values := by
  simp only [reads_counted_iff, reads_number_iff_encode, reads_times_write_iff reads_item,
    writeCounted]
  constructor
  · rintro ⟨_, _, _, rfl, ⟨_, rfl⟩, bound, rfl, fits, rfl⟩
    exact ⟨⟨bound, fits⟩, rfl⟩
  · rintro ⟨⟨bound, fits⟩, rfl⟩
    have small : values.length < Nat.pow 256 8 :=
      Nat.lt_of_le_of_lt (Nat.le_mul_of_pos_right _ positive)
        (Nat.lt_of_le_of_lt bound (by decide))
    exact ⟨_, _, _, rfl, ⟨small, rfl⟩, bound, rfl, fits, rfl⟩

theorem reads_counted_field_iff {write : α → Bytes} [Local item] [Spans item size]
    [ReadsBack item write] (positive : 0 < size) (taken : Bytes) (values : List α) :
    (counted size item).Reads taken values ↔
      values.length * size ≤ maxSize ∧ taken = writeCounted write values := by
  simp [reads_counted_write_iff positive ReadsBack.reads_iff_fits]

end Decoder

variable {α : Type} {record : String} {minimum : Nat} {decoder : Decoder α} {data : Bytes}

theorem decodeRecord_eq_ok_iff [decoder.Local] {value : α} :
    decodeRecord record minimum decoder data = .ok value ↔ minimum ≤ data.length ∧
      ∃ taken rest, data = taken ++ rest ∧ decoder.Reads taken value := by
  unfold decodeRecord Decoder.runOn Cursor.ofBytes
  split
  · rename_i small
    exact iff_of_false (by simp) fun parts => Nat.not_lt.mpr parts.1 small
  · rename_i enough
    rw [Nat.not_lt] at enough
    simp only [enough, true_and]
    constructor
    · intro ran
      cases result : decoder ⟨some record, 0, data⟩ with
      | error failure after => simp only [result, reduceCtorEq] at ran
      | ok found after =>
          obtain ⟨taken, rest, rfl, _, read⟩ := Decoder.Local.taken result
          simp only [result, Except.ok.injEq] at ran
          exact ⟨taken, rest, rfl, by rwa [ran] at read⟩
    · rintro ⟨taken, rest, rfl, read⟩
      rw [read (some record) 0 rest]

theorem decodeRecord_eq_ok_iff_take {width : Nat} {value : α} [decoder.Local] [decoder.Spans width]
    (room : minimum ≤ data.length → width ≤ data.length) :
    decodeRecord record minimum decoder data = .ok value ↔
      minimum ≤ data.length ∧ decoder.Reads (data.take width) value := by
  rw [decodeRecord_eq_ok_iff, and_congr_right_iff]
  intro enough
  constructor
  · rintro ⟨taken, rest, rfl, read⟩
    rwa [List.take_left' read.length_eq]
  · intro read
    exact ⟨_, data.drop width, (List.take_append_drop width data).symm, read⟩

theorem exists_decodeRecord (record : String) (decoder : Decoder α) {width : Nat} [decoder.Local]
    [decoder.Spans width] (enough : minimum ≤ data.length) (room : width ≤ data.length) :
    ∃ value, decodeRecord record minimum decoder data = .ok value := by
  have size : (data.take width).length = width := List.length_take_of_le room
  obtain ⟨value, read⟩ := Decoder.exists_reads decoder size
  exact ⟨value, (decodeRecord_eq_ok_iff_take fun _ => room).mpr ⟨enough, read⟩⟩

/-- A record of a fixed width that has room for it fails for its size only. -/
theorem decodeRecord_eq_error_iff {width : Nat} {failure : WireError} [decoder.Local]
    [decoder.Spans width] (room : minimum ≤ data.length → width ≤ data.length) :
    decodeRecord record minimum decoder data = .error failure ↔
      data.length < minimum ∧ failure = .bufferTooSmall record 0 minimum data.length := by
  rcases Nat.lt_or_ge data.length minimum with small | enough
  · rw [decodeRecord, if_pos small, Except.error.injEq, eq_comm]
    exact (and_iff_right small).symm
  · obtain ⟨value, decoded⟩ := exists_decodeRecord record decoder enough (room enough)
    exact iff_of_false (by simp [decoded]) fun parts => Nat.not_lt.mpr enough parts.1

end LedgerWire
