import LedgerWire.Proofs.Outcome
import LedgerWire.Proofs.RecordFields

/-!
How far a record is read, told by offsets alone. Which bytes a field takes depends on the counts
before it and on nothing else, so there is an outline of the way through the data, and a decoder
that follows it comes to the same end. Outlines are put together as decoders are.
-/

namespace LedgerWire

def numberAt (data : Bytes) (width offset : Nat) : Nat :=
  LittleEndian.decode ((data.drop offset).take width)

theorem numberAt_lt (data : Bytes) (width offset : Nat) :
    numberAt data width offset < Nat.pow 256 width :=
  Nat.lt_of_lt_of_le (LittleEndian.decode_lt _)
    (Nat.pow_le_pow_right (by decide) (List.length_take_le _ _))

def Cursor.within (record : String) (data : Bytes) (offset : Nat) : Cursor :=
  ⟨some record, offset, data.drop offset⟩

theorem Cursor.shortRead_within {record : String} {data : Bytes} {offset : Nat}
    (inside : offset ≤ data.length) (needed : Nat) :
    (within record data offset).shortRead needed =
      .bufferTooSmall record offset needed data.length := by
  have length : offset + (data.length - offset) = data.length := Nat.add_sub_cancel' inside
  simp only [shortRead, within, Cursor.length, List.length_drop, length]

namespace Decoder

section Outlines

variable (record : String) (data : Bytes)

def room (width offset : Nat) : Except WireError Nat :=
  if offset + width ≤ data.length then .ok (offset + width)
  else .error (.bufferTooSmall record offset width data.length)

/-- The offset behind a list whose count stands here. A total beyond 64 bits is taken for the
largest there, which no data has room for. -/
def listEnd (size offset : Nat) : Except WireError Nat := do
  let start ← room record data 8 offset
  room record data (min (numberAt data 8 offset * size) maxSize) start

variable {record data} {size width offset stop : Nat} {failure : WireError}

theorem room_eq_ok_iff :
    room record data width offset = .ok stop ↔
      offset + width ≤ data.length ∧ stop = offset + width := by
  unfold room
  split_ifs with fits <;> simp [fits, eq_comm]

theorem le_length_of_room (reached : room record data width offset = .ok stop) :
    stop ≤ data.length := by
  obtain ⟨fits, rfl⟩ := room_eq_ok_iff.mp reached
  exact fits

theorem room_of_le (fits : offset + width ≤ data.length) :
    room record data width offset = .ok (offset + width) :=
  if_pos fits

theorem room_eq_error_iff : room record data width offset = .error failure ↔
    data.length < offset + width ∧ failure = .bufferTooSmall record offset width data.length := by
  unfold room
  split_ifs with fits
  · exact iff_of_false nofun fun parts => Nat.not_lt.mpr fits parts.1
  · simp [Nat.not_le.mp fits, eq_comm]

theorem listEnd_of_le (fits : offset + 8 ≤ data.length) : listEnd record data size offset =
    room record data (min (numberAt data 8 offset * size) maxSize) (offset + 8) := by
  rw [listEnd, room_of_le fits]
  rfl

theorem le_length_of_listEnd (reached : listEnd record data size offset = .ok stop) :
    stop ≤ data.length := by
  obtain ⟨start, _, reached⟩ := bind_eq_ok_iff.mp reached
  exact le_length_of_room reached

end Outlines

variable {α β : Type} {record : String} {data : Bytes} {size width offset : Nat}

/-- The run ends at the offset that is expected, inside the data, or fails in the way expected. -/
inductive Agrees (record : String) (data : Bytes) :
    Except WireError Nat → EStateM.Result WireError Cursor α → Prop where
  | stops {stop : Nat} {value : α} (inside : stop ≤ data.length) :
      Agrees record data (.ok stop) (.ok value (.within record data stop))
  | fails {failure : WireError} {after : Cursor} :
      Agrees record data (.error failure) (.error failure after)

theorem Agrees.failed {failure : WireError} {result : EStateM.Result WireError Cursor α}
    (agrees : Agrees record data (.error failure) result) :
    ∃ after, result = .error failure after := by
  cases agrees
  exact ⟨_, rfl⟩

theorem Agrees.runOn_eq_error_iff {decoder : Decoder α} {cursor : Cursor} {failure : WireError}
    {expected : Except WireError Nat} (agrees : Agrees record data expected (decoder cursor)) :
    decoder.runOn cursor = .error failure ↔ expected = .error failure := by
  unfold runOn
  generalize decoder cursor = result at agrees ⊢
  cases agrees with
  | stops inside => exact iff_of_false nofun nofun
  | fails => simp only [Except.error.injEq]

def Follows (record : String) (data : Bytes) (decoder : Decoder α)
    (outline : Nat → Except WireError Nat) : Prop :=
  ∀ offset, offset ≤ data.length →
    Agrees record data (outline offset) (decoder (.within record data offset))

theorem Follows.bind {first : Decoder α} {next : α → Decoder β}
    {outline outlineNext : Nat → Except WireError Nat} (follows : Follows record data first outline)
    (followsNext : ∀ value, Follows record data (next value) outlineNext) :
    Follows record data (first >>= next) fun offset => outline offset >>= outlineNext := by
  intro offset inside
  have agrees := follows offset inside
  simp only [Bind.bind, EStateM.bind, Except.bind]
  generalize outline offset = expected, first (.within record data offset) = result at agrees ⊢
  cases agrees with
  | stops inside => exact followsNext _ _ inside
  | fails => exact .fails

theorem Follows.map {decoder : Decoder α} {outline : Nat → Except WireError Nat}
    (follows : Follows record data decoder outline) (convert : α → β) :
    Follows record data (decoder >>= fun value => pure (convert value)) outline := by
  intro offset inside
  have agrees := follows offset inside
  simp only [Bind.bind, EStateM.bind]
  generalize outline offset = expected, decoder (.within record data offset) = result at agrees ⊢
  cases agrees with
  | stops inside => exact .stops inside
  | fails => exact .fails

theorem length_take_drop (fits : offset + width ≤ data.length) :
    ((data.drop offset).take width).length = width := by
  rw [List.length_take, List.length_drop]
  omega

theorem Reads.run_within {decoder : Decoder α} {value : α}
    (read : decoder.Reads ((data.drop offset).take width) value)
    (fits : offset + width ≤ data.length) :
    decoder (.within record data offset) = .ok value (.within record data (offset + width)) := by
  have ran := read (some record) offset ((data.drop offset).drop width)
  rwa [List.take_append_drop, length_take_drop fits, List.drop_drop] at ran

theorem follows_exactly (count : Nat) :
    Follows record data (exactly count) (room record data count) := by
  intro offset inside
  by_cases fits : offset + count ≤ data.length
  · obtain ⟨held, read⟩ := exists_reads (exactly count) (length_take_drop fits)
    rw [room_of_le fits, read.run_within fits]
    exact .stops fits
  · have short : ¬ ((data.drop offset).take count).length = count := by
      rw [List.length_take, List.length_drop]
      omega
    have ran : exactly count (.within record data offset) =
        .error ((Cursor.within record data offset).shortRead count) (.within record data offset) :=
      dif_neg short
    rw [ran, room, if_neg fits, Cursor.shortRead_within inside]
    exact .fails

theorem follows_skip (count : Nat) : Follows record data (skip count) (room record data count) :=
  (follows_exactly count).map fun _ => ()

theorem follows_number (width : Nat) :
    Follows record data (number width) (room record data width) :=
  ((follows_exactly width).map Subtype.val).map LittleEndian.decode

theorem follows_byte : Follows record data byte (room record data 1) :=
  (follows_number 1).map UInt8.ofNat

theorem follows_word64 : Follows record data word64 (room record data 8) :=
  (follows_number 8).map UInt64.ofNat

theorem follows_fixed (kind : FixedBytes.Kind) :
    Follows record data (fixed kind) (room record data kind.size) :=
  (follows_exactly kind.size).map fun held => FixedBytes.mk held.val held.property

theorem reads_numberAt (fits : offset + width ≤ data.length) :
    (number width).Reads ((data.drop offset).take width) (numberAt data width offset) :=
  reads_number_iff.mpr ⟨length_take_drop fits, rfl⟩

theorem count_refused (head : offset + 8 ≤ data.length)
    (crowded : data.length < offset + 8 + min (numberAt data 8 offset * size) maxSize) :
    count size (.within record data offset) =
      .error (.bufferTooSmall record (offset + 8) (min (numberAt data 8 offset * size) maxSize)
        data.length) (.within record data (offset + 8)) := by
  have refused : ¬ (numberAt data 8 offset * size ≤ maxSize ∧
      numberAt data 8 offset * size ≤ (Cursor.within record data (offset + 8)).remaining) := by
    simp only [Cursor.remaining, Cursor.within, List.length_drop]
    omega
  simp only [count, Bind.bind, EStateM.bind, (reads_numberAt head).run_within head,
    if_neg refused, Cursor.shortRead_within head]

theorem exists_counted_within (item : Decoder α) [Spans item size] (bounded : data.length < maxSize)
    (fits : offset + 8 + min (numberAt data 8 offset * size) maxSize ≤ data.length) :
    ∃ values, counted size item (.within record data offset) =
      .ok values (.within record data (offset + 8 + min (numberAt data 8 offset * size) maxSize)) := by
  have small : numberAt data 8 offset * size ≤ maxSize := by omega
  rw [Nat.min_eq_left small] at fits ⊢
  have head : offset + 8 ≤ data.length := Nat.le_trans (Nat.le_add_right _ _) fits
  obtain ⟨values, readItems⟩ :=
    exists_reads (times (numberAt data 8 offset) item) (length_take_drop fits)
  have read := (reads_numberAt head).counted small readItems
  rw [← List.drop_drop, ← List.take_add] at read
  rw [Nat.add_assoc] at fits ⊢
  exact ⟨values, read.run_within fits⟩

theorem follows_counted (item : Decoder α) [Spans item size] (bounded : data.length < maxSize) :
    Follows record data (counted size item) (listEnd record data size) := by
  intro offset inside
  by_cases head : offset + 8 ≤ data.length
  · rw [listEnd_of_le head]
    by_cases fits : offset + 8 + min (numberAt data 8 offset * size) maxSize ≤ data.length
    · obtain ⟨values, ran⟩ := exists_counted_within item bounded fits
      rw [room_of_le fits, ran]
      exact .stops fits
    · simp only [counted, Bind.bind, EStateM.bind, count_refused head (Nat.not_le.mp fits), room,
        if_neg fits]
      exact .fails
  · have agrees : Agrees record data _ (number 8 (.within record data offset)) :=
      follows_number 8 offset inside
    rw [room, if_neg head] at agrees
    obtain ⟨after, ran⟩ := agrees.failed
    simp only [counted, count, listEnd, room, if_neg head, Bind.bind, EStateM.bind, ran]
    exact .fails

/-- An accepted count leaves room for its elements, so none of them fails to be read. -/
theorem exists_times_of_count {elements : Nat} {cursor after : Cursor} (item : Decoder α)
    [Spans item size] (accepted : count size cursor = .ok elements after) :
    elements * size ≤ maxSize ∧ elements * size ≤ after.remaining ∧
      ∃ values last, times elements item after = .ok values last := by
  simp only [count, Bind.bind, EStateM.bind] at accepted
  cases ran : number 8 cursor with
  | error failure between => simp only [ran, reduceCtorEq] at accepted
  | ok found between =>
      simp only [ran] at accepted
      split at accepted
      · rename_i room
        injection accepted with foundEq afterEq
        subst foundEq afterEq
        have taken : (between.rest.take (found * size)).length = found * size :=
          List.length_take_of_le room.2
        obtain ⟨values, read⟩ := exists_reads (times found item) taken
        have readHere := read between.record between.offset (between.rest.drop (found * size))
        rw [List.take_append_drop] at readHere
        exact ⟨room.1, room.2, values, _, readHere⟩
      · cases accepted

end Decoder

end LedgerWire
