import LedgerWire.Binary64
import LedgerWire.Proofs.LengthCodec

/-!
Runs of a reader: any operations in any order, whether they succeed or fail. `Performs` says by
offsets alone what an operation does in a buffer that has been read up to some position. The cursor
and the indexed reader both do that, so they stay together for a whole run.
-/

namespace LedgerWire

def Cursor.reached (record : Option String) (buffer : Bytes) (position : Nat) : Cursor :=
  ⟨record, position, buffer.drop position⟩

namespace ReaderRun

inductive Answer where
  | nothing
  | bytes (taken : Bytes)
  | byte (value : UInt8)
  | word32 (value : UInt32)
  | word64 (value : UInt64)
  | int64 (value : Int64)
  | float (value : Binary64)
  | size (value : Nat)

inductive Field where
  | skip (count : UInt64)
  | bytes (count : UInt64)
  | array (width : UInt64)
  | byte
  | word32
  | word64
  | int64
  | float

inductive Operation where
  | field (field : Field)
  | compactLength
  | count (elementSize : UInt64)
  | finish

namespace Field

def width : Field → UInt64
  | skip count | bytes count | array count => count
  | byte => 1
  | word32 => 4
  | word64 | int64 | float => 8

def answer (field : Field) (taken : Bytes) : Answer :=
  match field with
  | skip _ => .nothing
  | bytes _ | array _ => .bytes taken
  | byte => .byte (UInt8.ofNat (LittleEndian.decode taken))
  | word32 => .word32 (UInt32.ofNat (LittleEndian.decode taken))
  | word64 => .word64 (UInt64.ofNat (LittleEndian.decode taken))
  | int64 => .int64 (UInt64.ofNat (LittleEndian.decode taken)).toInt64
  | float => .float ⟨UInt64.ofNat (LittleEndian.decode taken)⟩

def decoder : Field → Decoder Answer
  | skip count => do
      Decoder.skip count.toNat
      return .nothing
  | bytes count => return .bytes (← Decoder.bytes count.toNat)
  | array width => return .bytes (← Decoder.exactly width.toNat).val
  | byte => return .byte (← Decoder.byte)
  | word32 => return .word32 (← Decoder.word32)
  | word64 => return .word64 (← Decoder.word64)
  | int64 => return .int64 (← Decoder.int64)
  | float => return .float ⟨← Decoder.word64⟩

def action (field : Field) : IndexedReader.Action Answer :=
  match field with
  | skip count | bytes count => return field.answer (← IndexedReader.bytes count)
  | _ => return field.answer (← IndexedReader.array field.width)

theorem decoder_eq (field : Field) :
    field.decoder = do return field.answer (← Decoder.exactly field.width.toNat).val := by
  cases field with
  | skip count =>
      have skip_eq : Decoder.skip count.toNat = Decoder.exactly count.toNat >>= fun _ => pure () :=
        rfl
      simp only [decoder, skip_eq, answer, width, bind_assoc, pure_bind]
  | bytes count => simp only [decoder, answer, width, Decoder.bytes, bind_assoc, pure_bind]
  | array width => rfl
  | _ =>
      simp only [decoder, answer, Decoder.byte, Decoder.word32, Decoder.word64, Decoder.int64,
        Decoder.number, Decoder.bytes, bind_assoc, pure_bind]
      rfl

end Field

namespace Operation

def decoder : Operation → Decoder Answer
  | .field kind => kind.decoder
  | compactLength => return .size (← Decoder.compactLength)
  | count elementSize => return .size (← Decoder.count elementSize.toNat)
  | finish => do
      Decoder.finish
      return .nothing

def action : Operation → IndexedReader.Action Answer
  | .field kind => kind.action
  | compactLength => return .size (← IndexedReader.compactLength).toNat
  | count elementSize => return .size (← IndexedReader.count elementSize).toNat
  | finish => do
      IndexedReader.finish
      return .nothing

end Operation

open IndexedReader (announced bind_of_ok bind_of_error)

/-- How the operation ends where a buffer has been read up to the position, and how far it is read
then. Only a count that there is no room for fails behind where it started. -/
inductive Performs (record : Option String) (buffer : Bytes) (position : Nat) :
    Operation → Except WireError Answer → Nat → Prop where
  | field {field : Field} : position + field.width.toNat ≤ buffer.length →
      Performs record buffer position (.field field)
        (.ok (field.answer (buffer.extract position (position + field.width.toNat))))
        (position + field.width.toNat)
  | shortField {field : Field} : buffer.length < position + field.width.toNat →
      Performs record buffer position (.field field)
        (.error (shortage record buffer position field.width.toNat)) position
  | length {length next : Nat} : CompactLength.LengthAt buffer position (.ok (length, next)) →
      Performs record buffer position .compactLength (.ok (.size length)) next
  | noLength {failure : WireError} : CompactLength.LengthAt buffer position (.error failure) →
      Performs record buffer position .compactLength (.error failure) position
  | count {size : UInt64} :
      position + 8 + announced buffer position * size.toNat ≤ buffer.length →
      Performs record buffer position (.count size) (.ok (.size (announced buffer position)))
        (position + 8)
  | shortCount {size : UInt64} : buffer.length < position + 8 →
      Performs record buffer position (.count size) (.error (shortage record buffer position 8))
        position
  | crowded {size : UInt64} : position + 8 ≤ buffer.length →
      buffer.length < position + 8 + announced buffer position * size.toNat →
      Performs record buffer position (.count size)
        (.error (shortage record buffer (position + 8)
          (min (announced buffer position * size.toNat) Decoder.maxSize))) (position + 8)
  | finished : position = buffer.length →
      Performs record buffer position .finish (.ok .nothing) position
  | trailing : position < buffer.length →
      Performs record buffer position .finish
        (.error (.trailingBytes position (buffer.length - position))) position

variable {record : Option String} {buffer : Bytes} {position next : Nat}
variable {operation : Operation} {outcome : Except WireError Answer}

theorem exists_performs (record : Option String) (inside : position ≤ buffer.length)
    (operation : Operation) :
    ∃ outcome next, Performs record buffer position operation outcome next := by
  cases operation with
  | field field =>
      by_cases room : position + field.width.toNat ≤ buffer.length
      · exact ⟨_, _, .field room⟩
      · exact ⟨_, _, .shortField (Nat.not_le.mp room)⟩
  | compactLength =>
      obtain ⟨outcome, stands⟩ := CompactLength.exists_lengthAt buffer position
      cases outcome with
      | ok found => exact ⟨_, _, .length stands⟩
      | error failure => exact ⟨_, _, .noLength stands⟩
  | count size =>
      by_cases head : position + 8 ≤ buffer.length
      · by_cases room : position + 8 + announced buffer position * size.toNat ≤ buffer.length
        · exact ⟨_, _, .count room⟩
        · exact ⟨_, _, .crowded head (Nat.not_le.mp room)⟩
      · exact ⟨_, _, .shortCount (Nat.not_le.mp head)⟩
  | finish =>
      rcases Nat.eq_or_lt_of_le inside with ended | more
      · exact ⟨_, _, .finished ended⟩
      · exact ⟨_, _, .trailing more⟩

theorem Performs.forward (performs : Performs record buffer position operation outcome next)
    (inside : position ≤ buffer.length) : position ≤ next ∧ next ≤ buffer.length := by
  cases performs with
  | field room => omega
  | length stands =>
      obtain ⟨_, _, _, _, _⟩ := CompactLength.consumed_of_decodeAt stands.decodeAt_eq
      omega
  | count room => omega
  | crowded head _ => omega
  | _ => omega

def Operation.failedAt (buffer : Bytes) (position : Nat) : Operation → Nat
  | count _ => if position + 8 ≤ buffer.length then position + 8 else position
  | _ => position

theorem Performs.next_of_failed {failure : WireError}
    (performs : Performs record buffer position operation (.error failure) next) :
    next = operation.failedAt buffer position := by
  cases performs with
  | shortCount short => exact (if_neg (Nat.not_le.mpr short)).symm
  | crowded head _ => exact (if_pos head).symm
  | _ => rfl

def ended {ε σ : Type} (outcome : Except ε Answer) (after : σ) : EStateM.Result ε σ Answer :=
  match outcome with
  | .ok answer => .ok answer after
  | .error failure => .error failure after

theorem shortRead_reached (inside : position ≤ buffer.length) (needed : Nat) :
    (Cursor.reached record buffer position).shortRead needed =
      shortage record buffer position needed := by
  cases record with
  | none =>
      simp only [Cursor.shortRead, Cursor.reached, Cursor.remaining, shortage, List.length_drop]
  | some record =>
      simp only [Cursor.shortRead, Cursor.reached, Cursor.length, shortage, List.length_drop,
        Nat.add_sub_cancel' inside]

theorem exactly_of_room (record : Option String) {count : Nat}
    (room : position + count ≤ buffer.length) :
    ∃ size, Decoder.exactly count (Cursor.reached record buffer position) =
      .ok ⟨buffer.extract position (position + count), size⟩
        (Cursor.reached record buffer (position + count)) := by
  have taken : (buffer.drop position).take count = buffer.extract position (position + count) := by
    rw [List.extract_eq_take_drop, Nat.add_sub_cancel_left]
  have size : ((buffer.drop position).take count).length = count := by
    rw [List.length_take, List.length_drop]
    omega
  have behind : (Cursor.reached record buffer position).advance count =
      Cursor.reached record buffer (position + count) := by
    simp only [Cursor.advance, Cursor.reached, List.drop_drop]
  refine ⟨taken ▸ size, ?_⟩
  have ran : Decoder.exactly count (Cursor.reached record buffer position) =
      .ok ⟨(buffer.drop position).take count, size⟩
        ((Cursor.reached record buffer position).advance count) := dif_pos size
  simp only [ran, behind, taken]

theorem exactly_of_short (record : Option String) (inside : position ≤ buffer.length) {count : Nat}
    (short : buffer.length < position + count) :
    Decoder.exactly count (Cursor.reached record buffer position) =
      .error (shortage record buffer position count) (Cursor.reached record buffer position) := by
  have missing : ¬ ((buffer.drop position).take count).length = count := by
    rw [List.length_take, List.length_drop]
    omega
  rw [← shortRead_reached inside]
  exact dif_neg missing

theorem decoder_count_of_head (head : position + 8 ≤ buffer.length) (size : Nat) :
    Decoder.count size (Cursor.reached record buffer position) =
      if announced buffer position * size ≤ Decoder.maxSize ∧
          announced buffer position * size ≤ buffer.length - (position + 8) then
        .ok (announced buffer position) (Cursor.reached record buffer (position + 8))
      else .error (shortage record buffer (position + 8)
          (min (announced buffer position * size) Decoder.maxSize))
        (Cursor.reached record buffer (position + 8)) := by
  obtain ⟨_, ran⟩ := exactly_of_room record head
  simp only [Decoder.count, Decoder.number, Decoder.bytes, bind, EStateM.bind, ran, pure,
    EStateM.pure]
  rw [shortRead_reached head]
  simp only [Cursor.remaining, Cursor.reached, List.length_drop]
  rfl

theorem decoder_compactLength_reached :
    Decoder.compactLength (Cursor.reached record buffer position) =
      match CompactLength.decodeAt buffer position with
      | .ok (length, next) => .ok length (Cursor.reached record buffer next)
      | .error failure => .error failure (Cursor.reached record buffer position) := by
  simp only [Decoder.compactLength, CompactLength.decodeAt, Cursor.reached]
  cases CompactLength.decodeGroups CompactLength.maxGroups (buffer.drop position) with
  | ok reading => simp only [Cursor.advance, List.drop_drop]
  | error fault => rfl

theorem Performs.decoder_eq (performs : Performs record buffer position operation outcome next)
    (bounded : buffer.length < 2 ^ 63) (inside : position ≤ buffer.length) :
    operation.decoder (Cursor.reached record buffer position) =
      ended outcome (Cursor.reached record buffer next) := by
  cases performs with
  | @field field room =>
      obtain ⟨size, ran⟩ := exactly_of_room record room
      simp only [Operation.decoder, Field.decoder_eq, bind, EStateM.bind, ran]
      rfl
  | @shortField field short =>
      have ran := exactly_of_short record inside short
      simp only [Operation.decoder, Field.decoder_eq, bind, EStateM.bind, ran]
      rfl
  | length stands =>
      simp only [Operation.decoder, bind, EStateM.bind, decoder_compactLength_reached,
        stands.decodeAt_eq]
      rfl
  | noLength stands =>
      simp only [Operation.decoder, bind, EStateM.bind, decoder_compactLength_reached,
        stands.decodeAt_eq]
      rfl
  | @count size room =>
      have head := Nat.le_of_add_right_le room
      have fits : announced buffer position * size.toNat ≤ Decoder.maxSize ∧
          announced buffer position * size.toNat ≤ buffer.length - (position + 8) := by
        change _ ≤ 2 ^ 64 - 1 ∧ _
        omega
      simp only [Operation.decoder, bind, EStateM.bind, decoder_count_of_head head, if_pos fits]
      rfl
  | shortCount short =>
      have ran := exactly_of_short record inside short
      simp only [Operation.decoder, Decoder.count, Decoder.number, Decoder.bytes, bind,
        EStateM.bind, ran]
      rfl
  | @crowded size head crowd =>
      have exceeds : ¬ (announced buffer position * size.toNat ≤ Decoder.maxSize ∧
          announced buffer position * size.toNat ≤ buffer.length - (position + 8)) := by
        omega
      simp only [Operation.decoder, bind, EStateM.bind, decoder_count_of_head head, if_neg exceeds]
      rfl
  | finished all =>
      have nothing : buffer.drop position = [] := List.drop_eq_nil_of_le (Nat.le_of_eq all.symm)
      simp only [Operation.decoder, Decoder.finish, bind, EStateM.bind, Cursor.reached, nothing]
      rfl
  | trailing more =>
      have left : buffer.drop position = buffer[position] :: buffer.drop (position + 1) :=
        List.drop_eq_getElem_cons more
      have size := congrArg List.length left
      rw [List.length_drop] at size
      simp only [Operation.decoder, Decoder.finish, bind, EStateM.bind, Cursor.reached,
        Cursor.remaining, left, ← size]
      rfl

theorem Performs.action_eq (performs : Performs record buffer position operation outcome next)
    (bounded : buffer.length < 2 ^ 63) (inside : position ≤ buffer.length) :
    operation.action (IndexedReader.reached record buffer position) =
      ended (outcome.mapError .failure) (IndexedReader.reached record buffer next) := by
  have start : (IndexedReader.reached record buffer position).position.toNat = position :=
    IndexedReader.toNat_index bounded inside
  have lengths {found : Except WireError (Nat × Nat)}
      (stands : CompactLength.LengthAt buffer position found) :
      IndexedReader.compactLength (IndexedReader.reached record buffer position) =
        (IndexedReader.reached record buffer position).settled found :=
    IndexedReader.compactLength_eq bounded (by rwa [start])
  cases performs with
  | @field field room =>
      cases field with
      | skip count => exact bind_of_ok (IndexedReader.bytes_of_room bounded room) _
      | bytes count => exact bind_of_ok (IndexedReader.bytes_of_room bounded room) _
      | _ => exact bind_of_ok (IndexedReader.array_of_room bounded room) _
  | @shortField field short =>
      cases field with
      | skip count => exact bind_of_error (IndexedReader.bytes_of_short bounded inside short) _
      | bytes count => exact bind_of_error (IndexedReader.bytes_of_short bounded inside short) _
      | _ => exact bind_of_error (IndexedReader.array_of_short bounded inside short) _
  | @length length next stands =>
      rw [Operation.action, bind_of_ok (lengths stands)]
      obtain ⟨small, _⟩ := CompactLength.consumed_of_decodeAt stands.decodeAt_eq
      have same : (UInt64.ofNat length).toNat = length :=
        UInt64.toNat_ofNat_of_lt' (Nat.lt_of_le_of_lt small (by decide))
      rw [same]
      rfl
  | noLength stands => exact bind_of_error (lengths stands) _
  | @count size room =>
      have elements := IndexedReader.toNat_announced buffer position
      have ran : IndexedReader.count size (IndexedReader.reached record buffer position) =
          .ok (UInt64.ofNat (announced buffer position))
            (IndexedReader.reached record buffer (position + 8)) := by
        rw [IndexedReader.count_of_head bounded (Nat.le_of_add_right_le room)]
        exact IndexedReader.accept_of_room bounded (by rwa [elements])
      rw [Operation.action, bind_of_ok ran, elements]
      rfl
  | shortCount short =>
      exact bind_of_error (IndexedReader.count_of_short bounded inside short _) _
  | @crowded size head crowd =>
      have elements := IndexedReader.toNat_announced buffer position
      apply bind_of_error
      rw [IndexedReader.count_of_head bounded head,
        IndexedReader.accept_of_crowded bounded head (by rwa [elements]), elements]
  | finished all => exact bind_of_ok (IndexedReader.finish_of_end bounded all) _
  | trailing more => exact bind_of_error (IndexedReader.finish_of_more bounded more) _

def leftBehind {ε σ α : Type} : EStateM.Result ε σ α → σ
  | .ok _ after | .error _ after => after

def run {ε σ : Type} (step : Operation → EStateM ε σ Answer) (start : σ)
    (operations : List Operation) : σ :=
  operations.foldl (fun state operation => leftBehind (step operation state)) start

theorem leftBehind_ended {ε σ : Type} (outcome : Except ε Answer) (after : σ) :
    leftBehind (ended outcome after) = after := by
  cases outcome <;> rfl

theorem exists_run (record : Option String) (bounded : buffer.length < 2 ^ 63)
    (inside : position ≤ buffer.length) (operations : List Operation) :
    ∃ stop, position ≤ stop ∧ stop ≤ buffer.length ∧
      run Operation.action (IndexedReader.reached record buffer position) operations =
        IndexedReader.reached record buffer stop ∧
      run Operation.decoder (Cursor.reached record buffer position) operations =
        Cursor.reached record buffer stop := by
  induction operations generalizing position with
  | nil => exact ⟨position, Nat.le_refl _, inside, rfl, rfl⟩
  -- One step ends where it should for both, and the rest of the run starts from there.
  | cons operation rest ih =>
      obtain ⟨outcome, next, performs⟩ := exists_performs record inside operation
      obtain ⟨onward, within⟩ := performs.forward inside
      obtain ⟨stop, further, last, readerRun, cursorRun⟩ := ih within
      refine ⟨stop, onward.trans further, last, ?_, ?_⟩
      · rw [run, List.foldl_cons, performs.action_eq bounded inside, leftBehind_ended]
        exact readerRun
      · rw [run, List.foldl_cons, performs.decoder_eq bounded inside, leftBehind_ended]
        exact cursorRun

theorem reader_run_outcome (record : Option String) (bounded : buffer.length < 2 ^ 63)
    (operations : List Operation) (operation : Operation) :
    ∃ position outcome next,
      position ≤ next ∧ next ≤ buffer.length ∧
      run Operation.action ⟨buffer, record, 0⟩ operations =
        IndexedReader.reached record buffer position ∧
      run Operation.decoder (Cursor.ofBytes buffer record) operations =
        Cursor.reached record buffer position ∧
      IndexedReader.remaining (IndexedReader.reached record buffer position) =
        .ok (UInt64.ofNat (buffer.length - position))
          (IndexedReader.reached record buffer position) ∧
      Performs record buffer position operation outcome next ∧
      operation.action (IndexedReader.reached record buffer position) =
        ended (outcome.mapError .failure) (IndexedReader.reached record buffer next) ∧
      operation.decoder (Cursor.reached record buffer position) =
        ended outcome (Cursor.reached record buffer next) ∧
      ∀ failure, outcome = .error failure → next = operation.failedAt buffer position := by
  obtain ⟨position, _, inside, readerRun, cursorRun⟩ :=
    exists_run record bounded (Nat.zero_le _) operations
  obtain ⟨outcome, next, performs⟩ := exists_performs record inside operation
  obtain ⟨onward, within⟩ := performs.forward inside
  refine ⟨position, outcome, next, onward, within, readerRun, cursorRun,
    IndexedReader.remaining_reached bounded inside, performs, performs.action_eq bounded inside,
    performs.decoder_eq bounded inside, ?_⟩
  rintro failure rfl
  exact performs.next_of_failed

def countedBytes : Bytes := [3, 0, 0, 0, 0, 0, 0, 0, 0x80, 1, 9]

def mixedOperations : List Operation :=
  [.field (.bytes 0xFFFFFFFFFFFFFFFF), .count 0x8000000000000000, .compactLength]

theorem reader_run_outcome_mixed :
    Operation.action (.field .word32) (run Operation.action ⟨countedBytes, none, 0⟩ mixedOperations) =
      .error (.failure (.truncatedInput 10 4 1)) ⟨countedBytes, none, 10⟩ := by
  have bounded : countedBytes.length < 2 ^ 63 := by decide
  obtain ⟨position, outcome, next, _, _, reader, cursor, _, performs, ran, _⟩ :=
    reader_run_outcome none bounded mixedOperations (.field .word32)
  have stop : 10 = position := congrArg Cursor.offset cursor
  subst stop
  rw [reader, ran]
  cases performs with
  | field room => exact absurd room (by decide)
  | shortField short => rfl

end ReaderRun

end LedgerWire
