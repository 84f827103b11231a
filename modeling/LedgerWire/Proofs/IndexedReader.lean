import LedgerWire.Decoder
import Mathlib.Algebra.Group.Nat.Defs

/-!
Reading by index. The reader keeps the whole buffer and a 64-bit position in it; every sum and
difference of indices is checked, and so is every slice that is taken. Where the position is inside
the buffer no check ever fails, and each action ends as the arithmetic of natural numbers says.
-/

namespace LedgerWire

def shortage (record : Option String) (buffer : Bytes) (position needed : Nat) : WireError :=
  match record with
  | some record => .bufferTooSmall record position needed buffer.length
  | none => .truncatedInput position needed (buffer.length - position)

structure IndexedReader where
  buffer : Bytes
  record : Option String
  position : UInt64

namespace IndexedReader

/-- Why an action ends without an answer. Only the first is a failure that a caller is told of. -/
inductive Stop where
  | failure (error : WireError)
  | overflow
  | outOfBounds

abbrev Action := EStateM Stop IndexedReader

section Actions

variable {α : Type}

def fail (error : WireError) : Action α := throw (.failure error)

def add (left right : UInt64) : Action UInt64 :=
  if left.toNat + right.toNat < UInt64.size then return left + right else throw .overflow

def subtract (left right : UInt64) : Action UInt64 :=
  if right ≤ left then return left - right else throw .overflow

def size : Action UInt64 := return UInt64.ofNat (← get).buffer.length

def remaining : Action UInt64 := do subtract (← size) (← get).position

def moveTo (position : UInt64) : Action Unit := modify fun reader => { reader with position }

def slice (start stop : UInt64) : Action Bytes := do
  let buffer := (← get).buffer
  if start ≤ stop ∧ stop.toNat ≤ buffer.length then
    return buffer.extract start.toNat stop.toNat
  else throw .outOfBounds

def failShort (needed : UInt64) : Action α := do
  let reader ← get
  match reader.record with
  | some record =>
      fail (.bufferTooSmall record reader.position.toNat needed.toNat (← size).toNat)
  | none => fail (.truncatedInput reader.position.toNat needed.toNat (← remaining).toNat)

def bytes (count : UInt64) : Action Bytes := do
  if (← remaining) < count then failShort count
  else
    let start := (← get).position
    let stop ← add start count
    let taken ← slice start stop
    moveTo stop
    return taken

def array (width : UInt64) : Action Bytes := do
  let taken ← bytes width
  if taken.length = width.toNat then return taken else throw .outOfBounds

/-- Looks at up to `left` groups behind the `used` ones that hold `bits`. -/
def groups (start : UInt64) : (left used : Nat) → (bits : UInt64) → Action UInt64
  | 0, _, bits => fail (.encodingRange bits.toNat CompactLength.maxLength)
  | left + 1, used, bits => do
      let place ← add start (UInt64.ofNat used)
      match (← get).buffer[place.toNat]? with
      | none => fail (.truncatedInput place.toNat 1 0)
      | some group =>
          let bits := bits ||| (group &&& 0x7F).toUInt64 <<< UInt64.ofNat (7 * used)
          if group &&& 0x80 = 0 then
            moveTo (← add place 1)
            return bits
          else groups start left (used + 1) bits

def compactLength : Action UInt64 := do
  groups (← get).position CompactLength.maxGroups 0 0

def accept (elements elementSize : UInt64) : Action UInt64 := do
  if elements.toNat * elementSize.toNat < UInt64.size then
    if elements * elementSize ≤ (← remaining) then return elements
    else failShort (elements * elementSize)
  else failShort (UInt64.ofNat Decoder.maxSize)

def count (elementSize : UInt64) : Action UInt64 := do
  accept (UInt64.ofNat (LittleEndian.decode (← array 8))) elementSize

def finish : Action Unit := do
  if (← remaining) = 0 then return ()
  else fail (.trailingBytes (← get).position.toNat (← remaining).toNat)

theorem get_bind (next : IndexedReader → Action α) (reader : IndexedReader) :
    (get >>= next) reader = next reader reader :=
  rfl

theorem bind_of_ok {β : Type} {action : Action α} {reader after : IndexedReader} {value : α}
    (ran : action reader = .ok value after) (next : α → Action β) :
    (action >>= next) reader = next value after := by
  simp only [bind, EStateM.bind, ran]

theorem bind_of_error {β : Type} {action : Action α} {reader after : IndexedReader} {stop : Stop}
    (ran : action reader = .error stop after) (next : α → Action β) :
    (action >>= next) reader = .error stop after := by
  simp only [bind, EStateM.bind, ran]

theorem add_of_lt {left right : UInt64} (reader : IndexedReader)
    (fits : left.toNat + right.toNat < UInt64.size) :
    add left right reader = .ok (left + right) reader := by
  rw [add, if_pos fits]
  rfl

theorem slice_of_le {start stop : UInt64} (reader : IndexedReader) (order : start ≤ stop)
    (inside : stop.toNat ≤ reader.buffer.length) :
    slice start stop reader = .ok (reader.buffer.extract start.toNat stop.toNat) reader := by
  rw [slice, get_bind]
  simp only [order, inside, and_self, if_true]
  rfl

end Actions

def reached (record : Option String) (buffer : Bytes) (position : Nat) : IndexedReader :=
  ⟨buffer, record, UInt64.ofNat position⟩

section Inside

variable {record : Option String} {buffer : Bytes} {position : Nat} {α : Type}

theorem toNat_index (bounded : buffer.length < 2 ^ 63) {index : Nat}
    (inside : index ≤ buffer.length) : (UInt64.ofNat index).toNat = index := by
  apply UInt64.toNat_ofNat_of_lt'
  change index < 2 ^ 64
  omega

variable (bounded : buffer.length < 2 ^ 63) (inside : position ≤ buffer.length)

include bounded inside

theorem remaining_reached : remaining (reached record buffer position) =
    .ok (UInt64.ofNat (buffer.length - position)) (reached record buffer position) := by
  have fits : UInt64.ofNat position ≤ UInt64.ofNat buffer.length := by
    rw [UInt64.le_iff_toNat_le, toNat_index bounded inside, toNat_index bounded (Nat.le_refl _)]
    exact inside
  change subtract (UInt64.ofNat buffer.length) (UInt64.ofNat position) _ = _
  rw [subtract, if_pos fits, ← UInt64.ofNat_sub inside]
  rfl

theorem failShort_reached (needed : UInt64) :
    (failShort needed : Action α) (reached record buffer position) =
      .error (.failure (shortage record buffer position needed.toNat))
        (reached record buffer position) := by
  have start : (reached record buffer position).position.toNat = position :=
    toNat_index bounded inside
  rw [failShort, get_bind]
  cases record with
  | none =>
      change (remaining >>= _) _ = _
      rw [bind_of_ok (remaining_reached bounded inside), start,
        toNat_index bounded (Nat.sub_le _ _)]
      rfl
  | some record =>
      have total : size (reached (some record) buffer position) =
          .ok (UInt64.ofNat buffer.length) (reached (some record) buffer position) := rfl
      change (size >>= _) _ = _
      rw [bind_of_ok total, start, toNat_index bounded (Nat.le_refl _)]
      rfl

omit inside

theorem bytes_of_room {count : UInt64} (room : position + count.toNat ≤ buffer.length) :
    bytes count (reached record buffer position) =
      .ok (buffer.extract position (position + count.toNat))
        (reached record buffer (position + count.toNat)) := by
  have inside : position ≤ buffer.length := by omega
  have start := toNat_index bounded inside
  have enough : ¬ UInt64.ofNat (buffer.length - position) < count := by
    rw [UInt64.lt_iff_toNat_lt, toNat_index bounded (Nat.sub_le _ _)]
    omega
  have fits : (UInt64.ofNat position).toNat + count.toNat < UInt64.size := by
    rw [start]
    change _ < 2 ^ 64
    omega
  have stop : UInt64.ofNat position + count = UInt64.ofNat (position + count.toNat) := by
    rw [UInt64.ofNat_add, UInt64.ofNat_toNat]
  have last := toNat_index bounded room
  have order : UInt64.ofNat position ≤ UInt64.ofNat (position + count.toNat) := by
    rw [UInt64.le_iff_toNat_le, start, last]
    exact Nat.le_add_right _ _
  have ended := Nat.le_trans (Nat.le_of_eq last) room
  have taken := slice_of_le (reached record buffer position) order ended
  rw [start, last] at taken
  rw [bytes, bind_of_ok (remaining_reached bounded inside), if_neg enough, get_bind]
  change (add (UInt64.ofNat position) count >>= _ : Action Bytes) _ = _
  rw [bind_of_ok (add_of_lt _ fits), stop]
  change (slice (UInt64.ofNat position) _ >>= _ : Action Bytes) _ = _
  rw [bind_of_ok taken]
  rfl

theorem bytes_of_short (inside : position ≤ buffer.length) {count : UInt64}
    (short : buffer.length < position + count.toNat) :
    bytes count (reached record buffer position) =
      .error (.failure (shortage record buffer position count.toNat))
        (reached record buffer position) := by
  have missing : UInt64.ofNat (buffer.length - position) < count := by
    rw [UInt64.lt_iff_toNat_lt, toNat_index bounded (Nat.sub_le _ _)]
    omega
  rw [bytes, bind_of_ok (remaining_reached bounded inside), if_pos missing,
    failShort_reached bounded inside]

theorem array_of_room {width : UInt64} (room : position + width.toNat ≤ buffer.length) :
    array width (reached record buffer position) =
      .ok (buffer.extract position (position + width.toNat))
        (reached record buffer (position + width.toNat)) := by
  have size : (buffer.extract position (position + width.toNat)).length = width.toNat := by
    rw [List.extract_eq_take_drop, List.length_take, List.length_drop]
    omega
  rw [array, bind_of_ok (bytes_of_room bounded room), if_pos size]
  rfl

theorem array_of_short (inside : position ≤ buffer.length) {width : UInt64}
    (short : buffer.length < position + width.toNat) :
    array width (reached record buffer position) =
      .error (.failure (shortage record buffer position width.toNat))
        (reached record buffer position) := by
  rw [array, bind_of_error (bytes_of_short bounded inside short)]

theorem finish_of_end (ended : position = buffer.length) :
    finish (reached record buffer position) = .ok () (reached record buffer position) := by
  have none_left : UInt64.ofNat (buffer.length - position) = 0 := by
    rw [ended, Nat.sub_self]
    rfl
  rw [finish, bind_of_ok (remaining_reached bounded (Nat.le_of_eq ended)), if_pos none_left]
  rfl

theorem finish_of_more (more : position < buffer.length) :
    finish (reached record buffer position) =
      .error (.failure (.trailingBytes position (buffer.length - position)))
        (reached record buffer position) := by
  have inside := Nat.le_of_lt more
  have left := toNat_index bounded (Nat.sub_le buffer.length position)
  have some_left : ¬ UInt64.ofNat (buffer.length - position) = 0 := by
    intro none_left
    rw [none_left, UInt64.toNat_zero] at left
    omega
  rw [finish, bind_of_ok (remaining_reached bounded inside), if_neg some_left, get_bind,
    bind_of_ok (remaining_reached bounded inside), left]
  change fail (.trailingBytes (UInt64.ofNat position).toNat _) _ = _
  rw [toNat_index bounded inside]
  rfl

def announced (buffer : Bytes) (position : Nat) : Nat :=
  LittleEndian.decode (buffer.extract position (position + 8))

omit bounded in
theorem toNat_announced (buffer : Bytes) (position : Nat) :
    (UInt64.ofNat (announced buffer position)).toNat = announced buffer position := by
  have few : (buffer.extract position (position + 8)).length ≤ 8 := by
    rw [List.extract_eq_take_drop, Nat.add_sub_cancel_left]
    exact List.length_take_le _ _
  have limit := Nat.pow_le_pow_right (show 0 < 256 by decide) few
  exact UInt64.toNat_ofNat_of_lt' (Nat.lt_of_lt_of_le (LittleEndian.decode_lt _) limit)

theorem accept_of_room {elements size : UInt64}
    (room : position + elements.toNat * size.toNat ≤ buffer.length) :
    accept elements size (reached record buffer position) =
      .ok elements (reached record buffer position) := by
  have small : elements.toNat * size.toNat < UInt64.size := by
    change _ < 2 ^ 64
    omega
  have fits : elements * size ≤ UInt64.ofNat (buffer.length - position) := by
    rw [UInt64.le_iff_toNat_le, UInt64.toNat_mul, Nat.mod_eq_of_lt small,
      toNat_index bounded (Nat.sub_le _ _)]
    omega
  rw [accept, if_pos small, bind_of_ok (remaining_reached bounded (Nat.le_of_add_right_le room)),
    if_pos fits]
  rfl

theorem accept_of_crowded (inside : position ≤ buffer.length) {elements size : UInt64}
    (crowded : buffer.length < position + elements.toNat * size.toNat) :
    accept elements size (reached record buffer position) =
      .error (.failure (shortage record buffer position
        (min (elements.toNat * size.toNat) Decoder.maxSize))) (reached record buffer position) := by
  rw [accept]
  by_cases small : elements.toNat * size.toNat < UInt64.size
  · have within : elements.toNat * size.toNat ≤ Decoder.maxSize := Nat.le_pred_of_lt small
    have total : (elements * size).toNat = elements.toNat * size.toNat := by
      rw [UInt64.toNat_mul, Nat.mod_eq_of_lt small]
    have exceeds : ¬ elements * size ≤ UInt64.ofNat (buffer.length - position) := by
      rw [UInt64.le_iff_toNat_le, total, toNat_index bounded (Nat.sub_le _ _)]
      omega
    rw [if_pos small, bind_of_ok (remaining_reached bounded inside), if_neg exceeds,
      failShort_reached bounded inside, total, Nat.min_eq_left within]
  · have beyond : Decoder.maxSize ≤ elements.toNat * size.toNat :=
      Nat.le_trans (Nat.sub_le _ _) (Nat.not_lt.mp small)
    rw [if_neg small, failShort_reached bounded inside, Nat.min_eq_right beyond]
    rfl

theorem count_of_head (head : position + 8 ≤ buffer.length) (size : UInt64) :
    count size (reached record buffer position) =
      accept (UInt64.ofNat (announced buffer position)) size
        (reached record buffer (position + 8)) := by
  have ran : array 8 (reached record buffer position) =
      .ok (buffer.extract position (position + 8)) (reached record buffer (position + 8)) :=
    array_of_room bounded head
  rw [count, bind_of_ok ran]
  rfl

theorem count_of_short (inside : position ≤ buffer.length) (short : buffer.length < position + 8)
    (size : UInt64) : count size (reached record buffer position) =
      .error (.failure (shortage record buffer position 8)) (reached record buffer position) := by
  have ran : array 8 (reached record buffer position) =
      .error (.failure (shortage record buffer position 8)) (reached record buffer position) :=
    array_of_short bounded inside short
  rw [count, bind_of_error ran]

end Inside

end IndexedReader

end LedgerWire
