import LedgerWire.CompactLength

/-!
Reading fields one after another from a byte string. A `Cursor` holds what is left and how much is
gone; a read past the end fails without moving it, and the failure names the record being read if
there is one. A record has a least size, and data shorter than that is refused before any field is
read.
-/

namespace LedgerWire

structure Cursor where
  record : Option String
  offset : Nat
  rest : Bytes
  deriving DecidableEq

namespace Cursor

def ofBytes (bytes : Bytes) (record : Option String) : Cursor := ⟨record, 0, bytes⟩

def remaining (cursor : Cursor) : Nat := cursor.rest.length

def length (cursor : Cursor) : Nat := cursor.offset + cursor.rest.length

def advance (cursor : Cursor) (count : Nat) : Cursor :=
  { cursor with offset := cursor.offset + count, rest := cursor.rest.drop count }

def shortRead (cursor : Cursor) (needed : Nat) : WireError :=
  match cursor.record with
  | some record => .bufferTooSmall record cursor.offset needed cursor.length
  | none => .truncatedInput cursor.offset needed cursor.remaining

end Cursor

abbrev Decoder := EStateM WireError Cursor

namespace Decoder

def position : Decoder Nat := return (← get).offset

def exactly (count : Nat) : Decoder { bytes : Bytes // bytes.length = count } := fun cursor =>
  if enough : (cursor.rest.take count).length = count then
    .ok ⟨cursor.rest.take count, enough⟩ (cursor.advance count)
  else .error (cursor.shortRead count) cursor

def bytes (count : Nat) : Decoder Bytes := return (← exactly count).val

def skip (count : Nat) : Decoder Unit := discard (exactly count)

def number (width : Nat) : Decoder Nat := return LittleEndian.decode (← bytes width)

def byte : Decoder UInt8 := return UInt8.ofNat (← number 1)

def word32 : Decoder UInt32 := return UInt32.ofNat (← number 4)

def word64 : Decoder UInt64 := return UInt64.ofNat (← number 8)

def int64 : Decoder Int64 := return (← word64).toInt64

def fixed (kind : FixedBytes.Kind) : Decoder (FixedBytes kind) := do
  let ⟨bytes, length_eq⟩ ← exactly kind.size
  return ⟨bytes, length_eq⟩

/-- A compact length fails in its own way whatever record is read. -/
def compactLength : Decoder Nat := fun cursor =>
  match CompactLength.decodeGroups CompactLength.maxGroups cursor.rest with
  | .ok reading => .ok reading.length (cursor.advance reading.used)
  | .error fault => .error (fault.toWireError cursor.offset) cursor

def maxSize : Nat := UInt64.size - 1

/-- A number of elements that the rest must have room for. It is read before it is checked, so a
count that does not fit is left behind; a total beyond 64 bits is reported as the largest there. -/
def count (elementSize : Nat) : Decoder Nat := do
  let elements ← number 8
  let total := elements * elementSize
  fun cursor =>
    if total ≤ maxSize ∧ total ≤ cursor.remaining then .ok elements cursor
    else .error (cursor.shortRead (min total maxSize)) cursor

def finish : Decoder Unit := fun cursor =>
  match cursor.rest with
  | [] => .ok () cursor
  | _ :: _ => .error (.trailingBytes cursor.offset cursor.remaining) cursor

def collect {α : Type} (item : Decoder α) : (count : Nat) → (done : List α) → Decoder (List α)
  | 0, done, cursor => .ok done.reverse cursor
  | count + 1, done, cursor =>
      match item cursor with
      | .ok next cursor => collect item count (next :: done) cursor
      | .error failure cursor => .error failure cursor

def times {α : Type} (count : Nat) (item : Decoder α) : Decoder (List α) := collect item count []

def runOn {α : Type} (decoder : Decoder α) (cursor : Cursor) : Except WireError α :=
  match decoder cursor with
  | .ok value _ => .ok value
  | .error failure _ => .error failure

theorem collect_eq {α : Type} (item : Decoder α) (count : Nat) (done : List α) (cursor : Cursor) :
    collect item count done cursor =
      match times count item cursor with
      | .ok items cursor => .ok (done.reverse ++ items) cursor
      | .error failure cursor => .error failure cursor := by
  induction count generalizing done cursor with
  | zero => simp [times, collect]
  | succ count ih =>
      simp only [times, collect] at ih ⊢
      cases item cursor with
      | error failure cursor => rfl
      | ok next cursor =>
          simp only [ih [next], ih (next :: done)]
          cases collect item count [] cursor <;> simp

@[simp] theorem times_zero {α : Type} (item : Decoder α) : times 0 item = pure [] := rfl

theorem times_succ {α : Type} (count : Nat) (item : Decoder α) :
    times (count + 1) item = (do
      let first ← item
      let others ← times count item
      return first :: others) := by
  funext cursor
  simp only [bind, EStateM.bind, pure, EStateM.pure, times, collect]
  cases item cursor with
  | error failure cursor => rfl
  | ok next cursor =>
      simp only [collect_eq item count [next], times]
      cases collect item count [] cursor <;> rfl

end Decoder

/-- Reads a named record of at least `minimum` bytes; what follows the record is ignored. -/
def decodeRecord {α : Type} (record : String) (minimum : Nat) (decoder : Decoder α) (data : Bytes) :
    Except WireError α :=
  if data.length < minimum then .error (.bufferTooSmall record 0 minimum data.length)
  else decoder.runOn (Cursor.ofBytes data (some record))

end LedgerWire
