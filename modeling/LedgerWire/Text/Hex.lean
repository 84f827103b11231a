import LedgerWire.Bytes
import LedgerWire.Text.Quoted

/-!
Hexadecimal text, two digits to a byte: lower case when written, either case when read. Positions in
faults count the bytes of the text. `decode_encode` is the round trip.
-/

namespace LedgerWire.Text

def utf8 (text : String) : Bytes := text.toList.flatMap String.utf8EncodeChar

namespace Hex

inductive Fault where
  | oddLength
  | invalidDigit (byte : UInt8) (position : Nat)
  deriving DecidableEq, Repr

def Fault.message : Fault → String
  | oddLength => "Odd number of digits"
  | invalidDigit byte position =>
      let quoted := Quoted.char (Char.ofNat byte.toNat)
      s!"Invalid character {quoted} at position {position}"

def digit (value : Nat) : Char :=
  if value < 10 then Char.ofNat (48 + value) else Char.ofNat (87 + value)

def value? (byte : UInt8) : Option Nat :=
  if 48 ≤ byte ∧ byte ≤ 57 then some (byte.toNat - 48)
  else if 97 ≤ byte ∧ byte ≤ 102 then some (byte.toNat - 87)
  else if 65 ≤ byte ∧ byte ≤ 70 then some (byte.toNat - 55)
  else none

def digitPair (byte : UInt8) : List Char := [digit (byte.toNat / 16), digit (byte.toNat % 16)]

def encode (bytes : Bytes) : String := String.ofList (bytes.flatMap digitPair)

def valueAt (position : Nat) (byte : UInt8) : Except Fault Nat :=
  match value? byte with
  | some value => .ok value
  | none => .error (.invalidDigit byte position)

def decodePairs (position : Nat) : (text done : Bytes) → Except Fault Bytes
  | [], done => .ok done.reverse
  | [_], _ => .error .oddLength
  | high :: low :: rest, done => do
      let upper ← valueAt position high
      let lower ← valueAt (position + 1) low
      decodePairs (position + 2) rest (UInt8.ofNat (16 * upper + lower) :: done)

/-- An odd number of digits is reported before any digit is looked at. -/
def decode (text : String) : Except Fault Bytes :=
  let bytes := utf8 text
  if bytes.length % 2 = 1 then .error .oddLength else decodePairs 0 bytes []

theorem value?_digit : ∀ value < 16, value? (digit value).toUInt8 = some value := by decide

theorem utf8_digit : ∀ value < 16,
    String.utf8EncodeChar (digit value) = [(digit value).toUInt8] := by decide

theorem utf8_encode (bytes : Bytes) :
    utf8 (encode bytes) = bytes.flatMap fun byte => (digitPair byte).map Char.toUInt8 := by
  induction bytes with
  | nil => simp [utf8, encode]
  | cons byte rest ih =>
      have high : byte.toNat / 16 < 16 := by have := byte.toNat_lt; omega
      have low : byte.toNat % 16 < 16 := by omega
      simp only [utf8, encode, String.toList_ofList] at ih
      simp only [utf8, encode, String.toList_ofList, List.flatMap_cons, List.flatMap_append, ih]
      simp [digitPair, utf8_digit _ high, utf8_digit _ low]

theorem decodePairs_digits (position : Nat) (bytes done : Bytes) :
    decodePairs position (bytes.flatMap fun byte => (digitPair byte).map Char.toUInt8) done =
      .ok (done.reverse ++ bytes) := by
  induction bytes generalizing position done with
  | nil => simp [decodePairs]
  | cons byte rest ih =>
      have byteBound := byte.toNat_lt
      have high := value?_digit (byte.toNat / 16) (by omega)
      have low := value?_digit (byte.toNat % 16) (by omega)
      have restored : UInt8.ofNat (16 * (byte.toNat / 16) + byte.toNat % 16) = byte := by
        rw [Nat.div_add_mod, UInt8.ofNat_toNat]
      have tail := ih (position + 2) (byte :: done)
      simp only [List.flatMap_cons, digitPair, List.map_cons, List.map_nil, List.cons_append,
        List.nil_append, decodePairs, valueAt, high, low, bind, Except.bind, restored] at tail ⊢
      simp [tail]

theorem decode_encode (bytes : Bytes) : decode (encode bytes) = .ok bytes := by
  have evenLength : (bytes.flatMap fun byte => (digitPair byte).map Char.toUInt8).length % 2 = 0 := by
    induction bytes with
    | nil => rfl
    | cons byte rest ih => simp [digitPair] at ih ⊢; omega
  simp only [decode, utf8_encode, evenLength]
  simpa using decodePairs_digits 0 bytes []

end Hex

end LedgerWire.Text
