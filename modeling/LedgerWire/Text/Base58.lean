import LedgerWire.Bytes
import LedgerWire.Radix
import LedgerWire.Text.Quoted

/-!
Base-58 text: the bytes as one number written with the digits below, each leading zero byte as one
leading `1`. Positions in faults count the bytes of the text. `decode_encode` is the round trip.
-/

namespace LedgerWire.Text.Base58

inductive Fault where
  | invalidCharacter (c : Char) (position : Nat)
  | nonAscii (position : Nat)
  deriving DecidableEq, Repr

def Fault.message : Fault → String
  | invalidCharacter c position =>
      let quoted := Quoted.char c
      s!"provided string contained invalid character {quoted} at byte {position}"
  | nonAscii position =>
      s!"provided string contained non-ascii character starting at byte {position}"

def alphabet : List Char :=
  "123456789ABCDEFGHJKLMNPQRSTUVWXYZabcdefghijkmnopqrstuvwxyz".toList

def symbol (digit : Nat) : Char := alphabet.getD digit '1'

def digit? (c : Char) : Option Nat := alphabet.idxOf? c

def encodeChars (bytes : Bytes) : List Char :=
  (Radix.convert 256 58 (by decide) (bytes.map UInt8.toNat)).map symbol

def encode (bytes : Bytes) : String := String.ofList (encodeChars bytes)

/-- Up to the first character that is no digit, a character is one byte. -/
def readDigits (position : Nat) : List Char → Except Fault (List Nat)
  | [] => .ok []
  | c :: rest =>
      match digit? c with
      | some digit => (readDigits (position + 1) rest).map (digit :: ·)
      | none =>
          if c.toNat < 128 then .error (.invalidCharacter c position)
          else .error (.nonAscii position)

def decodeChars (text : List Char) : Except Fault Bytes :=
  (readDigits 0 text).map fun digits =>
    (Radix.convert 58 256 (by decide) digits).map UInt8.ofNat

def decode (text : String) : Except Fault Bytes := decodeChars text.toList

theorem digit?_symbol : ∀ digit < 58, digit? (symbol digit) = some digit := by decide

theorem readDigits_symbols (position : Nat) (digits : List Nat)
    (small : ∀ digit ∈ digits, digit < 58) :
    readDigits position (digits.map symbol) = .ok digits := by
  induction digits generalizing position with
  | nil => rfl
  | cons first rest ih =>
      have read := digit?_symbol first (small first List.mem_cons_self)
      have tail := ih (position + 1) fun digit member =>
        small digit (List.mem_cons_of_mem first member)
      simp [readDigits, read, tail, Except.map]

theorem decode_encode (bytes : Bytes) : decode (encode bytes) = .ok bytes := by
  have small : ∀ value ∈ bytes.map UInt8.toNat, value < 256 := by
    intro value member
    obtain ⟨byte, _, rfl⟩ := List.mem_map.mp member
    exact byte.toNat_lt
  have read := readDigits_symbols 0 _ (Radix.convert_lt 256 58 (by decide) (bytes.map UInt8.toNat))
  have restored := Radix.convert_convert 256 58 (by decide) (by decide) _ small
  simp [decode, decodeChars, encode, encodeChars, read, restored, Except.map, Function.comp_def]

end LedgerWire.Text.Base58
