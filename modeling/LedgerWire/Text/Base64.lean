import LedgerWire.Text.Hex

/-!
Base-64 text in quads of four symbols for three bytes, the last quad padded with `=` where it stands
for one or two bytes. Reading accepts the written form only: padding is required, and the bits that
the last symbol has to spare must be zero. Positions in faults count the bytes of the text.
`decode_encode` is the round trip.
-/

namespace LedgerWire.Text.Base64

inductive Fault where
  | invalidSymbol (byte : UInt8) (position : Nat)
  | invalidLength (length : Nat)
  | invalidPadding
  | invalidLastSymbol (byte : UInt8) (position : Nat)
  deriving DecidableEq, Repr

def Fault.message : Fault → String
  | invalidSymbol byte position => s!"Invalid symbol {byte}, offset {position}."
  | invalidLength length => s!"Invalid input length: {length}"
  | invalidPadding => "Invalid padding"
  | invalidLastSymbol byte position => s!"Invalid last symbol {byte}, offset {position}."

def pad : UInt8 := 61

def symbol (value : Nat) : Char :=
  if value < 26 then Char.ofNat (65 + value)
  else if value < 52 then Char.ofNat (71 + value)
  else if value < 62 then Char.ofNat (value - 4)
  else if value = 62 then '+' else '/'

def value? (byte : UInt8) : Option Nat :=
  if 65 ≤ byte ∧ byte ≤ 90 then some (byte.toNat - 65)
  else if 97 ≤ byte ∧ byte ≤ 122 then some (byte.toNat - 71)
  else if 48 ≤ byte ∧ byte ≤ 57 then some (byte.toNat + 4)
  else if byte = 43 then some 62
  else if byte = 47 then some 63
  else none

def encodeChars : Bytes → List Char
  | [] => []
  | [a] => [symbol (a.toNat / 4), symbol (a.toNat % 4 * 16), '=', '=']
  | [a, b] =>
      [symbol (a.toNat / 4), symbol (a.toNat % 4 * 16 + b.toNat / 16),
        symbol (b.toNat % 16 * 4), '=']
  | a :: b :: c :: rest =>
      symbol (a.toNat / 4) :: symbol (a.toNat % 4 * 16 + b.toNat / 16) ::
        symbol (b.toNat % 16 * 4 + c.toNat / 64) :: symbol (c.toNat % 64) :: encodeChars rest

def encode (bytes : Bytes) : String := String.ofList (encodeChars bytes)

def valueAt (position : Nat) (byte : UInt8) : Except Fault Nat :=
  match value? byte with
  | some value => .ok value
  | none => .error (.invalidSymbol byte position)

def valuesFrom (position : Nat) : Bytes → Except Fault (List Nat)
  | [] => .ok []
  | byte :: rest => do
      let value ← valueAt position byte
      return value :: (← valuesFrom (position + 1) rest)

def bytesOfQuad (a b c d : Nat) : Bytes :=
  [UInt8.ofNat (a * 4 + b / 16), UInt8.ofNat (b % 16 * 16 + c / 4), UInt8.ofNat (c % 4 * 64 + d)]

def decodeLast (position : Nat) (quad : Bytes) : Except Fault Bytes := do
  let symbols := quad.takeWhile (· != pad)
  let padding := quad.dropWhile (· != pad)
  let values ← valuesFrom position symbols
  if padding ≠ [] ∧ (symbols.length < 2 ∨ padding.any (· != pad)) then
    throw (.invalidSymbol pad (position + symbols.length))
  if symbols.length = 1 then throw (.invalidLength (position + 1))
  if quad.length % 4 ≠ 0 then throw .invalidPadding
  match values with
  | [a, b] =>
      if b % 16 = 0 then return (bytesOfQuad a b 0 0).take 1
      else throw (.invalidLastSymbol (symbols.getLastD 0) (position + 1))
  | [a, b, c] =>
      if c % 4 = 0 then return (bytesOfQuad a b c 0).take 2
      else throw (.invalidLastSymbol (symbols.getLastD 0) (position + 2))
  | [a, b, c, d] => return bytesOfQuad a b c d
  | _ => return []

def decodeQuads (position : Nat) : Bytes → Except Fault Bytes
  | a :: b :: c :: d :: next :: rest => do
      let first ← valueAt position a
      let second ← valueAt (position + 1) b
      let third ← valueAt (position + 2) c
      let fourth ← valueAt (position + 3) d
      return bytesOfQuad first second third fourth ++ (← decodeQuads (position + 4) (next :: rest))
  | quad => decodeLast position quad

/-- Where one byte is too many, it is reported first if it is no part of any text. -/
def decode (text : String) : Except Fault Bytes :=
  let bytes := utf8 text
  let last := bytes.getLastD pad
  if bytes.length % 4 = 1 ∧ last ≠ pad ∧ (value? last).isNone then
    .error (.invalidSymbol last (bytes.length - 1))
  else decodeQuads 0 bytes

theorem value?_symbol : ∀ value < 64, value? (symbol value).toUInt8 = some value := by decide

theorem symbol_ne_pad : ∀ value < 64, (symbol value).toUInt8 ≠ pad := by decide

theorem utf8_symbol : ∀ value < 64,
    String.utf8EncodeChar (symbol value) = [(symbol value).toUInt8] := by decide

theorem valueAt_symbol {value : Nat} (small : value < 64) (position : Nat) :
    valueAt position (symbol value).toUInt8 = .ok value := by
  rw [valueAt, value?_symbol value small]

theorem bytesOfQuad_split (a b c : UInt8) :
    bytesOfQuad (a.toNat / 4) (a.toNat % 4 * 16 + b.toNat / 16) (b.toNat % 16 * 4 + c.toNat / 64)
      (c.toNat % 64) = [a, b, c] := by
  have aBound := a.toNat_lt
  have bBound := b.toNat_lt
  have cBound := c.toNat_lt
  have first : a.toNat / 4 * 4 + (a.toNat % 4 * 16 + b.toNat / 16) / 16 = a.toNat := by omega
  have second : (a.toNat % 4 * 16 + b.toNat / 16) % 16 * 16 +
      (b.toNat % 16 * 4 + c.toNat / 64) / 4 = b.toNat := by omega
  have third : (b.toNat % 16 * 4 + c.toNat / 64) % 4 * 64 + c.toNat % 64 = c.toNat := by omega
  simp only [bytesOfQuad, first, second, third, UInt8.ofNat_toNat]

section Last

variable {a b c d : Nat} (aSmall : a < 64) (bSmall : b < 64) (position : Nat)
include aSmall bSmall

theorem decodeLast_one (spare : b % 16 = 0) :
    decodeLast position ([symbol a, symbol b, '=', '='].map Char.toUInt8) =
      .ok ((bytesOfQuad a b 0 0).take 1) := by
  have padded : Char.toUInt8 '=' = pad := rfl
  simp [decodeLast, padded, valuesFrom, symbol_ne_pad a aSmall, symbol_ne_pad b bSmall,
    valueAt_symbol aSmall, valueAt_symbol bSmall, spare, bind, Except.bind, pure, Except.pure]

theorem decodeLast_two (cSmall : c < 64) (spare : c % 4 = 0) :
    decodeLast position ([symbol a, symbol b, symbol c, '='].map Char.toUInt8) =
      .ok ((bytesOfQuad a b c 0).take 2) := by
  have padded : Char.toUInt8 '=' = pad := rfl
  simp [decodeLast, padded, valuesFrom, symbol_ne_pad a aSmall, symbol_ne_pad b bSmall,
    symbol_ne_pad c cSmall, valueAt_symbol aSmall, valueAt_symbol bSmall, valueAt_symbol cSmall,
    spare, bind, Except.bind, pure, Except.pure]

theorem decodeLast_three (cSmall : c < 64) (dSmall : d < 64) :
    decodeLast position ([symbol a, symbol b, symbol c, symbol d].map Char.toUInt8) =
      .ok (bytesOfQuad a b c d) := by
  simp [decodeLast, valuesFrom, symbol_ne_pad a aSmall, symbol_ne_pad b bSmall,
    symbol_ne_pad c cSmall, symbol_ne_pad d dSmall, valueAt_symbol aSmall, valueAt_symbol bSmall,
    valueAt_symbol cSmall, valueAt_symbol dSmall, bind, Except.bind, pure, Except.pure]

end Last

theorem forall_mem_encodeChars {holds : Char → Prop} (padding : holds '=')
    (symbols : ∀ value < 64, holds (symbol value)) (bytes : Bytes) :
    ∀ c ∈ encodeChars bytes, holds c := by
  have bound (byte : UInt8) : byte.toNat < 256 := byte.toNat_lt
  fun_induction encodeChars bytes with
  | case1 => exact List.forall_mem_nil _
  | case2 a =>
      have := bound a
      simp only [List.forall_mem_cons]
      exact ⟨symbols _ (by omega), symbols _ (by omega), padding, padding, nofun⟩
  | case3 a b =>
      have := bound a
      have := bound b
      simp only [List.forall_mem_cons]
      exact ⟨symbols _ (by omega), symbols _ (by omega), symbols _ (by omega), padding, nofun⟩
  | case4 a b c rest ih =>
      have := bound a
      have := bound b
      have := bound c
      simp only [List.forall_mem_cons]
      exact ⟨symbols _ (by omega), symbols _ (by omega), symbols _ (by omega),
        symbols _ (by omega), ih⟩

theorem utf8_encode (bytes : Bytes) :
    utf8 (encode bytes) = (encodeChars bytes).map Char.toUInt8 := by
  have single : ∀ c ∈ encodeChars bytes, String.utf8EncodeChar c = [c.toUInt8] :=
    forall_mem_encodeChars (by decide) utf8_symbol bytes
  rw [utf8, encode, String.toList_ofList, List.map_eq_flatMap, List.flatMap_def, List.flatMap_def,
    List.map_congr_left single]

theorem length_encodeChars (bytes : Bytes) : (encodeChars bytes).length % 4 = 0 := by
  fun_induction encodeChars bytes with
  | case1 => rfl
  | case2 => simp
  | case3 => simp
  | case4 a b c rest ih =>
      simp only [List.length_cons]
      omega

theorem encodeChars_eq_nil_iff {bytes : Bytes} : encodeChars bytes = [] ↔ bytes = [] := by
  fun_cases encodeChars bytes <;> simp

theorem decodeQuads_encodeChars (position : Nat) (bytes : Bytes) :
    decodeQuads position ((encodeChars bytes).map Char.toUInt8) = .ok bytes := by
  fun_induction encodeChars bytes generalizing position with
  | case1 => rfl
  | case2 a =>
      have aBound := a.toNat_lt
      have restored := congrArg (List.take 1) (bytesOfQuad_split a 0 0)
      refine Eq.trans ?_ (congrArg Except.ok restored)
      exact decodeLast_one (by omega) (by omega) position (by omega)
  | case3 a b =>
      have aBound := a.toNat_lt
      have bBound := b.toNat_lt
      have restored := congrArg (List.take 2) (bytesOfQuad_split a b 0)
      refine Eq.trans ?_ (congrArg Except.ok restored)
      exact decodeLast_two (by omega) (by omega) position (by omega) (by omega)
  | case4 a b c rest ih =>
      have aBound := a.toNat_lt
      have bBound := b.toNat_lt
      have cBound := c.toNat_lt
      have first : a.toNat / 4 < 64 := by omega
      have second : a.toNat % 4 * 16 + b.toNat / 16 < 64 := by omega
      have third : b.toNat % 16 * 4 + c.toNat / 64 < 64 := by omega
      have fourth : c.toNat % 64 < 64 := by omega
      cases more : encodeChars rest with
      | nil =>
          rw [encodeChars_eq_nil_iff.mp more, ← bytesOfQuad_split a b c]
          exact decodeLast_three first second position third fourth
      | cons next others =>
          have tail := ih (position + 4)
          rw [more, List.map_cons] at tail
          simp only [List.map_cons, decodeQuads, valueAt_symbol first, valueAt_symbol second,
            valueAt_symbol third, valueAt_symbol fourth, tail, bytesOfQuad_split, bind, Except.bind,
            pure, Except.pure, List.cons_append, List.nil_append]

theorem decode_encode (bytes : Bytes) : decode (encode bytes) = .ok bytes := by
  have whole : ((encodeChars bytes).map Char.toUInt8).length % 4 ≠ 1 := by
    rw [List.length_map, length_encodeChars]
    decide
  simp only [decode, utf8_encode, whole, false_and, if_false, decodeQuads_encodeChars]

end LedgerWire.Text.Base64
