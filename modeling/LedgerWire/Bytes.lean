/-!
Byte strings, and the little-endian numbers written in them. `decode_encode` and `encode_decode` say
that a number that fits in `width` bytes and its `width` bytes determine each other.
-/

namespace LedgerWire

abbrev Bytes := List UInt8

namespace LittleEndian

def encode : (width value : Nat) → Bytes
  | 0, _ => []
  | width + 1, value => UInt8.ofNat value :: encode width (value / 256)

def decode : Bytes → Nat
  | [] => 0
  | byte :: rest => byte.toNat + 256 * decode rest

@[simp] theorem length_encode (width value : Nat) : (encode width value).length = width := by
  induction width generalizing value with
  | zero => rfl
  | succ width ih => simp [encode, ih]

theorem decode_lt (bytes : Bytes) : decode bytes < Nat.pow 256 bytes.length := by
  induction bytes with
  | nil => simp [decode]
  | cons byte rest ih =>
      have byteBound := byte.toNat_lt
      change byte.toNat + 256 * decode rest < Nat.pow 256 rest.length * 256
      omega

theorem decode_encode (width value : Nat) (bound : value < Nat.pow 256 width) :
    decode (encode width value) = value := by
  induction width generalizing value with
  | zero =>
      change value < 1 at bound
      simp [encode, decode]
      omega
  | succ width ih =>
      change value < Nat.pow 256 width * 256 at bound
      simp only [encode, decode, ih (value / 256) (by omega), UInt8.toNat_ofNat']
      omega

theorem encode_decode (bytes : Bytes) : encode bytes.length (decode bytes) = bytes := by
  induction bytes with
  | nil => rfl
  | cons byte rest ih =>
      have byteBound := byte.toNat_lt
      have low : UInt8.ofNat (byte.toNat + 256 * decode rest) = byte := by
        apply UInt8.toNat_inj.mp
        rw [UInt8.toNat_ofNat']
        omega
      have high : (byte.toNat + 256 * decode rest) / 256 = decode rest := by omega
      simp only [List.length_cons, encode, decode, low, high, ih]

end LittleEndian

end LedgerWire
