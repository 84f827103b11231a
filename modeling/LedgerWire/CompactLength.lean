import LedgerWire.Error

/-!
Lengths in groups of seven bits, lowest group first, with the top bit set on each group that another
follows. Three groups are the most a length may take. Reading accepts a length in more groups than
it needs; `decodeGroups_encode` is the round trip for the form that is written.
-/

namespace LedgerWire.CompactLength

def maxGroups : Nat := 3

def maxLength : Nat := 0x1FFFFF

def encodedLength (length : Nat) : Nat :=
  if length ≤ 0x7F then 1 else if length ≤ 0x3FFF then 2 else 3

def encodeGroups : (groups length : Nat) → Bytes
  | 0, _ => []
  | groups + 1, length =>
      if length < 128 then [UInt8.ofNat length]
      else UInt8.ofNat (length % 128 + 128) :: encodeGroups groups (length / 128)

def encode (length : Nat) : Except WireError Bytes :=
  if length ≤ maxLength then .ok (encodeGroups maxGroups length)
  else .error (.encodingRange length maxLength)

inductive Fault where
  /-- The bytes end after `used` groups that all ask for another. -/
  | cut (used : Nat)
  /-- The last group there may be asks for another; `bits` is what all of them hold. -/
  | unfinished (bits : Nat)
  deriving DecidableEq

structure Reading where
  length : Nat
  used : Nat
  deriving DecidableEq

def decodeGroups : (groups : Nat) → Bytes → Except Fault Reading
  | 0, _ => .error (.unfinished 0)
  | _ + 1, [] => .error (.cut 0)
  | groups + 1, byte :: rest =>
      if byte < 128 then .ok ⟨byte.toNat, 1⟩
      else
        match decodeGroups groups rest with
        | .ok higher => .ok ⟨byte.toNat % 128 + 128 * higher.length, higher.used + 1⟩
        | .error (.cut used) => .error (.cut (used + 1))
        | .error (.unfinished bits) => .error (.unfinished (byte.toNat % 128 + 128 * bits))

def Fault.toWireError (offset : Nat) : Fault → WireError
  | cut used => .truncatedInput (offset + used) 1 0
  | unfinished bits => .encodingRange bits maxLength

def decodeAt (buffer : Bytes) (position : Nat) : Except WireError (Nat × Nat) :=
  match decodeGroups maxGroups (buffer.drop position) with
  | .ok reading => .ok (reading.length, position + reading.used)
  | .error fault => .error (fault.toWireError position)

theorem decodeGroups_encodeGroups (groups length : Nat) (bound : length < Nat.pow 128 (groups + 1))
    (rest : Bytes) :
    decodeGroups (groups + 1) (encodeGroups (groups + 1) length ++ rest) =
      .ok ⟨length, (encodeGroups (groups + 1) length).length⟩ := by
  induction groups generalizing length with
  | zero =>
      have small : length < 128 := bound
      have byteSmall : UInt8.ofNat length < 128 := by
        rw [UInt8.lt_iff_toNat_lt, UInt8.toNat_ofNat']
        exact Nat.lt_of_le_of_lt (Nat.mod_le _ _) small
      have value : length % 256 = length := by omega
      simp [encodeGroups, decodeGroups, small, byteSmall, value]
  | succ groups ih =>
      rw [encodeGroups]
      by_cases small : length < 128
      · have byteSmall : UInt8.ofNat length < 128 := by
          rw [UInt8.lt_iff_toNat_lt, UInt8.toNat_ofNat']
          exact Nat.lt_of_le_of_lt (Nat.mod_le _ _) small
        have value : length % 256 = length := by omega
        simp [small, decodeGroups, byteSmall, value]
      · have byteLarge : ¬ UInt8.ofNat (length % 128 + 128) < 128 := by
          rw [UInt8.lt_iff_toNat_lt, UInt8.toNat_ofNat']
          have : (128 : UInt8).toNat = 128 := rfl
          omega
        have higher := ih (length / 128) (by
          change length < Nat.pow 128 (groups + 1) * 128 at bound
          omega)
        simp only [small, if_false, List.cons_append, decodeGroups, byteLarge] at higher ⊢
        rw [higher]
        simp only [UInt8.toNat_ofNat', List.length_cons, Except.ok.injEq, Reading.mk.injEq, and_true]
        omega

theorem decodeGroups_encode {length : Nat} {bytes : Bytes} (written : encode length = .ok bytes)
    (rest : Bytes) : decodeGroups maxGroups (bytes ++ rest) = .ok ⟨length, bytes.length⟩ := by
  unfold encode at written
  split at written
  · rename_i bound
    cases written
    exact decodeGroups_encodeGroups 2 length (Nat.lt_succ_of_le bound) rest
  · cases written

end LedgerWire.CompactLength
