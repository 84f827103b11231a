import LedgerWire.CompactLength

/-!
How a length may be spelled. A reader takes any byte string that `Spells` the length, which leaves
room for spare groups of zeros; the writer uses `shortest`, and every other spelling is longer.
-/

namespace LedgerWire.CompactLength

def Spells (bytes : Bytes) (length : Nat) : Prop :=
  decodeGroups maxGroups bytes = .ok ⟨length, bytes.length⟩

def shortest (length : Nat) : Bytes := encodeGroups maxGroups length

def IsShortest (bytes : Bytes) (length : Nat) : Prop :=
  Spells bytes length ∧ ∀ other, Spells other length → bytes.length ≤ other.length

theorem encode_eq_ok_iff {length : Nat} {bytes : Bytes} :
    encode length = .ok bytes ↔ length ≤ maxLength ∧ bytes = shortest length := by
  unfold encode
  split
  · rename_i bound
    simp [bound, shortest, eq_comm]
  · rename_i beyond
    simp [beyond]

theorem encode_eq_error_iff {length : Nat} {failure : WireError} :
    encode length = .error failure ↔
      maxLength < length ∧ failure = .encodingRange length maxLength := by
  unfold encode
  split
  · rename_i bound
    exact iff_of_false (by simp) fun both => Nat.not_lt.mpr bound both.1
  · rename_i beyond
    simp [Nat.lt_of_not_le beyond, eq_comm]

theorem length_shortest (length : Nat) : (shortest length).length = encodedLength length := by
  simp only [shortest, encodedLength, maxGroups, encodeGroups]
  by_cases one : length ≤ 0x7F
  · simp [one, show length < 128 by omega]
  · by_cases two : length ≤ 0x3FFF
    · simp [one, two, show ¬ length < 128 by omega, show length / 128 < 128 by omega]
    · simp only [one, two, show ¬ length < 128 by omega, show ¬ length / 128 < 128 by omega, if_false]
      split <;> rfl

theorem spells_shortest {length : Nat} (bound : length ≤ maxLength) :
    Spells (shortest length) length := by
  have written : encode length = .ok (shortest length) := encode_eq_ok_iff.mpr ⟨bound, rfl⟩
  simpa [Spells] using decodeGroups_encode written []

theorem length_lt_of_decodeGroups {groups : Nat} {bytes : Bytes} {reading : Reading}
    (read : decodeGroups groups bytes = .ok reading) : reading.length < Nat.pow 128 groups := by
  induction groups generalizing bytes reading with
  | zero => simp [decodeGroups] at read
  | succ groups ih =>
      have positive : 0 < Nat.pow 128 groups := Nat.pow_pos (by decide)
      change reading.length < Nat.pow 128 groups * 128
      cases bytes with
      | nil => simp [decodeGroups] at read
      | cons byte rest =>
          rw [decodeGroups] at read
          by_cases last : byte < 128
          · simp only [last, if_true, Except.ok.injEq] at read
            subst reading
            have small : byte.toNat < 128 := last
            change byte.toNat < _
            omega
          · simp only [last, if_false] at read
            split at read
            · rename_i higher readRest
              cases read
              have := ih readRest
              change byte.toNat % 128 + 128 * higher.length < _
              omega
            · cases read
            · cases read

theorem Spells.le_maxLength {bytes : Bytes} {length : Nat} (spelled : Spells bytes length) :
    length ≤ maxLength :=
  Nat.le_of_lt_succ (length_lt_of_decodeGroups spelled)

theorem spells_shortest_iff {length : Nat} :
    Spells (shortest length) length ↔ length ≤ maxLength :=
  ⟨Spells.le_maxLength, spells_shortest⟩

theorem decodeGroups_take_append {groups : Nat} {bytes : Bytes} {reading : Reading}
    (read : decodeGroups groups bytes = .ok reading) :
    reading.used ≤ bytes.length ∧
      ∀ rest, decodeGroups groups (bytes.take reading.used ++ rest) = .ok reading := by
  induction groups generalizing bytes reading with
  | zero => simp [decodeGroups] at read
  | succ groups ih =>
      cases bytes with
      | nil => simp [decodeGroups] at read
      | cons byte rest =>
          rw [decodeGroups] at read
          by_cases last : byte < 128
          · simp only [last, if_true, Except.ok.injEq] at read
            subst reading
            exact ⟨by simp, fun rest => by simp [decodeGroups, last]⟩
          · simp only [last, if_false] at read
            split at read
            · rename_i higher readRest
              cases read
              obtain ⟨within, same⟩ := ih readRest
              refine ⟨by simpa using within, fun rest => ?_⟩
              simp [decodeGroups, last, same]
            · cases read
            · cases read

theorem Spells.decodeGroups_append {bytes : Bytes} {length : Nat} (spelled : Spells bytes length)
    (rest : Bytes) : decodeGroups maxGroups (bytes ++ rest) = .ok ⟨length, bytes.length⟩ := by
  simpa using (decodeGroups_take_append spelled).2 rest

theorem spells_take_of_decodeGroups {bytes : Bytes} {reading : Reading}
    (read : decodeGroups maxGroups bytes = .ok reading) :
    Spells (bytes.take reading.used) reading.length := by
  obtain ⟨within, same⟩ := decodeGroups_take_append read
  simpa [Spells, List.length_take, Nat.min_eq_left within] using same []

theorem decodeAt_zero_eq_ok_iff {bytes : Bytes} {length : Nat} :
    decodeAt bytes 0 = .ok (length, bytes.length) ↔ Spells bytes length := by
  unfold decodeAt Spells
  rw [List.drop_zero]
  cases decodeGroups maxGroups bytes with
  | error fault => simp
  | ok reading =>
      obtain ⟨found, used⟩ := reading
      simp

theorem length_of_decodeGroups_cut {groups used : Nat} {bytes : Bytes}
    (failed : decodeGroups groups bytes = .error (.cut used)) : used = bytes.length := by
  induction groups generalizing bytes used with
  | zero => simp [decodeGroups] at failed
  | succ groups ih =>
      cases bytes with
      | nil =>
          cases failed
          rfl
      | cons byte rest =>
          rw [decodeGroups] at failed
          split at failed
          · cases failed
          · split at failed
            · cases failed
            · rename_i deeper failedThere
              cases failed
              rw [ih failedThere, List.length_cons]
            · cases failed

theorem decodeGroups_append_of_unfinished {groups bits : Nat} {bytes : Bytes}
    (failed : decodeGroups groups bytes = .error (.unfinished bits)) (rest : Bytes) :
    decodeGroups groups (bytes ++ rest) = .error (.unfinished bits) := by
  induction groups generalizing bytes bits with
  | zero => simpa [decodeGroups] using failed
  | succ groups ih =>
      cases bytes with
      | nil => cases failed
      | cons byte others =>
          rw [decodeGroups] at failed
          rw [List.cons_append, decodeGroups]
          split at failed
          · cases failed
          · rename_i continued
            simp only [continued, if_false]
            split at failed
            · cases failed
            · cases failed
            · rename_i deeper failedThere
              cases failed
              rw [ih failedThere]

/-- The groups that are written are never more than those that were read, and the same ones if they
are as many. -/
theorem encodeGroups_of_decodeGroups {groups : Nat} {bytes : Bytes} {reading : Reading}
    (read : decodeGroups groups bytes = .ok reading) :
    0 < reading.used ∧ (encodeGroups groups reading.length).length ≤ reading.used ∧
      ((encodeGroups groups reading.length).length = reading.used →
        encodeGroups groups reading.length = bytes.take reading.used) := by
  induction groups generalizing bytes reading with
  | zero => simp [decodeGroups] at read
  | succ groups ih =>
      cases bytes with
      | nil => simp [decodeGroups] at read
      | cons byte rest =>
          rw [decodeGroups] at read
          by_cases last : byte < 128
          · simp only [last, if_true, Except.ok.injEq] at read
            subst reading
            have small : byte.toNat < 128 := last
            simp [encodeGroups, small]
          · simp only [last, if_false] at read
            have large : 128 ≤ byte.toNat := Nat.le_of_not_lt last
            have byteBound := byte.toNat_lt
            split at read
            · rename_i higher readRest
              cases read
              obtain ⟨positive, shorter, same⟩ := ih readRest
              simp only [encodeGroups]
              by_cases spare : higher.length = 0
              · have single : byte.toNat % 128 + 128 * higher.length < 128 := by omega
                simp only [single, if_true, List.length_singleton]
                refine ⟨by omega, by omega, fun equal => ?_⟩
                omega
              · have several : ¬ byte.toNat % 128 + 128 * higher.length < 128 := by omega
                have low : (byte.toNat % 128 + 128 * higher.length) % 128 + 128 = byte.toNat := by
                  omega
                have high : (byte.toNat % 128 + 128 * higher.length) / 128 = higher.length := by
                  omega
                simp only [several, if_false, low, high, List.length_cons, List.take_succ_cons,
                  UInt8.ofNat_toNat, List.cons.injEq, true_and]
                exact ⟨by omega, by omega, fun equal => same (by omega)⟩
            · cases read
            · cases read

theorem Spells.encodedLength_le {bytes : Bytes} {length : Nat} (spelled : Spells bytes length) :
    encodedLength length ≤ bytes.length := by
  rw [← length_shortest]
  exact (encodeGroups_of_decodeGroups spelled).2.1

theorem Spells.eq_shortest {bytes : Bytes} {length : Nat} (spelled : Spells bytes length)
    (size : bytes.length = encodedLength length) : bytes = shortest length := by
  have same := (encodeGroups_of_decodeGroups spelled).2.2 (by
    rw [size, ← length_shortest]
    rfl)
  simpa [shortest] using same.symm

theorem isShortest_iff {bytes : Bytes} {length : Nat} (spelled : Spells bytes length) :
    IsShortest bytes length ↔ bytes = shortest length := by
  constructor
  · rintro ⟨_, least⟩
    apply spelled.eq_shortest
    have atMost := least (shortest length) (spells_shortest spelled.le_maxLength)
    rw [length_shortest] at atMost
    exact Nat.le_antisymm atMost spelled.encodedLength_le
  · rintro rfl
    refine ⟨spelled, fun other otherSpelled => ?_⟩
    rw [length_shortest]
    exact otherSpelled.encodedLength_le

end LedgerWire.CompactLength
