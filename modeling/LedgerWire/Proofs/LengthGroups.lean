import LedgerWire.Proofs.CompactLength
import Mathlib.Data.Nat.Digits.Defs

/-!
What stands where a length should be. The groups on from a position end within three, or the third
asks for another, or the buffer ends before: `LengthAt` says what each comes to, by the bits that the
groups hold, and `decodeAt` finds the one that applies, at any position of any buffer.
-/

namespace LedgerWire.CompactLength

def Continued (groups : Bytes) : Prop := ∀ group ∈ groups, 128 ≤ group

/-- The last of the groups, and no other, asks for none. -/
def Ended (groups : Bytes) : Prop :=
  ∃ front last, groups = front ++ [last] ∧ Continued front ∧ last < 128

def bits (groups : Bytes) : Nat := Nat.ofDigits 128 (groups.map fun group => group.toNat % 128)

/-- The length at a position and the position behind it, or why there is none. -/
inductive LengthAt (buffer : Bytes) (position : Nat) : Except WireError (Nat × Nat) → Prop where
  | found {groups rest : Bytes} : buffer.drop position = groups ++ rest → Ended groups →
      groups.length ≤ maxGroups →
      LengthAt buffer position (.ok (bits groups, position + groups.length))
  | endless {groups rest : Bytes} : buffer.drop position = groups ++ rest → Continued groups →
      groups.length = maxGroups →
      LengthAt buffer position (.error (.encodingRange (bits groups) maxLength))
  | cut {groups : Bytes} : buffer.drop position = groups → Continued groups →
      groups.length < maxGroups →
      LengthAt buffer position (.error (.truncatedInput (position + groups.length) 1 0))

variable {groups front buffer : Bytes} {group : UInt8} {limit position length next : Nat}
variable {outcome : Except WireError (Nat × Nat)}

theorem continued_cons_iff : Continued (group :: groups) ↔ ¬ group < 128 ∧ Continued groups := by
  simp [Continued]

theorem bits_cons (group : UInt8) (groups : Bytes) :
    bits (group :: groups) = group.toNat % 128 + 128 * bits groups :=
  Nat.ofDigits_cons ..

theorem bits_lt (groups : Bytes) : bits groups < 128 ^ groups.length := by
  induction groups with
  | nil => simp [bits]
  | cons group groups ih =>
      rw [bits_cons, List.length_cons, Nat.pow_succ]
      omega

def behind (front : Bytes) : Except Fault Reading → Except Fault Reading
  | .ok reading =>
      .ok ⟨bits front + 128 ^ front.length * reading.length, front.length + reading.used⟩
  | .error (.cut used) => .error (.cut (front.length + used))
  | .error (.unfinished more) => .error (.unfinished (bits front + 128 ^ front.length * more))

theorem decodeGroups_behind (continued : Continued front) (left : Nat) (rest : Bytes) :
    decodeGroups (front.length + left) (front ++ rest) = behind front (decodeGroups left rest) := by
  induction front with
  | nil =>
      rw [List.nil_append, List.length_nil, Nat.zero_add]
      cases decodeGroups left rest with
      | ok reading => simp [behind, bits]
      | error fault => cases fault <;> simp [behind, bits]
  | cons group front ih =>
      obtain ⟨more, continued⟩ := continued_cons_iff.mp continued
      rw [List.length_cons, Nat.succ_add_eq_add_succ, Nat.add_succ, List.cons_append, decodeGroups,
        if_neg more, ih continued]
      cases decodeGroups left rest with
      | ok reading =>
          simp only [behind, bits_cons, pow_succ, List.length_cons, Except.ok.injEq, Reading.mk.injEq]
          constructor
          · ring
          · omega
      | error fault =>
          cases fault with
          | cut used =>
              simp only [behind, List.length_cons, Except.error.injEq, Fault.cut.injEq]
              omega
          | unfinished more =>
              simp only [behind, bits_cons, pow_succ, List.length_cons, Except.error.injEq,
                Fault.unfinished.injEq]
              ring

theorem bits_append_singleton (front : Bytes) (last : UInt8) :
    bits (front ++ [last]) = bits front + 128 ^ front.length * (last.toNat % 128) := by
  simp [bits, Nat.ofDigits_append]

theorem decodeGroups_of_ended (ended : Ended groups) (few : groups.length ≤ limit) (rest : Bytes) :
    decodeGroups limit (groups ++ rest) = .ok ⟨bits groups, groups.length⟩ := by
  obtain ⟨front, last, rfl, continued, small⟩ := ended
  rw [List.length_append, List.length_singleton] at few
  obtain ⟨left, rfl⟩ := Nat.exists_eq_add_of_le few
  have value : last.toNat % 128 = last.toNat := Nat.mod_eq_of_lt small
  rw [List.append_assoc, List.singleton_append, Nat.add_assoc, decodeGroups_behind continued,
    Nat.add_comm 1 left, decodeGroups, if_pos small, bits_append_singleton, value,
    List.length_append]
  rfl

theorem decodeGroups_of_continued (continued : Continued groups) (rest : Bytes) :
    decodeGroups groups.length (groups ++ rest) = .error (.unfinished (bits groups)) :=
  decodeGroups_behind continued 0 rest

theorem decodeGroups_of_cut (continued : Continued groups) (few : groups.length < limit) :
    decodeGroups limit groups = .error (.cut groups.length) := by
  obtain ⟨left, rfl⟩ := Nat.exists_eq_add_of_lt few
  have behind_all := decodeGroups_behind continued (left + 1) []
  rwa [List.append_nil] at behind_all

theorem Ended.spells (ended : Ended groups) (few : groups.length ≤ maxGroups) :
    Spells groups (bits groups) := by
  have read := decodeGroups_of_ended ended few []
  rwa [List.append_nil] at read

theorem ended_or_continued (groups : Bytes) :
    (∃ front rest, groups = front ++ rest ∧ Ended front) ∨ Continued groups := by
  cases found : groups.find? fun group => decide (group < 128) with
  | none => exact .inr fun group member => by simpa using List.find?_eq_none.mp found group member
  | some last =>
      obtain ⟨small, front, rest, split, continued⟩ := List.find?_eq_some_iff_append.mp found
      refine .inl ⟨front ++ [last], rest, by simp [split], front, last, rfl, ?_,
        of_decide_eq_true small⟩
      exact fun group member => by simpa using continued group member

theorem LengthAt.decodeAt_eq (stands : LengthAt buffer position outcome) :
    decodeAt buffer position = outcome := by
  unfold decodeAt
  cases stands with
  | found split ended few => rw [split, decodeGroups_of_ended ended few]
  | @endless groups rest split continued all =>
      have read := decodeGroups_of_continued continued rest
      rw [all] at read
      rw [split, read]
      rfl
  | cut split continued few =>
      rw [split, decodeGroups_of_cut continued few]
      rfl

theorem exists_lengthAt (buffer : Bytes) (position : Nat) :
    ∃ outcome, LengthAt buffer position outcome := by
  have split := (List.take_append_drop maxGroups (buffer.drop position)).symm
  have window := List.length_take (i := maxGroups) (l := buffer.drop position)
  rcases ended_or_continued ((buffer.drop position).take maxGroups) with
    ⟨front, rest, taken, ended⟩ | continued
  · have few : front.length ≤ maxGroups := by
      rw [taken, List.length_append] at window
      omega
    rw [taken, List.append_assoc] at split
    exact ⟨_, .found split ended few⟩
  · by_cases room : maxGroups ≤ (buffer.drop position).length
    · exact ⟨_, .endless split continued (by rw [window, Nat.min_eq_left room])⟩
    · rw [List.take_of_length_le (by omega)] at continued
      exact ⟨_, .cut rfl continued (Nat.not_le.mp room)⟩

theorem decodeAt_eq_iff : decodeAt buffer position = outcome ↔ LengthAt buffer position outcome := by
  constructor
  · rintro rfl
    obtain ⟨outcome, stands⟩ := exists_lengthAt buffer position
    rwa [stands.decodeAt_eq]
  · exact LengthAt.decodeAt_eq

theorem decodeAt_encodingRange_iff :
    (∃ value limit, decodeAt buffer position = .error (.encodingRange value limit)) ↔
      position + maxGroups ≤ buffer.length ∧
        Continued ((buffer.drop position).take maxGroups) := by
  constructor
  · rintro ⟨value, limit, failed⟩
    cases decodeAt_eq_iff.mp failed with
    | @endless groups rest split continued all =>
        have total := congrArg List.length split
        rw [List.length_drop, List.length_append, all] at total
        have room : position + maxGroups ≤ buffer.length := by
          unfold maxGroups at total ⊢
          omega
        rw [split, List.take_left' all]
        exact ⟨room, continued⟩
  · rintro ⟨room, continued⟩
    have split := (List.take_append_drop maxGroups (buffer.drop position)).symm
    have all : ((buffer.drop position).take maxGroups).length = maxGroups := by
      rw [List.length_take, List.length_drop]
      omega
    exact ⟨_, _, (LengthAt.endless split continued all).decodeAt_eq⟩

theorem decodeAt_truncatedInput_iff :
    (∃ offset needed left, decodeAt buffer position = .error (.truncatedInput offset needed left)) ↔
      buffer.length < position + maxGroups ∧ Continued (buffer.drop position) := by
  constructor
  · rintro ⟨offset, needed, left, failed⟩
    cases decodeAt_eq_iff.mp failed with
    | cut split continued few =>
        rw [← split, List.length_drop] at few
        rw [split]
        exact ⟨by omega, continued⟩
  · rintro ⟨few, continued⟩
    have short : (buffer.drop position).length < maxGroups := by
      rw [List.length_drop]
      unfold maxGroups at few ⊢
      omega
    exact ⟨_, _, _, (LengthAt.cut rfl continued short).decodeAt_eq⟩

theorem consumed_of_decodeAt (read : decodeAt buffer position = .ok (length, next)) :
    length ≤ maxLength ∧ position < next ∧ next ≤ position + maxGroups ∧ next ≤ buffer.length ∧
      encodedLength length ≤ next - position ∧
      (encode length = .ok (buffer.extract position next) ↔
        next - position = encodedLength length) := by
  cases decodeAt_eq_iff.mp read with
  | @found groups rest split ended few =>
      have spelled := ended.spells few
      have consumed : buffer.extract position (position + groups.length) = groups := by
        rw [List.extract_eq_take_drop, split, Nat.add_sub_cancel_left, List.take_left]
      have positive : 0 < groups.length := by
        obtain ⟨front, last, rfl, _, _⟩ := ended
        simp
      have inside := congrArg List.length split
      rw [List.length_drop, List.length_append] at inside
      rw [consumed, Nat.add_sub_cancel_left, encode_eq_ok_iff]
      refine ⟨spelled.le_maxLength, by omega, by omega, by omega, spelled.encodedLength_le, ?_, ?_⟩
      · rintro ⟨_, shortest_eq⟩
        rw [shortest_eq, length_shortest, ← shortest_eq]
      · intro size
        exact ⟨spelled.le_maxLength, spelled.eq_shortest size⟩

end LedgerWire.CompactLength
