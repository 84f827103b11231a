import LedgerWire.Proofs.IndexedReader
import LedgerWire.Proofs.LengthGroups
import Mathlib.Data.List.Induction

/-!
Lengths read and written in place. Reading starts at a 64-bit position in a buffer and gathers the
bits of the groups in a word; writing pushes a group onto the bytes that are there for as long as
more than seven bits are left. `length_codec` is what the two do with every length and at every
position.
-/

namespace LedgerWire

namespace IndexedReader

open CompactLength (Continued LengthAt bits bits_append_singleton bits_lt maxGroups)

def settled (reader : IndexedReader) :
    Except WireError (Nat × Nat) → EStateM.Result Stop IndexedReader UInt64
  | .ok (length, next) =>
      .ok (UInt64.ofNat length) { reader with position := UInt64.ofNat next }
  | .error failure => .error (.failure failure) reader

variable {reader : IndexedReader} {start : UInt64} {used low left : Nat} {group : UInt8}
variable {front rest : Bytes}

theorem drop_behind {buffer : Bytes} {place : Nat} (split : buffer.drop place = front ++ rest) :
    buffer.drop (place + front.length) = rest := by
  rw [← List.drop_drop, split, List.drop_left]

theorem and_eq_zero_iff (group : UInt8) : group &&& 0x80 = 0 ↔ group < 128 := by
  have table : ∀ value < 256, value &&& 128 = 0 ↔ value < 128 := by decide +kernel
  rw [← UInt8.toNat_inj, UInt8.toNat_and, UInt8.lt_iff_toNat_lt]
  exact table group.toNat group.toNat_lt

theorem toNat_toUInt64_and (group : UInt8) :
    (group &&& 0x7F).toUInt64.toNat = group.toNat % 128 := by
  rw [UInt8.toNat_toUInt64, UInt8.toNat_and]
  exact Nat.and_two_pow_sub_one_eq_mod group.toNat 7

theorem or_shiftLeft_eq (few : used < maxGroups) (small : low < 128 ^ used) :
    UInt64.ofNat low ||| (group &&& 0x7F).toUInt64 <<< UInt64.ofNat (7 * used) =
      UInt64.ofNat (low + 128 ^ used * (group.toNat % 128)) := by
  have power : 128 ^ used = 2 ^ (7 * used) := by rw [Nat.pow_mul]
  have shift : 7 * used ≤ 14 := by
    unfold maxGroups at few
    omega
  have limit : 2 ^ (7 * used) ≤ 2 ^ 14 := Nat.pow_le_pow_right (by decide) shift
  have high : 2 ^ (7 * used) * (group.toNat % 128) ≤ 2 ^ 14 * 127 :=
    Nat.mul_le_mul limit (by omega)
  rw [power] at small ⊢
  apply UInt64.toNat_inj.mp
  rw [UInt64.toNat_or, UInt64.toNat_shiftLeft, toNat_toUInt64_and, UInt64.toNat_ofNat_of_lt',
    UInt64.toNat_ofNat_of_lt', UInt64.toNat_ofNat_of_lt', Nat.shiftLeft_eq,
    Nat.mod_eq_of_lt (a := 7 * used), Nat.mul_comm (group.toNat % 128),
    Nat.mod_eq_of_lt (a := _ * _), Nat.or_comm, ← Nat.two_pow_add_eq_or_of_lt small, Nat.add_comm]
  · omega
  · omega
  all_goals change _ < 2 ^ 64; omega

theorem toNat_add_ofNat (fits : start.toNat + used < UInt64.size) :
    (start + UInt64.ofNat used).toNat = start.toNat + used := by
  rw [UInt64.toNat_add, UInt64.toNat_ofNat_of_lt' (by omega)]
  exact Nat.mod_eq_of_lt fits

theorem add_ofNat (fits : start.toNat + used < UInt64.size) :
    add start (UInt64.ofNat used) reader = .ok (start + UInt64.ofNat used) reader := by
  apply add_of_lt reader
  rwa [UInt64.toNat_ofNat_of_lt' (by omega)]

theorem groups_nil (fits : start.toNat + used < UInt64.size)
    (past : reader.buffer.drop (start.toNat + used) = []) (bits : UInt64) :
    groups start (left + 1) used bits reader =
      .error (.failure (.truncatedInput (start.toNat + used) 1 0)) reader := by
  have missing : reader.buffer[start.toNat + used]? = none := by
    rw [← List.head?_drop, past]
    rfl
  simp only [groups, bind_of_ok (add_ofNat fits), get_bind, toNat_add_ofNat fits, missing]
  rfl

theorem groups_cons (few : used < maxGroups) (small : low < 128 ^ used)
    (fits : start.toNat + used + 1 < UInt64.size)
    (here : reader.buffer.drop (start.toNat + used) = group :: rest) :
    groups start (left + 1) used (UInt64.ofNat low) reader =
      if group < 128 then
        .ok (UInt64.ofNat (low + 128 ^ used * (group.toNat % 128)))
          { reader with position := UInt64.ofNat (start.toNat + used + 1) }
      else groups start left (used + 1) (UInt64.ofNat (low + 128 ^ used * (group.toNat % 128)))
        reader := by
  have place_eq := toNat_add_ofNat (Nat.lt_of_succ_lt fits)
  have held : reader.buffer[start.toNat + used]? = some group := by
    rw [← List.head?_drop, here]
    rfl
  have behind : add (start + UInt64.ofNat used) 1 reader =
      .ok (UInt64.ofNat (start.toNat + used + 1)) reader := by
    rw [add_of_lt reader (by rwa [place_eq])]
    congr 1
    apply UInt64.toNat_inj.mp
    rw [UInt64.toNat_add, place_eq, UInt64.toNat_ofNat']
    rfl
  simp only [groups, bind_of_ok (add_ofNat (Nat.lt_of_succ_lt fits)), get_bind, place_eq, held,
    and_eq_zero_iff, or_shiftLeft_eq few small]
  split_ifs
  · rw [bind_of_ok behind]
    rfl
  · rfl

theorem groups_of_continued (continued : Continued front) (few : front.length ≤ maxGroups)
    (here : reader.buffer.drop start.toNat = front ++ rest)
    (fits : start.toNat + front.length < UInt64.size) :
    groups start (front.length + left) 0 0 reader =
      groups start left front.length (UInt64.ofNat (bits front)) reader := by
  induction front using List.reverseRecOn generalizing left rest with
  | nil => rw [List.length_nil, Nat.zero_add]; rfl
  -- A loop from the first group on, so what it has read grows at its end.
  | append_singleton front group ih =>
      rw [List.length_append, List.length_singleton] at few fits ⊢
      rw [List.append_assoc] at here
      have asks : ¬ group < 128 := by simpa using continued group (by simp)
      have before : Continued front := fun other member =>
        continued other (List.mem_append_left _ member)
      rw [Nat.add_assoc, ih before (by omega) here (by omega), Nat.add_comm 1 left,
        groups_cons (by omega) (bits_lt front) (by omega) (drop_behind here), if_neg asks,
        bits_append_singleton]

/-- Reading in place comes to what stands at the position, and no sum of indices is too large. -/
theorem compactLength_eq (bounded : reader.buffer.length < 2 ^ 63)
    {outcome : Except WireError (Nat × Nat)}
    (stands : LengthAt reader.buffer reader.position.toNat outcome) :
    compactLength reader = reader.settled outcome := by
  have inside {groups rest} (split : reader.buffer.drop reader.position.toNat = groups ++ rest) :
      reader.position.toNat + groups.length < UInt64.size := by
    have total := congrArg List.length split
    have start := reader.position.toNat_lt
    rw [List.length_append, List.length_drop] at total
    change _ < 2 ^ 64
    omega
  change groups reader.position maxGroups 0 0 reader = _
  cases stands with
  | @found groups rest split ended few =>
      have fits := inside split
      obtain ⟨front, last, rfl, continued, small⟩ := ended
      rw [List.length_append, List.length_singleton] at few fits ⊢
      rw [List.append_assoc] at split
      obtain ⟨left, limit⟩ := Nat.exists_eq_add_of_le few
      rw [limit, Nat.add_assoc, Nat.add_comm 1 left,
        groups_of_continued continued (by omega) split (by omega),
        groups_cons (by omega) (bits_lt front) (by omega) (drop_behind split), if_pos small,
        ← bits_append_singleton]
      rfl
  | @endless groups rest split continued all =>
      have small : bits groups < 2 ^ 64 := by
        have below := bits_lt groups
        rw [all, maxGroups] at below
        omega
      rw [← all, ← Nat.add_zero groups.length,
        groups_of_continued continued (Nat.le_of_eq all) split (inside split)]
      change EStateM.Result.error _ _ = _
      rw [UInt64.toNat_ofNat_of_lt' small]
      rfl
  | @cut groups split continued few =>
      rw [← List.append_nil groups] at split
      obtain ⟨left, limit⟩ := Nat.exists_eq_add_of_lt few
      rw [limit, Nat.add_assoc, groups_of_continued continued (by omega) split (inside split),
        groups_nil (inside split) (drop_behind split)]
      rfl

end IndexedReader

namespace CompactLength

theorem toNat_shiftRight (rest : UInt64) : (rest >>> 7).toNat = rest.toNat / 128 := by
  rw [UInt64.toNat_shiftRight, Nat.shiftRight_eq_div_pow]
  rfl

def pushGroups (rest : UInt64) (buffer : Bytes) : Bytes :=
  if rest < 0x80 then buffer ++ [rest.toUInt8]
  else pushGroups (rest >>> 7) (buffer ++ [rest.toUInt8 ||| 0x80])
termination_by rest.toNat
decreasing_by
  rename_i large
  have : 128 ≤ rest.toNat := Nat.not_lt.mp large
  rw [toNat_shiftRight]
  omega

def append (length : UInt64) : EStateM WireError Bytes Unit :=
  if UInt64.ofNat maxLength < length then throw (.encodingRange length.toNat maxLength)
  else modify (pushGroups length)

variable {rest length : UInt64} {groups front : Bytes} {failure : WireError}

theorem toUInt8_or (rest : UInt64) :
    rest.toUInt8 ||| 0x80 = UInt8.ofNat (rest.toNat % 128 + 128) := by
  have table : ∀ value < 256, value ||| 128 = value % 128 + 128 := by decide +kernel
  apply UInt8.toNat_inj.mp
  rw [UInt8.toNat_or, UInt64.toNat_toUInt8, UInt8.toNat_ofNat']
  change rest.toNat % 256 ||| 128 = _
  rw [table _ (Nat.mod_lt _ (by decide))]
  omega

theorem pushGroups_eq (limit : Nat) (fits : rest.toNat < 128 ^ (limit + 1)) (buffer : Bytes) :
    pushGroups rest buffer = buffer ++ encodeGroups (limit + 1) rest.toNat := by
  induction limit generalizing rest buffer with
  | zero =>
      have small : rest.toNat < 128 := fits
      rw [pushGroups, if_pos (show rest < 0x80 from small), encodeGroups, if_pos small]
      rfl
  | succ limit ih =>
      rw [pushGroups, encodeGroups]
      by_cases small : rest.toNat < 128
      · rw [if_pos small, if_pos (show rest < 0x80 from small)]
        rfl
      · have higher : (rest >>> 7).toNat < 128 ^ (limit + 1) := by
          rw [toNat_shiftRight]
          rw [pow_succ] at fits
          omega
        rw [if_neg small, if_neg (show ¬ rest < 0x80 from small), ih higher, toNat_shiftRight,
          toUInt8_or, List.append_assoc]
        rfl

theorem append_of_encode (written : encode length.toNat = .ok groups) (front : Bytes) :
    append length front = .ok () (front ++ groups) := by
  obtain ⟨fits, rfl⟩ := encode_eq_ok_iff.mp written
  have small : ¬ UInt64.ofNat maxLength < length := Nat.not_lt.mpr fits
  rw [append, if_neg small]
  exact congrArg (EStateM.Result.ok ()) (pushGroups_eq 2 (Nat.lt_succ_of_le fits) front)

theorem append_of_refused (refused : encode length.toNat = .error failure) (front : Bytes) :
    append length front = .error failure front := by
  obtain ⟨large, rfl⟩ := encode_eq_error_iff.mp refused
  rw [append, if_pos (show UInt64.ofNat maxLength < length from large)]
  rfl

theorem decodeAt_encode {length : Nat} (written : encode length = .ok groups) (front back : Bytes) :
    decodeAt (front ++ groups ++ back) front.length =
      .ok (length, front.length + groups.length) := by
  rw [decodeAt, List.append_assoc, List.drop_left, decodeGroups_encode written]

/-- The groups are what is added for the length behind any bytes, and the length is read back
wherever they stand. -/
structure StandsFor (groups : Bytes) (length : UInt64) : Prop where
  encoded : encode length.toNat = .ok groups
  added : ∀ front, append length front = .ok () (front ++ groups)
  size : groups.length = encodedLength length.toNat
  few : 1 ≤ groups.length ∧ groups.length ≤ 3
  readBack : ∀ front back, decodeAt (front ++ groups ++ back) front.length =
    .ok (length.toNat, front.length + groups.length)

theorem exists_standsFor (fits : length.toNat ≤ maxLength) : ∃ groups, StandsFor groups length := by
  have written : encode length.toNat = .ok (shortest length.toNat) :=
    encode_eq_ok_iff.mpr ⟨fits, rfl⟩
  refine ⟨_, written, append_of_encode written, length_shortest _, ?_, decodeAt_encode written⟩
  rw [length_shortest, encodedLength]
  split_ifs <;> omega

theorem length_codec :
    (∀ length : UInt64, if length.toNat ≤ 0x1FFFFF then ∃ groups, StandsFor groups length
      else encode length.toNat = .error (.encodingRange length.toNat 0x1FFFFF) ∧
        ∀ front, append length front = .error (.encodingRange length.toNat 0x1FFFFF) front) ∧
    ∀ reader : IndexedReader, reader.buffer.length < 2 ^ 63 →
      let start := reader.position.toNat
      let read := decodeAt reader.buffer start
      reader.compactLength = reader.settled read ∧ LengthAt reader.buffer start read ∧
      (∀ length next, read = .ok (length, next) →
        length ≤ 0x1FFFFF ∧ start < next ∧ next ≤ start + 3 ∧ next ≤ reader.buffer.length ∧
        encodedLength length ≤ next - start ∧
        (encode length = .ok (reader.buffer.extract start next) ↔
          next - start = encodedLength length)) ∧
      ((∃ value limit, read = .error (.encodingRange value limit)) ↔
        start + 3 ≤ reader.buffer.length ∧
          ∀ group ∈ (reader.buffer.drop start).take 3, 128 ≤ group) ∧
      ((∃ offset needed left, read = .error (.truncatedInput offset needed left)) ↔
        reader.buffer.length < start + 3 ∧ ∀ group ∈ reader.buffer.drop start, 128 ≤ group) := by
  constructor
  · intro length
    split_ifs with fits
    · exact exists_standsFor fits
    · have refused := encode_eq_error_iff.mpr ⟨Nat.not_le.mp fits, rfl⟩
      exact ⟨refused, append_of_refused refused⟩
  · intro reader bounded start read
    have stands : LengthAt reader.buffer start read := decodeAt_eq_iff.mp rfl
    exact ⟨reader.compactLength_eq bounded stands, stands, fun _ _ => consumed_of_decodeAt,
      decodeAt_encodingRange_iff, decodeAt_truncatedInput_iff⟩

theorem length_codec_spare_group :
    IndexedReader.compactLength ⟨[0x80, 0], none, 0⟩ = .ok 0 ⟨[0x80, 0], none, 2⟩ ∧
      ¬ encode 0 = .ok [0x80, 0] ∧
      IndexedReader.compactLength ⟨[0x80, 0], none, 0xFFFFFFFFFFFFFFFF⟩ =
        .error (.failure (.truncatedInput 0xFFFFFFFFFFFFFFFF 1 0))
          ⟨[0x80, 0], none, 0xFFFFFFFFFFFFFFFF⟩ := by
  obtain ⟨read, _, found, _⟩ := length_codec.2 ⟨[0x80, 0], none, 0⟩ (by decide)
  obtain ⟨_, _, _, _, _, written_iff⟩ := found 0 2 rfl
  obtain ⟨far, _⟩ := length_codec.2 ⟨[0x80, 0], none, 0xFFFFFFFFFFFFFFFF⟩ (by decide)
  have nothing : ([0x80, 0] : Bytes).drop 0xFFFFFFFFFFFFFFFF = [] :=
    List.drop_eq_nil_of_le (by decide)
  have cut := (LengthAt.cut nothing (by simp [Continued]) (by decide)).decodeAt_eq
  refine ⟨read, fun written => absurd (written_iff.mp written) (by decide), far.trans ?_⟩
  exact congrArg (IndexedReader.settled _) cut

end CompactLength

end LedgerWire
