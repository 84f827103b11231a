import LedgerWire.Error
import Mathlib.Data.List.GetD
import Mathlib.Data.List.TakeWhile

/-!
Texts of keys, hashes and signatures. What a text stands for is said once, by the number that its
symbols write and the zeros in front; a text and the bytes it stands for determine each other, so a
value has one text and no other text is taken for it.
-/

namespace LedgerWire

namespace Radix

theorem takeWhile_zero_eq_replicate (text : List Nat) :
    text.takeWhile (· == 0) = List.replicate (text.takeWhile (· == 0)).length 0 := by
  apply List.eq_replicate_of_mem
  intro digit member
  simpa using List.mem_takeWhile_imp member

theorem convert_eq_iff {source target : Nat} (targetBound : 2 ≤ target) {text converted : List Nat}
    (small : ∀ digit ∈ converted, digit < target) :
    convert source target targetBound text = converted ↔
      (text.takeWhile (· == 0)).length = (converted.takeWhile (· == 0)).length ∧
        value source text = value target converted := by
  have allZero : ∀ z ∈ text.takeWhile (· == 0), z = 0 := fun z member => by
    simpa using List.mem_takeWhile_imp member
  constructor
  · rintro rfl
    rw [convert, takeWhile_zeros_append_digits target targetBound _ allZero,
      value_zeros_append target _ _ allZero, value_digits]
    exact ⟨rfl, rfl⟩
  · rintro ⟨zeros, same⟩
    rw [convert, takeWhile_zero_eq_replicate, zeros, same, ← takeWhile_zero_eq_replicate]
    exact zeros_append_digits_value target targetBound converted small

end Radix

namespace Text.Base58

/-- A leading `1` stands for a zero byte, and the symbols write the number that the bytes write. -/
structure Denotes (text : List Char) (bytes : Bytes) : Prop where
  symbols : ∀ c ∈ text, c ∈ alphabet
  zeros : (text.takeWhile (· == '1')).length = (bytes.takeWhile (· == 0)).length
  number : Radix.value 58 (text.map alphabet.idxOf) = Radix.value 256 (bytes.map UInt8.toNat)

variable {text before after : List Char} {bytes : Bytes} {c : Char} {position : Nat}

theorem length_alphabet : alphabet.length = 58 := by decide

theorem symbol_idxOf (member : c ∈ alphabet) : symbol (alphabet.idxOf c) = c := by
  have inside : alphabet.idxOf c < alphabet.length := List.idxOf_lt_length_iff.mpr member
  rw [symbol, List.getD_eq_getElem _ _ inside, List.getElem_idxOf]

theorem digit?_of_mem (member : c ∈ alphabet) : digit? c = some (alphabet.idxOf c) := by
  have inside : alphabet.idxOf c < 58 := by
    rw [← length_alphabet]
    exact List.idxOf_lt_length_iff.mpr member
  have read := digit?_symbol _ inside
  rwa [symbol_idxOf member] at read

theorem digit?_eq_none_iff : digit? c = none ↔ c ∉ alphabet := List.idxOf?_eq_none_iff

def foreign (c : Char) (position : Nat) : Fault :=
  if c.toNat < 128 then .invalidCharacter c position else .nonAscii position

theorem readDigits_append (symbols : ∀ c ∈ before, c ∈ alphabet) :
    readDigits position (before ++ after) =
      (readDigits (position + before.length) after).map (before.map alphabet.idxOf ++ ·) := by
  induction before generalizing position with
  | nil =>
      change readDigits position after = (readDigits position after).map id
      cases readDigits position after <;> rfl
  | cons first rest ih =>
      obtain ⟨known, others⟩ := List.forall_mem_cons.mp symbols
      have place : position + (first :: rest).length = position + 1 + rest.length := by
        rw [List.length_cons]
        omega
      simp only [List.cons_append, readDigits, digit?_of_mem known, ih others, place]
      cases readDigits (position + 1 + rest.length) after <;> rfl

theorem readDigits_of_foreign (known : ∀ c ∈ before, c ∈ alphabet) (unknown : c ∉ alphabet) :
    readDigits position (before ++ c :: after) =
      .error (foreign c (position + before.length)) := by
  rw [readDigits_append known, readDigits, digit?_eq_none_iff.mpr unknown]
  simp only [foreign]
  split <;> rfl

theorem readDigits_of_symbols (symbols : ∀ c ∈ text, c ∈ alphabet) :
    readDigits position text = .ok (text.map alphabet.idxOf) := by
  have read : readDigits position (text ++ []) = _ := readDigits_append symbols
  simpa [readDigits, Except.map] using read

theorem symbols_or_foreign (text : List Char) : (∀ c ∈ text, c ∈ alphabet) ∨ ∃ before c after,
    text = before ++ c :: after ∧ (∀ earlier ∈ before, earlier ∈ alphabet) ∧ c ∉ alphabet := by
  cases found : text.find? fun c => decide (c ∉ alphabet) with
  | none => exact .inl fun c member => by simpa using List.find?_eq_none.mp found c member
  | some c =>
      obtain ⟨unknown, before, after, split, known⟩ := List.find?_eq_some_iff_append.mp found
      exact .inr ⟨before, c, after, split, fun earlier member => by simpa using known earlier member,
        of_decide_eq_true unknown⟩

theorem decodeChars_of_symbols (symbols : ∀ c ∈ text, c ∈ alphabet) : decodeChars text =
    .ok ((Radix.convert 58 256 (by decide) (text.map alphabet.idxOf)).map UInt8.ofNat) := by
  rw [decodeChars, readDigits_of_symbols symbols]
  rfl

theorem decodeChars_of_foreign (known : ∀ c ∈ before, c ∈ alphabet) (unknown : c ∉ alphabet) :
    decodeChars (before ++ c :: after) = .error (foreign c before.length) := by
  rw [decodeChars, readDigits_of_foreign known unknown, Nat.zero_add]
  rfl

theorem length_takeWhile_symbols (text : List Char) :
    ((text.map alphabet.idxOf).takeWhile (· == 0)).length = (text.takeWhile (· == '1')).length := by
  have first (c : Char) : (alphabet.idxOf c == 0) = (c == '1') := by
    rw [show alphabet = '1' :: alphabet.tail from rfl, List.idxOf_cons]
    by_cases same : c = '1'
    · simp [same]
    · simp [beq_eq_false_iff_ne.mpr same, beq_eq_false_iff_ne.mpr (Ne.symm same)]
  rw [List.takeWhile_map, List.length_map]
  exact congrArg (fun isFirst => (text.takeWhile isFirst).length) (funext first)

theorem length_takeWhile_bytes (bytes : Bytes) :
    ((bytes.map UInt8.toNat).takeWhile (· == 0)).length = (bytes.takeWhile (· == 0)).length := by
  have zero (byte : UInt8) : (byte.toNat == 0) = (byte == 0) := by
    rw [Bool.eq_iff_iff, beq_iff_eq, beq_iff_eq, ← UInt8.toNat_inj]
    rfl
  rw [List.takeWhile_map, List.length_map]
  exact congrArg (fun isZero => (bytes.takeWhile isZero).length) (funext zero)

theorem toNat_lt_of_mem (bytes : Bytes) : ∀ value ∈ bytes.map UInt8.toNat, value < 256 :=
  List.forall_mem_map.mpr fun byte _ => byte.toNat_lt

theorem idxOf_lt_of_mem (symbols : ∀ c ∈ text, c ∈ alphabet) :
    ∀ value ∈ text.map alphabet.idxOf, value < 58 := by
  rw [← length_alphabet]
  exact List.forall_mem_map.mpr fun c member => List.idxOf_lt_length_iff.mpr (symbols c member)

theorem map_ofNat_eq_iff {values : List Nat} (small : ∀ value ∈ values, value < 256) :
    values.map UInt8.ofNat = bytes ↔ values = bytes.map UInt8.toNat := by
  constructor
  · rintro rfl
    have same : ∀ value ∈ values, (UInt8.toNat ∘ UInt8.ofNat) value = id value :=
      fun value member => UInt8.toNat_ofNat_of_lt' (small value member)
    rw [List.map_map, List.map_congr_left same, List.map_id]
  · rintro rfl
    simp [Function.comp_def]

theorem decodeChars_eq_ok_iff : decodeChars text = .ok bytes ↔ Denotes text bytes := by
  rcases symbols_or_foreign text with symbols | ⟨before, c, after, rfl, known, unknown⟩
  · rw [decodeChars_of_symbols symbols, Except.ok.injEq,
      map_ofNat_eq_iff (Radix.convert_lt _ _ _ _), Radix.convert_eq_iff _ (toNat_lt_of_mem bytes),
      length_takeWhile_symbols, length_takeWhile_bytes]
    constructor
    · rintro ⟨zeros, number⟩
      exact ⟨symbols, zeros, number⟩
    · intro denotes
      exact ⟨denotes.zeros, denotes.number⟩
  · rw [decodeChars_of_foreign known unknown]
    exact iff_of_false nofun fun denotes => unknown (denotes.symbols c (by simp))

theorem Denotes.encodeChars_eq (denotes : Denotes text bytes) : encodeChars bytes = text := by
  have digits : Radix.convert 256 58 (by decide) (bytes.map UInt8.toNat) =
      text.map alphabet.idxOf := by
    rw [Radix.convert_eq_iff _ (idxOf_lt_of_mem denotes.symbols), length_takeWhile_symbols,
      length_takeWhile_bytes]
    exact ⟨denotes.zeros.symm, denotes.number.symm⟩
  have shown : ∀ c ∈ text, (symbol ∘ alphabet.idxOf) c = id c :=
    fun c member => symbol_idxOf (denotes.symbols c member)
  rw [encodeChars, digits, List.map_map, List.map_congr_left shown, List.map_id]

theorem exists_denotes (symbols : ∀ c ∈ text, c ∈ alphabet) : ∃ bytes, Denotes text bytes :=
  ⟨_, decodeChars_eq_ok_iff.mp (decodeChars_of_symbols symbols)⟩

theorem denotes_iff {text : String} : Denotes text.toList bytes ↔ encode bytes = text := by
  constructor
  · intro denotes
    rw [encode, denotes.encodeChars_eq, String.ofList_toList]
  · rintro rfl
    exact decodeChars_eq_ok_iff.mp (decode_encode bytes)

end Text.Base58

namespace FixedBytes

open Text.Base58

variable {kind : Kind} {text : String} {value : FixedBytes kind} {fault : EncodingFault}

inductive Rejected (kind : Kind) (text : String) : EncodingFault → Prop where
  | foreign {before c after} : text.toList = before ++ c :: after →
      (∀ earlier ∈ before, earlier ∈ alphabet) → c ∉ alphabet →
      Rejected kind text (.base58 (foreign c before.length))
  | wrongLength {bytes} : Denotes text.toList bytes → bytes.length ≠ kind.size →
      Rejected kind text (.wrongLength kind.size bytes.length)

theorem exists_rejected_iff : (∃ fault, Rejected kind text fault) ↔
    (∃ c ∈ text.toList, c ∉ alphabet) ∨
      ∃ bytes, Denotes text.toList bytes ∧ bytes.length ≠ kind.size := by
  constructor
  · rintro ⟨_, rejected⟩
    cases rejected with
    | @foreign before c after split known unknown => exact .inl ⟨c, by simp [split], unknown⟩
    | @wrongLength bytes denotes size => exact .inr ⟨bytes, denotes, size⟩
  · rintro (⟨c, member, unknown⟩ | ⟨bytes, denotes, size⟩)
    · rcases symbols_or_foreign text.toList with symbols | ⟨before, c, after, split, known, unknown⟩
      · exact absurd (symbols c member) unknown
      · exact ⟨_, .foreign split known unknown⟩
    · exact ⟨_, .wrongLength denotes size⟩

theorem ofBytes_eq_ok_iff {bytes : Bytes} : ofBytes kind bytes = .ok value ↔ bytes = value.bytes := by
  unfold ofBytes ofBytes?
  by_cases size : bytes.length = kind.size
  · simp [size, FixedBytes.ext_iff]
  · simp only [size, dite_false, reduceCtorEq, false_iff]
    rintro rfl
    exact size value.length_eq

theorem ofText_of_denotes {bytes : Bytes} (denotes : Denotes text.toList bytes) :
    ofText kind text = ofBytes kind bytes := by
  rw [ofText, decode, decodeChars_eq_ok_iff.mpr denotes]

theorem ofText_of_rejected (rejected : Rejected kind text fault) :
    ofText kind text = .error (.invalidEncoding (.fixed kind) fault) := by
  cases rejected with
  | foreign split known unknown => rw [ofText, decode, split, decodeChars_of_foreign known unknown]
  | wrongLength denotes size => rw [ofText_of_denotes denotes, ofBytes, ofBytes?, dif_neg size]

theorem denotes_or_rejected (kind : Kind) (text : String) :
    (∃ value : FixedBytes kind, Denotes text.toList value.bytes) ∨
      ∃ fault, Rejected kind text fault := by
  by_cases unknown : ∃ c ∈ text.toList, c ∉ alphabet
  · exact .inr (exists_rejected_iff.mpr (.inl unknown))
  · have symbols : ∀ c ∈ text.toList, c ∈ alphabet := by simpa using unknown
    obtain ⟨bytes, denotes⟩ := exists_denotes symbols
    by_cases size : bytes.length = kind.size
    · exact .inl ⟨⟨bytes, size⟩, denotes⟩
    · exact .inr ⟨_, .wrongLength denotes size⟩

theorem ofText_eq_ok_iff : ofText kind text = .ok value ↔ Denotes text.toList value.bytes := by
  constructor
  · intro read
    rcases denotes_or_rejected kind text with ⟨found, denotes⟩ | ⟨fault, rejected⟩
    · rw [ofText_of_denotes denotes, ofBytes_eq_ok_iff] at read
      rwa [← read]
    · rw [ofText_of_rejected rejected] at read
      cases read
  · intro denotes
    rw [ofText_of_denotes denotes, ofBytes_eq_ok_iff]

theorem ofText_eq_error_iff {failure : WireError} : ofText kind text = .error failure ↔
    ∃ fault, failure = .invalidEncoding (.fixed kind) fault ∧ Rejected kind text fault := by
  constructor
  · intro failed
    rcases denotes_or_rejected kind text with ⟨found, denotes⟩ | ⟨fault, rejected⟩
    · rw [ofText_eq_ok_iff.mpr denotes] at failed
      cases failed
    · rw [ofText_of_rejected rejected, Except.error.injEq] at failed
      exact ⟨fault, failed.symm, rejected⟩
  · rintro ⟨fault, rfl, rejected⟩
    exact ofText_of_rejected rejected

/-- A value has one text, which stands for its bytes and is read back. Every other text has a
character that is no symbol, or stands for more or fewer bytes. -/
theorem text_outcome (kind : Kind) (text : String) :
    (∀ value : FixedBytes kind, ofText kind text = .ok value ↔ value.toText = text) ∧
    (∀ value : FixedBytes kind, value.toText = text ↔ Denotes text.toList value.bytes) ∧
    ((∃ fault, ofText kind text = .error (.invalidEncoding (.fixed kind) fault)) ↔
      (∃ c ∈ text.toList, c ∉ alphabet) ∨
        ∃ bytes, Denotes text.toList bytes ∧ bytes.length ≠ kind.size) ∧
    ∀ failure, ofText kind text = .error failure ↔
      ∃ fault, failure = .invalidEncoding (.fixed kind) fault ∧ Rejected kind text fault := by
  have shown (value : FixedBytes kind) : value.toText = text ↔ Denotes text.toList value.bytes :=
    denotes_iff.symm
  refine ⟨fun value => ?_, shown, ?_, fun failure => ofText_eq_error_iff⟩
  · rw [shown, ofText_eq_ok_iff]
  · simp only [← exists_rejected_iff, ofText_eq_error_iff, WireError.invalidEncoding.injEq, true_and,
      exists_eq_left']

end FixedBytes

end LedgerWire
