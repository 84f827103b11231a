import LedgerWire.Text.Encoding
import Mathlib.Data.List.TakeWhile

/-!
Texts that are given out and taken back. No encoding writes white space, so trimming takes away what
surrounds a text and nothing else, and the bytes come back.
-/

namespace LedgerWire.Text

namespace Blank

theorem dropWhile_of_bare {text : List Char} (bare : ∀ c ∈ text, isBlank c = false) :
    text.dropWhile isBlank = text :=
  List.dropWhile_eq_self_iff.mpr fun inside => by simp [bare _ (List.getElem_mem inside)]

theorem trimEnds_surrounded {before text after : List Char}
    (blankBefore : ∀ c ∈ before, isBlank c = true) (bare : ∀ c ∈ text, isBlank c = false)
    (blankAfter : ∀ c ∈ after, isBlank c = true) : trimEnds (before ++ text ++ after) = text := by
  have bareBackwards : ∀ c ∈ text.reverse, isBlank c = false := by simpa using bare
  have blankBackwards : ∀ c ∈ after.reverse, isBlank c = true := by simpa using blankAfter
  rw [trimEnds, List.append_assoc, List.dropWhile_append_of_pos blankBefore,
    List.dropWhile_append, dropWhile_of_bare bare, List.dropWhile_eq_nil_iff.mpr blankAfter]
  cases text with
  | nil => rfl
  | cons first rest =>
      rw [if_neg (by simp), List.reverse_append, List.dropWhile_append_of_pos blankBackwards,
        dropWhile_of_bare bareBackwards, List.reverse_reverse]

theorem trim_surrounded {before text after : String}
    (blankBefore : ∀ c ∈ before.toList, isBlank c = true)
    (bare : ∀ c ∈ text.toList, isBlank c = false)
    (blankAfter : ∀ c ∈ after.toList, isBlank c = true) : trim (before ++ text ++ after) = text := by
  rw [trim, String.toList_append, String.toList_append,
    trimEnds_surrounded blankBefore bare blankAfter, String.ofList_toList]

end Blank

theorem Hex.isBlank_digit : ∀ value < 16, Blank.isBlank (digit value) = false := by decide

theorem Base58.isBlank_symbol : ∀ value < 58, Blank.isBlank (symbol value) = false := by decide

theorem Base64.isBlank_symbol : ∀ value < 64, Blank.isBlank (symbol value) = false := by decide

namespace Encoding

theorem isBlank_of_mem_encode (encoding : Encoding) (bytes : Bytes) :
    ∀ c ∈ (encoding.encode bytes).toList, Blank.isBlank c = false := by
  cases encoding with
  | base58 =>
      rw [encode, Base58.encode, String.toList_ofList, Base58.encodeChars, List.forall_mem_map]
      intro value member
      exact Base58.isBlank_symbol value (Radix.convert_lt 256 58 (by decide) _ value member)
  | base64 =>
      rw [encode, Base64.encode, String.toList_ofList]
      exact Base64.forall_mem_encodeChars (by decide) Base64.isBlank_symbol bytes
  | hex =>
      rw [encode, Hex.encode, String.toList_ofList]
      intro c member
      obtain ⟨byte, _, shown⟩ := List.mem_flatMap.mp member
      have byteBound := byte.toNat_lt
      rcases List.mem_cons.mp shown with rfl | shown
      · exact Hex.isBlank_digit _ (by omega)
      · rw [List.mem_singleton.mp shown]
        exact Hex.isBlank_digit _ (by omega)

theorem decode_encode (encoding : Encoding) (bytes : Bytes) {before after : String}
    (blankBefore : ∀ c ∈ before.toList, Blank.isBlank c = true)
    (blankAfter : ∀ c ∈ after.toList, Blank.isBlank c = true) :
    encoding.decode (before ++ encoding.encode bytes ++ after) = .ok bytes := by
  have trimmed :=
    Blank.trim_surrounded blankBefore (encoding.isBlank_of_mem_encode bytes) blankAfter
  cases encoding with
  | base58 =>
      rw [decode, trimmed, encode, Base58.decode_encode]
      rfl
  | base64 =>
      rw [decode, trimmed, encode, Base64.decode_encode]
      rfl
  | hex =>
      rw [decode, trimmed, encode, Hex.decode_encode]
      rfl

end Encoding

end LedgerWire.Text
