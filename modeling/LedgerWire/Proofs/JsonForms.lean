import LedgerWire.Json.Records
import LedgerWire.Proofs.JsonText
import LedgerWire.Proofs.Outcome

/-!
The JSON forms of keys, instructions, messages and transactions give back what they were made of,
whatever a check would say of it. A form is lawful if it can be written as text and is read back; the
form of a record is lawful because those of its fields are.
-/

namespace LedgerWire.Json

class LawfulForm (α : Type) [Form α] : Prop where
  plain : ∀ value : α, (toJson value).Plain
  ofJson_toJson : ∀ value : α, ofJson (toJson value) = .ok value

export LawfulForm (plain ofJson_toJson)

instance : LawfulForm Bool where
  plain value := .bool value
  ofJson_toJson _ := rfl

instance : LawfulForm UInt8 where
  plain value := .natural value.toNat (Nat.lt_trans value.toNat_lt (by decide))
  ofJson_toJson value := by
    have bound := value.toNat_lt
    have inRange : 0 ≤ (value.toNat : Int) ∧ (value.toNat : Int) ≤ 255 := by omega
    simp only [toJson, ofJson]
    rw [if_pos inRange, Int.toNat_natCast, UInt8.ofNat_toNat]

instance {α : Type} [Form α] [LawfulForm α] : LawfulForm (List α) where
  plain items := by
    apply Plain.array
    intro item member
    obtain ⟨value, _, rfl⟩ := List.mem_map.mp member
    exact plain value
  ofJson_toJson items := by
    change (items.map toJson).mapM ofJson = .ok items
    rw [mapM_eq_ok_iff, List.forall₂_map_left_iff, List.forall₂_same]
    exact fun item _ => ofJson_toJson item

theorem ofText_toText {kind : FixedBytes.Kind} (value : FixedBytes kind) :
    FixedBytes.ofText kind value.toText = .ok value := by
  rw [FixedBytes.ofText, FixedBytes.toText, Text.Base58.decode_encode]
  simp [FixedBytes.ofBytes, FixedBytes.ofBytes?, value.length_eq]

instance {kind : FixedBytes.Kind} : LawfulForm (FixedBytes kind) where
  plain value := .string value.toText
  ofJson_toJson value := by
    simp only [toJson, ofJson, ofText_toText]
    rfl

instance : LawfulForm HexData where
  plain data := .string (Text.Hex.encode data.bytes)
  ofJson_toJson data := by
    simp only [toJson, ofJson, Text.Hex.decode_encode]

theorem plain_object {fields : List (String × Json)}
    (all : fields.Forall fun field => field.2.Plain) : (object fields).Plain :=
  .object (List.forall_iff_forall_mem.mp all)

theorem optional_eq {α : Type} [Form α] [LawfulForm α] {fields : List (String × Json)}
    (name : String) (value : α) (held : field? fields name = some (toJson value)) :
    optional fields name = .ok (some value) := by
  rw [optional, held]
  exact congrArg (Except.map some) (ofJson_toJson value)

instance : LawfulForm AccountMeta where
  plain account :=
    plain_object ⟨plain account.publicKey, plain account.isSigner, plain account.isWritable⟩
  ofJson_toJson account := by
    change ofJson (object _) = _
    simp only [ofJson]
    rw [optional_eq "isSigner" account.isSigner, optional_eq "isWritable" account.isWritable,
      optional_eq "pubkey" account.publicKey]
    all_goals rfl

instance : LawfulForm Instruction where
  plain instruction := plain_object
    ⟨plain instruction.program, plain instruction.accounts, plain (HexData.mk instruction.data)⟩
  ofJson_toJson instruction := by
    change ofJson (object _) = _
    simp only [ofJson]
    rw [optional_eq "accounts" instruction.accounts,
      optional_eq "data" (HexData.mk instruction.data),
      optional_eq "programId" instruction.program]
    all_goals rfl

instance : LawfulForm MessageHeader where
  plain header := plain_object
    ⟨plain header.requiredSignatures, plain header.readonlySigned, plain header.readonlyUnsigned⟩
  ofJson_toJson header := by
    change ofJson (object _) = _
    simp only [ofJson]
    rw [optional_eq "numReadonlySignedAccounts" header.readonlySigned,
      optional_eq "numReadonlyUnsignedAccounts" header.readonlyUnsigned,
      optional_eq "numRequiredSignatures" header.requiredSignatures]
    all_goals rfl

instance : LawfulForm CompiledInstruction where
  plain instruction := plain_object
    ⟨plain instruction.programIndex, plain instruction.accounts,
      plain (HexData.mk instruction.data)⟩
  ofJson_toJson instruction := by
    change ofJson (object _) = _
    simp only [ofJson]
    rw [optional_eq "accounts" instruction.accounts,
      optional_eq "data" (HexData.mk instruction.data),
      optional_eq "programIdIndex" instruction.programIndex]
    all_goals rfl

instance : LawfulForm Message where
  plain message := plain_object
    ⟨plain message.header, plain message.accountKeys, plain message.recentBlockhash,
      plain message.instructions⟩
  ofJson_toJson message := by
    change ofJson (object _) = _
    simp only [ofJson]
    rw [optional_eq "accountKeys" message.accountKeys, optional_eq "header" message.header,
      optional_eq "instructions" message.instructions,
      optional_eq "recentBlockhash" message.recentBlockhash]
    all_goals rfl

instance : LawfulForm Transaction where
  plain transaction := plain_object ⟨plain transaction.signatures, plain transaction.message⟩
  ofJson_toJson transaction := by
    change ofJson (object _) = _
    simp only [ofJson]
    rw [optional_eq "message" transaction.message, optional_eq "signatures" transaction.signatures]
    all_goals rfl

/-- A value is given back by its JSON form and by the text of that form, so it shares neither with
another value. -/
structure RoundTrips (α : Type) [Form α] : Prop where
  form : ∀ value : α, ofJson (toJson value) = .ok value
  text : ∀ value : α, ∃ json, ofText? (toJson value).compact = some json ∧ ofJson json = .ok value
  distinctForms : ∀ value other : α, toJson value = toJson other → value = other
  distinctTexts : ∀ value other : α,
    (toJson value).compact = (toJson other).compact → value = other

theorem LawfulForm.roundTrips (α : Type) [Form α] [LawfulForm α] : RoundTrips α := by
  have injective : ∀ value other : α, toJson value = toJson other → value = other := by
    intro value other same
    have read := ofJson_toJson value
    rw [same, ofJson_toJson other, Except.ok.injEq] at read
    exact read.symm
  refine ⟨ofJson_toJson, fun value => ⟨_, ofText?_compact (plain value), ofJson_toJson value⟩,
    injective, fun value other same => injective value other ?_⟩
  have read := ofText?_compact (plain value)
  rw [same, ofText?_compact (plain other), Option.some.injEq] at read
  exact read.symm

/-- Keys and the records that hold them come back from JSON as they were. -/
theorem json_round_trip :
    RoundTrips PublicKey ∧ RoundTrips Hash ∧ RoundTrips Signature ∧
    RoundTrips AccountMeta ∧ RoundTrips Instruction ∧
    RoundTrips MessageHeader ∧ RoundTrips CompiledInstruction ∧ RoundTrips Message ∧
    RoundTrips Transaction :=
  ⟨LawfulForm.roundTrips _, LawfulForm.roundTrips _, LawfulForm.roundTrips _,
    LawfulForm.roundTrips _, LawfulForm.roundTrips _, LawfulForm.roundTrips _,
    LawfulForm.roundTrips _, LawfulForm.roundTrips _, LawfulForm.roundTrips _⟩

end LedgerWire.Json
