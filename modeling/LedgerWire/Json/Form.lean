import LedgerWire.Error
import LedgerWire.Json.Basic
import LedgerWire.Text.Hex

/-!
Types with a JSON form. A record is written as an object with its fields in order; it is read from
an object, whose fields are looked at in the order of their names and may be more than are known, or
from an array of exactly its fields.
-/

namespace LedgerWire.Json

inductive Wanted where
  | fixed (kind : FixedBytes.Kind)
  | record (name : String)
  | byte
  | bool
  | text
  | sequence

inductive Fault where
  | invalidType (found : Json) (wanted : Wanted)
  | invalidValue (found : Int) (wanted : Wanted)
  | shortArray (length : Nat) (record : String) (fields : Nat)
  | longArray (length : Nat)
  | missingField (name : String)
  | encoding (error : WireError)
  | hex (fault : Text.Hex.Fault)

def Wanted.message : Wanted → String
  | fixed kind => s!"a base58 {kind.label}"
  | record name => s!"struct {name}"
  | byte => "u8"
  | bool => "a boolean"
  | text => "a string"
  | sequence => "a sequence"

def describe : Json → String
  | null => "null"
  | bool value => s!"boolean `{value}`"
  | integer value => s!"integer `{value}`"
  | float value => "floating point `" ++ value.text ++ "`"
  | string text => "string " ++ Text.Quoted.string text
  | array _ => "sequence"
  | object _ => "map"

def elementCount (fields : Nat) : String :=
  if fields = 1 then "1 element" else s!"{fields} elements"

def Fault.message : Fault → String
  | invalidType found wanted => s!"invalid type: {found.describe}, expected {wanted.message}"
  | invalidValue found wanted => s!"invalid value: integer `{found}`, expected {wanted.message}"
  | shortArray length record fields =>
      let count := elementCount fields
      s!"invalid length {length}, expected struct {record} with {count}"
  | longArray length => s!"invalid length {length}, expected fewer elements in array"
  | missingField name => s!"missing field `{name}`"
  | encoding error => error.message
  | hex fault => fault.message

class Form (α : Type) where
  toJson : α → Json
  ofJson : Json → Except Fault α

export Form (toJson ofJson)

instance : Form Bool where
  toJson := bool
  ofJson
    | bool value => .ok value
    | other => .error (.invalidType other .bool)

instance : Form UInt8 where
  toJson value := integer value.toNat
  ofJson
    | integer value =>
        if 0 ≤ value ∧ value ≤ 255 then .ok (UInt8.ofNat value.toNat)
        else .error (.invalidValue value .byte)
    | other => .error (.invalidType other .byte)

instance {α : Type} [Form α] : Form (List α) where
  toJson items := array (items.map toJson)
  ofJson
    | array items => items.mapM ofJson
    | other => .error (.invalidType other .sequence)

instance {kind : FixedBytes.Kind} : Form (FixedBytes kind) where
  toJson value := string value.toText
  ofJson
    | string text => (FixedBytes.ofText kind text).mapError .encoding
    | other => .error (.invalidType other (.fixed kind))

structure HexData where
  bytes : Bytes

instance : Form HexData where
  toJson data := string (Text.Hex.encode data.bytes)
  ofJson
    | string text =>
        match Text.Hex.decode text with
        | .ok bytes => .ok ⟨bytes⟩
        | .error fault => .error (.hex fault)
    | other => .error (.invalidType other .text)

def optional {α : Type} [Form α] (fields : List (String × Json)) (name : String) :
    Except Fault (Option α) :=
  match field? fields name with
  | some value => (ofJson value).map some
  | none => .ok none

def require {α : Type} (name : String) : Option α → Except Fault α
  | some value => .ok value
  | none => .error (.missingField name)

/-- The element at an index of an array that stands for a record of so many fields. -/
def element {α : Type} [Form α] (record : String) (fields : Nat) (items : List Json)
    (index : Nat) : Except Fault α :=
  match items[index]? with
  | some value => ofJson value
  | none => .error (.shortArray index record fields)

def noMore (fields : Nat) (items : List Json) : Except Fault Unit :=
  if fields < items.length then .error (.longArray items.length) else .ok ()

end LedgerWire.Json
