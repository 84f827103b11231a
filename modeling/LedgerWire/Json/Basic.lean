import LedgerWire.Binary64

/-!
JSON values and their text, on one line or indented by two spaces a level. Integers and
floating-point numbers are kept apart: the text of the latter always has a point or an exponent.
-/

namespace LedgerWire

inductive Json where
  | null
  | bool (value : Bool)
  | integer (value : Int)
  | float (value : Binary64)
  | string (text : String)
  | array (items : List Json)
  | object (fields : List (String × Json))

namespace Json

def hexDigit (value : Nat) : Char :=
  if value < 10 then Char.ofNat (48 + value) else Char.ofNat (87 + value)

def escape (c : Char) : List Char :=
  if c = '"' ∨ c = '\\' then ['\\', c]
  else if c = '\n' then ['\\', 'n']
  else if c = '\r' then ['\\', 'r']
  else if c = '\t' then ['\\', 't']
  else if c.toNat = 8 then ['\\', 'b']
  else if c.toNat = 12 then ['\\', 'f']
  else if c.toNat < 32 then
    ['\\', 'u', '0', '0', hexDigit (c.toNat / 16), hexDigit (c.toNat % 16)]
  else [c]

def quote (text : String) : String :=
  String.ofList (['"'] ++ text.toList.flatMap escape ++ ['"'])

def floatText (value : Binary64) : String := if value.isFinite then value.text else "null"

def scalarText : Json → String
  | null => "null"
  | bool value => if value then "true" else "false"
  | integer value => toString value
  | float value => floatText value
  | string text => quote text
  | array _ => "[]"
  | object _ => "\x7b\x7d"

mutual

def writeCompact (done : String) : Json → String
  | array items => writeItems (done ++ "[") items ++ "]"
  | object fields => writeFields (done ++ "\x7b") fields ++ "\x7d"
  | scalar => done ++ scalarText scalar

def writeItems (done : String) : List Json → String
  | [] => done
  | [item] => writeCompact done item
  | item :: rest => writeItems (writeCompact done item ++ ",") rest

def writeFields (done : String) : List (String × Json) → String
  | [] => done
  | [(name, value)] => writeCompact (done ++ quote name ++ ":") value
  | (name, value) :: rest =>
      writeFields (writeCompact (done ++ quote name ++ ":") value ++ ",") rest

end

def compact (value : Json) : String := writeCompact "" value

def newline (depth : Nat) : String := String.ofList ('\n' :: List.replicate (2 * depth) ' ')

mutual

def writePretty (depth : Nat) (done : String) : Json → String
  | array (item :: rest) =>
      writeLines (depth + 1) (done ++ "[") (item :: rest) ++ newline depth ++ "]"
  | object (field :: rest) =>
      writeMembers (depth + 1) (done ++ "\x7b") (field :: rest) ++ newline depth ++ "\x7d"
  | scalar => done ++ scalarText scalar

def writeLines (depth : Nat) (done : String) : List Json → String
  | [] => done
  | [item] => writePretty depth (done ++ newline depth) item
  | item :: rest => writeLines depth (writePretty depth (done ++ newline depth) item ++ ",") rest

def writeMembers (depth : Nat) (done : String) : List (String × Json) → String
  | [] => done
  | [(name, value)] => writePretty depth (done ++ newline depth ++ quote name ++ ": ") value
  | (name, value) :: rest =>
      writeMembers depth
        (writePretty depth (done ++ newline depth ++ quote name ++ ": ") value ++ ",") rest

end

def pretty (value : Json) : String := writePretty 0 "" value

/-- The value of a field, the last one where a name is repeated. -/
def field? (fields : List (String × Json)) (name : String) : Option Json :=
  (fields.reverse.find? fun (other, _) => other == name).map Prod.snd

end Json

end LedgerWire
