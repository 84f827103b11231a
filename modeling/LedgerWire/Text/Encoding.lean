import LedgerWire.Text.Base58
import LedgerWire.Text.Base64

/-!
The texts in which bytes are given and taken. White space around a text, as Unicode's White_Space
property has it, is no part of it.
-/

namespace LedgerWire.Text

namespace Blank

def points : List Nat :=
  [0x09, 0x0A, 0x0B, 0x0C, 0x0D, 0x20, 0x85, 0xA0, 0x1680, 0x2000, 0x2001, 0x2002, 0x2003, 0x2004,
   0x2005, 0x2006, 0x2007, 0x2008, 0x2009, 0x200A, 0x2028, 0x2029, 0x202F, 0x205F, 0x3000]

def isBlank (c : Char) : Bool := points.contains c.toNat

def trimEnds (text : List Char) : List Char :=
  ((text.dropWhile isBlank).reverse.dropWhile isBlank).reverse

def trim (text : String) : String := String.ofList (trimEnds text.toList)

end Blank

inductive Encoding where
  | base58
  | base64
  | hex
  deriving DecidableEq, Repr

namespace Encoding

inductive Fault where
  | base58 (fault : Base58.Fault)
  | base64 (fault : Base64.Fault)
  | hex (fault : Hex.Fault)
  deriving DecidableEq

def Fault.message : Fault → String
  | base58 fault => fault.message
  | base64 fault => fault.message
  | hex fault => fault.message

def name : Encoding → String
  | base58 => "base58"
  | base64 => "base64"
  | hex => "hex"

def all : List Encoding := [base58, base64, hex]

def encode (encoding : Encoding) (bytes : Bytes) : String :=
  match encoding with
  | base58 => Base58.encode bytes
  | base64 => Base64.encode bytes
  | hex => Hex.encode bytes

def decode (encoding : Encoding) (text : String) : Except Fault Bytes :=
  let trimmed := Blank.trim text
  match encoding with
  | base58 => (Base58.decode trimmed).mapError .base58
  | base64 => (Base64.decode trimmed).mapError .base64
  | hex => (Hex.decode trimmed).mapError .hex

end Encoding

end LedgerWire.Text
