import LedgerWire.Json.Basic

/-!
Reading JSON text: characters are folded into tokens, and tokens into a value, each by a machine
that takes one step for one element of its input.
-/

namespace LedgerWire.Json

inductive Token where
  | scalar (value : Json)
  | openArray
  | closeArray
  | openObject
  | closeObject
  | comma
  | colon

namespace Token

def isDigit (c : Char) : Bool := '0' ≤ c && c ≤ '9'

def numberOf (digits : List Char) : Nat :=
  digits.foldl (fun value c => value * 10 + (c.toNat - 48)) 0

def exponent? : List Char → Option Int
  | [] => some 0
  | mark :: rest =>
      let (sign, digits) : Int × List Char :=
        match rest with
        | '-' :: digits => (-1, digits)
        | '+' :: digits => (1, digits)
        | digits => (1, digits)
      if (mark = 'e' ∨ mark = 'E') ∧ digits ≠ [] ∧ digits.all isDigit then
        some (sign * numberOf digits)
      else none

def appendDigits (value : Nat) : List Char → Nat × Nat
  | [] => (value, 0)
  | c :: rest =>
      let longer := value * 10 + (c.toNat - 48)
      if longer < UInt64.size then
        let (result, count) := appendDigits longer rest
        (result, count + 1)
      else (value, 0)

/-- A number without fraction and exponent is an integer if 64 bits can hold it, signed or not, and
it is not the negative zero. Of other numbers only the digits that 64 bits can hold count. -/
def magnitude? (negative : Bool) (text : List Char) : Option Json := do
  let whole := text.takeWhile isDigit
  let afterWhole := text.dropWhile isDigit
  guard (whole ≠ [] ∧ (whole.length = 1 ∨ whole.head? ≠ some '0'))
  let (fraction, afterFraction) ←
    match afterWhole with
    | '.' :: rest =>
        let fraction := rest.takeWhile isDigit
        if fraction.isEmpty then none else some (fraction, rest.dropWhile isDigit)
    | rest => some ([], rest)
  let exponent ← exponent? afterFraction
  let (value, wholeCount) := appendDigits 0 whole
  let dropped := whole.length - wholeCount
  if afterWhole.isEmpty ∧ dropped = 0 ∧ !negative then return integer value
  else if afterWhole.isEmpty ∧ dropped = 0 ∧ value ≠ 0 ∧ 2 * value ≤ UInt64.size then
    return integer (-value)
  else
    let (significand, places) := appendDigits value fraction
    return float (← Binary64.ofDecimal? negative significand (exponent + dropped - places))

def ofWord? : List Char → Option Token
  | ['n', 'u', 'l', 'l'] => some (scalar null)
  | ['t', 'r', 'u', 'e'] => some (scalar (bool true))
  | ['f', 'a', 'l', 's', 'e'] => some (scalar (bool false))
  | '-' :: rest => (magnitude? true rest).map scalar
  | word => (magnitude? false word).map scalar

/-- Where a scan stands; letters are kept with the last one first. `high` is the first half of a
surrogate pair whose second half must follow. -/
inductive Mode where
  | between
  | word (letters : List Char)
  | text (letters : List Char) (high : Option Nat)
  | escape (letters : List Char) (high : Option Nat)
  | unicode (letters : List Char) (high : Option Nat) (count value : Nat)

structure Scan where
  mode : Mode
  done : List Token

def isWordLetter (c : Char) : Bool := c.isAlphanum || c == '-' || c == '+' || c == '.'

def startAt (done : List Token) (c : Char) : Option Scan :=
  match c with
  | '[' => some ⟨.between, openArray :: done⟩
  | ']' => some ⟨.between, closeArray :: done⟩
  | '\x7b' => some ⟨.between, openObject :: done⟩
  | '\x7d' => some ⟨.between, closeObject :: done⟩
  | ',' => some ⟨.between, comma :: done⟩
  | ':' => some ⟨.between, colon :: done⟩
  | '"' => some ⟨.text [] none, done⟩
  | c =>
      if c = ' ' ∨ c = '\n' ∨ c = '\r' ∨ c = '\t' then some ⟨.between, done⟩
      else if isWordLetter c then some ⟨.word [c], done⟩
      else none

def escaped? : Char → Option Char
  | '"' => some '"'
  | '\\' => some '\\'
  | '/' => some '/'
  | 'b' => some '\x08'
  | 'f' => some '\x0c'
  | 'n' => some '\n'
  | 'r' => some '\r'
  | 't' => some '\t'
  | _ => none

def hexValue? (c : Char) : Option Nat :=
  if '0' ≤ c ∧ c ≤ '9' then some (c.toNat - 48)
  else if 'a' ≤ c ∧ c ≤ 'f' then some (c.toNat - 87)
  else if 'A' ≤ c ∧ c ≤ 'F' then some (c.toNat - 55)
  else none

def unit? (letters : List Char) (high : Option Nat) (value : Nat) : Option Mode :=
  match high with
  | some high =>
      if 0xDC00 ≤ value ∧ value < 0xE000 then
        let point := 0x10000 + (high - 0xD800) * 0x400 + (value - 0xDC00)
        some (.text (Char.ofNat point :: letters) none)
      else none
  | none =>
      if 0xD800 ≤ value ∧ value < 0xDC00 then some (.text letters (some value))
      else if 0xDC00 ≤ value ∧ value < 0xE000 then none
      else some (.text (Char.ofNat value :: letters) none)

def step (scan : Scan) (c : Char) : Option Scan := do
  match scan.mode with
  | .between => startAt scan.done c
  | .word letters =>
      if isWordLetter c then return ⟨.word (c :: letters), scan.done⟩
      else startAt ((← ofWord? letters.reverse) :: scan.done) c
  | .text letters high =>
      if c = '\\' then return ⟨.escape letters high, scan.done⟩
      else if high.isSome ∨ c.toNat < 32 then none
      else if c = '"' then
        return ⟨.between, scalar (string (String.ofList letters.reverse)) :: scan.done⟩
      else return ⟨.text (c :: letters) none, scan.done⟩
  | .escape letters high =>
      if c = 'u' then return ⟨.unicode letters high 0 0, scan.done⟩
      else if high.isSome then none
      else return ⟨.text ((← escaped? c) :: letters) none, scan.done⟩
  | .unicode letters high count value =>
      let value := value * 16 + (← hexValue? c)
      if count = 3 then return ⟨← unit? letters high value, scan.done⟩
      else return ⟨.unicode letters high (count + 1) value, scan.done⟩

def scan? (text : List Char) : Option (List Token) := do
  let scan ← text.foldlM step ⟨.between, []⟩
  match scan.mode with
  | .between => return scan.done.reverse
  | .word letters => return ((← ofWord? letters.reverse) :: scan.done).reverse
  | _ => none

end Token

inductive Frame where
  | array (items : List Json)
  | object (fields : List (String × Json))
  | member (fields : List (String × Json)) (name : String)

inductive Expected where
  | value
  | valueOrClose
  | nameOrClose
  | name
  | colon
  | commaOrClose
  | nothing (result : Json)

structure Parse where
  frames : List Frame
  expected : Expected

namespace Parse

def complete (frames : List Frame) (value : Json) : Option Parse :=
  match frames with
  | [] => some ⟨[], .nothing value⟩
  | .array items :: outer => some ⟨.array (value :: items) :: outer, .commaOrClose⟩
  | .member fields name :: outer => some ⟨.object ((name, value) :: fields) :: outer, .commaOrClose⟩
  | .object _ :: _ => none

def startValue (frames : List Frame) : Token → Option Parse
  | .scalar value => complete frames value
  | .openArray => some ⟨.array [] :: frames, .valueOrClose⟩
  | .openObject => some ⟨.object [] :: frames, .nameOrClose⟩
  | _ => none

def startMember (frames : List Frame) (token : Token) : Option Parse :=
  match frames, token with
  | .object fields :: outer, .scalar (.string name) => some ⟨.member fields name :: outer, .colon⟩
  | _, _ => none

def close (frames : List Frame) (token : Token) : Option Parse :=
  match frames, token with
  | .array items :: outer, .closeArray => complete outer (array items.reverse)
  | .object fields :: outer, .closeObject => complete outer (object fields.reverse)
  | _, _ => none

def continue? (frames : List Frame) (token : Token) : Option Parse :=
  match frames, token with
  | .array _ :: _, .comma => some ⟨frames, .value⟩
  | .object _ :: _, .comma => some ⟨frames, .name⟩
  | _, _ => close frames token

def step (parse : Parse) (token : Token) : Option Parse :=
  match parse.expected, token with
  | .value, token => startValue parse.frames token
  | .valueOrClose, .closeArray => close parse.frames .closeArray
  | .valueOrClose, token => startValue parse.frames token
  | .nameOrClose, .closeObject => close parse.frames .closeObject
  | .nameOrClose, token => startMember parse.frames token
  | .name, token => startMember parse.frames token
  | .colon, .colon => some ⟨parse.frames, .value⟩
  | .colon, _ => none
  | .commaOrClose, token => continue? parse.frames token
  | .nothing _, _ => none

end Parse

def ofText? (text : String) : Option Json := do
  let tokens ← Token.scan? text.toList
  match (← tokens.foldlM Parse.step ⟨[], .value⟩).expected with
  | .nothing result => return result
  | _ => none

end LedgerWire.Json
