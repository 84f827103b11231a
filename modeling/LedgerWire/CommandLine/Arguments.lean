import LedgerWire.Text.Encoding

/-!
The arguments of a command line: flags with values, then a command with flags of its own. A value
follows its flag after an equals sign or as the next argument, which then must not look like a flag.
The log level may be given before the command, after it, or both, and the later one counts.
-/

namespace LedgerWire.CommandLine

inductive LogLevel where
  | error
  | warn
  | info
  | debug
  | trace
  deriving DecidableEq, Repr

namespace LogLevel

def all : List LogLevel := [error, warn, info, debug, trace]

def name : LogLevel → String
  | error => "error"
  | warn => "warn"
  | info => "info"
  | debug => "debug"
  | trace => "trace"

def rank : LogLevel → Nat
  | error => 0
  | warn => 1
  | info => 2
  | debug => 3
  | trace => 4

end LogLevel

inductive Source where
  | text (text : String) (encoding : Text.Encoding)
  | file (path : String)
  deriving DecidableEq

structure TransferOrder where
  keypair : String
  target : String
  lamports : UInt64
  blockhash : String
  encoding : Text.Encoding
  deriving DecidableEq

inductive Command where
  | decodeTransaction (source : Source)
  | decodeMessage (source : Source)
  | stake (source : Source)
  | vote (source : Source)
  | transfer (order : TransferOrder)
  deriving DecidableEq

inductive Request where
  | run (level : LogLevel) (command : Command)
  | help
  | version
  deriving DecidableEq

inductive ValueKind where
  | text
  | path
  | number
  | encoding
  | level
  deriving DecidableEq

structure Flag where
  name : String
  kind : ValueKind
  deriving DecidableEq

abbrev Values := List (String × String)

inductive Stop where
  | finished
  | word (word : String) (rest : List String)
  | help
  | version

/-- A run of flags. The value of `last?` stands apart from its flag and has not been looked at. -/
structure Reading where
  values : Values
  last? : Option (Flag × String)
  stop : Stop

def encodingOf? (text : String) : Option Text.Encoding :=
  Text.Encoding.all.find? fun encoding => encoding.name == text

def levelOf? (text : String) : Option LogLevel :=
  LogLevel.all.find? fun level => level.name == text

def word64Of? (text : String) : Option UInt64 :=
  let digits :=
    match text.toList with
    | '+' :: digits => digits
    | digits => digits
  if digits.isEmpty || digits.any (fun c => c < '0' || '9' < c) then none
  else
    let value := digits.foldl (fun value c => value * 10 + (c.toNat - 48)) 0
    if value < UInt64.size then some (UInt64.ofNat value) else none

def ValueKind.accepts (kind : ValueKind) (value : String) : Bool :=
  match kind with
  | text => true
  | path => !value.isEmpty
  | number => (word64Of? value).isSome
  | encoding => (encodingOf? value).isSome
  | level => (levelOf? value).isSome

def looksLikeFlag (argument : String) : Bool := argument.startsWith "-" && argument != "-"

def splitFlag (argument : String) : String × Option String :=
  let text := argument.toList.drop 2
  let name := String.ofList (text.takeWhile (· != '='))
  match text.dropWhile (· != '=') with
  | [] => (name, none)
  | _ :: value => (name, some (String.ofList value))

def settle (values : Values) : Option (Flag × String) → Option Values
  | none => some values
  | some (flag, value) =>
      if (values.lookup flag.name).isNone ∧ flag.kind.accepts value then
        some ((flag.name, value) :: values)
      else none

/-- Reads flags up to the first argument that is none. A value that stands apart from its flag is
settled when the next flag comes, so a word may stop the run before that. -/
def readFlags (known : List Flag) (values : Values) (last? : Option (Flag × String)) :
    List String → Option Reading
  | [] => do return ⟨← settle values last?, none, .finished⟩
  | argument :: rest =>
      if argument = "--" then
        if rest.isEmpty then do return ⟨← settle values last?, none, .finished⟩ else none
      else if argument = "--help" ∨ argument.startsWith "-h" then do
        return ⟨← settle values last?, none, .help⟩
      else if argument = "--version" ∨ argument.startsWith "-V" then do
        return ⟨← settle values last?, none, .version⟩
      else if argument.startsWith "--" then
        let (name, value) := splitFlag argument
        match known.find? fun flag => flag.name == name, settle values last? with
        | some flag, some values =>
            match value, rest with
            | some value, rest =>
                match settle values (some (flag, value)) with
                | some values => readFlags known values none rest
                | none => none
            | none, value :: rest =>
                if looksLikeFlag value then none else readFlags known values (some (flag, value)) rest
            | none, [] => none
        | _, _ => none
      else if looksLikeFlag argument then none
      else some ⟨values, last?, .word argument rest⟩

def valueOr {α : Type} (values : Values) (name : String) (otherwise : α)
    (read : String → Option α) : Option α :=
  match values.lookup name with
  | some text => read text
  | none => some otherwise

def sourceOf? (values : Values) : Option Source := do
  let encoding ← valueOr values "encoding" .base64 encodingOf?
  match values.lookup "input", values.lookup "file" with
  | some text, none => return .text text encoding
  | none, some path => return .file path
  | _, _ => none

def transferOf? (values : Values) : Option TransferOrder := do
  let keypair ← values.lookup "keypair"
  let target ← values.lookup "to"
  let lamports ← word64Of? (← values.lookup "lamports")
  let blockhash ← values.lookup "blockhash"
  let encoding ← valueOr values "output-encoding" .base64 encodingOf?
  return ⟨keypair, target, lamports, blockhash, encoding⟩

def logFlag : Flag := ⟨"log-level", .level⟩

def sourceFlags : List Flag :=
  [logFlag, ⟨"input", .text⟩, ⟨"file", .path⟩, ⟨"encoding", .encoding⟩]

def transferFlags : List Flag :=
  [logFlag, ⟨"keypair", .text⟩, ⟨"to", .text⟩, ⟨"lamports", .number⟩, ⟨"blockhash", .text⟩,
    ⟨"output-encoding", .encoding⟩]

def helpTopics : List String := ["help", "decode-tx", "decode-message", "stake", "vote", "transfer"]

def commandOf? : String → Option (List Flag × (Values → Option Command))
  | "decode-tx" => some (sourceFlags, fun values => (sourceOf? values).map .decodeTransaction)
  | "decode-message" => some (sourceFlags, fun values => (sourceOf? values).map .decodeMessage)
  | "stake" => some (sourceFlags, fun values => (sourceOf? values).map .stake)
  | "vote" => some (sourceFlags, fun values => (sourceOf? values).map .vote)
  | "transfer" => some (transferFlags, fun values => (transferOf? values).map .transfer)
  | _ => none

/-- What the arguments ask for, unless they are at fault. A plea for help is answered before the
last value in front of the command is settled. -/
def parse? (arguments : List String) : Option Request := do
  let outer ← readFlags [logFlag] [] none arguments
  match outer.stop with
  | .help => return .help
  | .version => return .version
  | .finished => none
  | .word "help" [] => return .help
  | .word "help" [topic] => if topic ∈ helpTopics then return .help else none
  | .word word rest =>
      let (known, make) ← commandOf? word
      let inner ← readFlags known [] none rest
      match inner.stop with
      | .help => return .help
      | .finished =>
          let command ← make inner.values
          let values ← settle outer.values outer.last?
          let outerLevel ← valueOr values logFlag.name .info levelOf?
          return .run (← valueOr inner.values logFlag.name outerLevel levelOf?) command
      | .version => none
      | .word _ _ => none

end LedgerWire.CommandLine
