import LedgerWire.CommandLine.Arguments
import LedgerWire.Json.Accounts
import LedgerWire.View

/-!
Running a command: what it prints, what it logs, and how it reports a failure. The file that a
command asks for is read outside; here it is a value.
-/

namespace LedgerWire.CommandLine

inductive ReadFault where
  | absent
  | denied
  | notDirectory
  | isDirectory
  | nameTooLong
  | other (reason : String)
  deriving DecidableEq

namespace ReadFault

def ofNumber? (number : Nat) : Option ReadFault :=
  if number = 2 then some absent
  else if number = 13 then some denied
  else if number = 20 then some notDirectory
  else if number = 21 then some isDirectory
  else if number = 36 then some nameTooLong
  else none

def message : ReadFault → String
  | absent => "No such file or directory (os error 2)"
  | denied => "Permission denied (os error 13)"
  | notDirectory => "Not a directory (os error 20)"
  | isDirectory => "Is a directory (os error 21)"
  | nameTooLong => "File name too long (os error 36)"
  | other reason => reason

end ReadFault

inductive CommandError where
  | unreadable (path : String) (fault : ReadFault)
  | invalidText (encoding : Text.Encoding) (fault : Text.Encoding.Fault)
  | undecodable (subject : String) (error : WireError)
  | invalidFlag (name : String) (error : WireError)
  | wire (error : WireError)

namespace CommandError

def report (context : String) (cause : String) : String :=
  s!"Error: {context}\n\nCaused by:\n    {cause}\n"

def message : CommandError → String
  | unreadable path fault => report s!"reading {path}" fault.message
  | invalidText encoding fault => report s!"input is not valid {encoding.name}" fault.message
  | undecodable subject error => report s!"decoding {subject}" error.message
  | invalidFlag name error => report s!"parsing --{name}" error.message
  | wire error => s!"Error: {error.message}\n"

end CommandError

structure LogLine where
  level : LogLevel
  text : String
  deriving DecidableEq

structure Outcome where
  exit : UInt8
  printed : String
  logs : List LogLine
  report : String

/-- A command in progress; the log is kept with the last line first, also when it fails. -/
abbrev Job := EStateM CommandError (List LogLine)

namespace Job

def log (level : LogLevel) (text : String) : Job Unit := modify (⟨level, text⟩ :: ·)

def orFail {α : Type} (outcome : Except WireError α) (failure : WireError → CommandError) : Job α :=
  match outcome with
  | .ok value => return value
  | .error error => throw (failure error)

end Job

def packetSize : Nat := 1232

def read (file : Except ReadFault Bytes) : Source → Job Bytes
  | .text text encoding =>
      match encoding.decode text with
      | .ok bytes => return bytes
      | .error fault => throw (.invalidText encoding fault)
  | .file path =>
      match file with
      | .ok bytes => return bytes
      | .error fault => throw (.unreadable path fault)

def line (value : Json) : String := value.pretty ++ "\n"

def decodeTransaction (bytes : Bytes) : Job String := do
  let size := bytes.length
  Job.log .debug s!"decoding {size} transaction bytes"
  let transaction ← Job.orFail (Transaction.decode bytes) (.undecodable "transaction")
  let isVerified ←
    match transaction.verify with
    | .ok () => pure true
    | .error error => do
        Job.log .warn error.message
        pure false
  if packetSize < size then
    Job.log .warn s!"transaction is {size} bytes, above the {packetSize} byte packet limit"
  let view ← Job.orFail (TransactionView.ofTransaction transaction isVerified size) .wire
  return line view.json

def decodeMessage (bytes : Bytes) : Job String := do
  let message ← Job.orFail (Message.decode bytes) (.undecodable "message")
  let view ← Job.orFail (MessageView.ofMessage message) .wire
  return line view.json

def stateName : StakeState → String
  | .uninitialized => "Uninitialized"
  | .initialized => "Initialized"
  | .delegated => "Delegated"
  | .rewardsPool => "RewardsPool"
  | .unknown tag => s!"Unknown({tag})"

def stake (bytes : Bytes) : Job String := do
  let account ← Job.orFail (StakeAccount.decode bytes) (.undecodable "stake account")
  let state := stateName account.state
  Job.log .debug s!"state={state} delegated={account.isDelegated}"
  return line account.json

def vote (bytes : Bytes) : Job String := do
  let account ← Job.orFail (VoteAccount.decode bytes) (.undecodable "vote account")
  let votes := account.votes.length
  Job.log .debug s!"version={account.layout.name} votes={votes}"
  return line account.json

def transfer (order : TransferOrder) : Job String := do
  let payer ← Job.orFail (Keypair.ofText order.keypair) (.invalidFlag "keypair")
  let target ← Job.orFail (FixedBytes.ofText .publicKey order.target) (.invalidFlag "to")
  let blockhash ← Job.orFail (FixedBytes.ofText .hash order.blockhash) (.invalidFlag "blockhash")
  let source := payer.publicKey
  let instruction := SystemProgram.transfer source target order.lamports
  let transaction ←
    Job.orFail (Transaction.build [instruction] source blockhash [payer.signer]) .wire
  let bytes ← Job.orFail transaction.encode .wire
  if let some signature := transaction.id? then
    let parties := s!"{source.toText} -> {target.toText}"
    Job.log .info
      s!"✍️  {parties}: {order.lamports} lamports, signature {signature.toText}"
  return order.encoding.encode bytes ++ "\n"

def Command.job (file : Except ReadFault Bytes) : Command → Job String
  | decodeTransaction source => do CommandLine.decodeTransaction (← read file source)
  | decodeMessage source => do CommandLine.decodeMessage (← read file source)
  | stake source => do CommandLine.stake (← read file source)
  | vote source => do CommandLine.vote (← read file source)
  | transfer order => CommandLine.transfer order

def Command.path? : Command → Option String
  | decodeTransaction (.file path) => some path
  | decodeMessage (.file path) => some path
  | stake (.file path) => some path
  | vote (.file path) => some path
  | _ => none

def visible (level : LogLevel) (logs : List LogLine) : List LogLine :=
  logs.reverse.filter fun entry => entry.level.rank ≤ level.rank

def run (level : LogLevel) (command : Command) (file : Except ReadFault Bytes) : Outcome :=
  match command.job file [] with
  | .ok printed logs => ⟨0, printed, visible level logs, ""⟩
  | .error failure logs => ⟨1, "", visible level logs, failure.message⟩

def usageExit : UInt8 := 2

def versionText : String := "solwire 0.1.0\n"

end LedgerWire.CommandLine
