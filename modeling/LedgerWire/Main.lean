import LedgerWire.CommandLine.Run

/-!
The command line tool: reads the file that a command asks for, runs the command, and prints.
-/

namespace LedgerWire.CommandLine

def usage : String :=
  "usage: [--log-level LEVEL] decode-tx|decode-message|stake|vote (--input TEXT|--file PATH) " ++
    "[--encoding base58|base64|hex]\n" ++
    "       [--log-level LEVEL] transfer --keypair TEXT --to KEY --lamports NUMBER " ++
    "--blockhash HASH [--output-encoding base58|base64|hex]\n"

/-- The number of a reason, which the runtime may have negated. -/
def numberOf (code : UInt32) : Nat := if code.toNat < 0x80000000 then code.toNat else (-code).toNat

def faultOf (failure : IO.Error) : ReadFault :=
  let known : Option ReadFault :=
    match failure with
    | .noFileOrDirectory .. => some .absent
    | .permissionDenied .. => some .denied
    | .inappropriateType _ code _ => ReadFault.ofNumber? (numberOf code)
    | .invalidArgument _ code _ => ReadFault.ofNumber? (numberOf code)
    | _ => none
  known.getD (.other (toString failure))

def readSource (command : Command) : IO (Except ReadFault Bytes) := do
  match command.path? with
  | none => return .ok []
  | some path =>
      try return .ok (← IO.FS.readBinFile path).toList
      catch failure => return .error (faultOf failure)

def perform (level : LogLevel) (command : Command) : IO UInt32 := do
  let outcome := run level command (← readSource command)
  for entry in outcome.logs do
    IO.eprintln s!"{entry.level.name.toUpper} {entry.text}"
  IO.print outcome.printed
  IO.eprint outcome.report
  return outcome.exit.toUInt32

end LedgerWire.CommandLine

open LedgerWire.CommandLine in
def main (arguments : List String) : IO UInt32 := do
  match parse? arguments with
  | none =>
      IO.eprint usage
      return usageExit.toUInt32
  | some .help =>
      IO.print usage
      return 0
  | some .version =>
      IO.print versionText
      return 0
  | some (.run level command) => perform level command
