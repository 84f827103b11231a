import LedgerWire.FixedBytes

/-!
What can go wrong when bytes are read, written, compiled or signed, and the sentence that tells it.
-/

namespace LedgerWire

inductive Encoded where
  | fixed (kind : FixedBytes.Kind)
  | keypair
  | voteAccount
  deriving DecidableEq

def Encoded.label : Encoded → String
  | fixed kind => kind.label
  | keypair => "keypair"
  | voteAccount => "vote account"

inductive EncodingFault where
  | base58 (fault : Text.Base58.Fault)
  | wrongLength (expected actual : Nat)
  | notOnCurve
  | mismatchedKeypair
  | optionTag (tag : UInt8) (offset : Nat)
  deriving DecidableEq

inductive HeaderFault where
  | readonlySigned (readonly signers : Nat)
  | tooFewKeys (covered keys : Nat)
  | classTooLarge (accounts : Nat)
  | tooManySignatures (signatures required : Nat)
  deriving DecidableEq

inductive Versioned where
  | message
  | voteAccount
  deriving DecidableEq

def Versioned.label : Versioned → String
  | message => "message"
  | voteAccount => "vote account"

inductive WireError where
  | encodingRange (value limit : Nat)
  | truncatedInput (offset needed remaining : Nat)
  | indexOutOfRange (index length : Nat)
  | invalidEncoding (subject : Encoded) (fault : EncodingFault)
  | bufferTooSmall (record : String) (offset needed length : Nat)
  | unknownSigner (key : PublicKey)
  | missingSigner (slot : Nat) (key : PublicKey)
  | invalidHeader (fault : HeaderFault)
  | duplicateAccount (index : Nat) (key : PublicKey)
  | unsupportedVersion (subject : Versioned) (version : Nat)
  | trailingBytes (offset remaining : Nat)
  | signing (key : PublicKey) (reason : String)
  | invalidSignature (slot : Nat) (key : PublicKey)
  deriving DecidableEq

def EncodingFault.message : EncodingFault → String
  | base58 fault => fault.message
  | wrongLength expected actual => s!"expected {expected} bytes, got {actual}"
  | notOnCurve => "signature error: Cannot decompress Edwards point"
  | mismatchedKeypair => "signature error: Mismatched Keypair detected"
  | optionTag tag offset => s!"option tag {tag} at offset {offset}"

def HeaderFault.message : HeaderFault → String
  | readonlySigned readonly signers =>
      s!"{readonly} read-only signed accounts but only {signers} signers"
  | tooFewKeys covered keys => s!"header covers {covered} accounts, table has {keys}"
  | classTooLarge accounts => s!"{accounts} accounts in one header class, at most 255 fit"
  | tooManySignatures signatures required =>
      s!"{signatures} signatures for {required} required signers"

def WireError.message : WireError → String
  | encodingRange value limit =>
      s!"compact length {value} exceeds the 3-byte range (max {limit})"
  | truncatedInput offset needed remaining =>
      s!"truncated input at offset {offset}: need {needed} bytes, {remaining} remaining"
  | indexOutOfRange index length => s!"index {index} out of range for table of {length} entries"
  | invalidEncoding subject fault => s!"invalid {subject.label} encoding: {fault.message}"
  | bufferTooSmall record offset needed length =>
      s!"{record} buffer too small: need {needed} bytes at offset {offset}, have {length}"
  | unknownSigner key => s!"signer {key.toText} is not a required signer of the message"
  | missingSigner slot key => s!"missing signature for {key.toText} at slot {slot}"
  | invalidHeader fault => s!"inconsistent message header: {fault.message}"
  | duplicateAccount index key => s!"account {key.toText} appears again at index {index}"
  | unsupportedVersion subject version => s!"unsupported {subject.label} version {version}"
  | trailingBytes offset remaining => s!"{remaining} trailing bytes after offset {offset}"
  | signing key reason => s!"signer {key.toText} failed: {reason}"
  | invalidSignature slot key => s!"signature at slot {slot} does not verify for {key.toText}"

namespace FixedBytes

def ofBytes (kind : Kind) (bytes : Bytes) : Except WireError (FixedBytes kind) :=
  match ofBytes? kind bytes with
  | some value => .ok value
  | none => .error (.invalidEncoding (.fixed kind) (.wrongLength kind.size bytes.length))

/-- The text is taken as it stands, without trimming. -/
def ofText (kind : Kind) (text : String) : Except WireError (FixedBytes kind) :=
  match Text.Base58.decode text with
  | .ok bytes => ofBytes kind bytes
  | .error fault => .error (.invalidEncoding (.fixed kind) (.base58 fault))

end FixedBytes

end LedgerWire
