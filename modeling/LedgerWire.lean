import LedgerWire.Account.Stake
import LedgerWire.Account.Vote
import LedgerWire.Binary64
import LedgerWire.Bytes
import LedgerWire.CommandLine.Arguments
import LedgerWire.CommandLine.Run
import LedgerWire.CompactLength
import LedgerWire.Decoder
import LedgerWire.Ed25519.Curve
import LedgerWire.Ed25519.Signing
import LedgerWire.Error
import LedgerWire.FixedBytes
import LedgerWire.Instruction
import LedgerWire.Json.Accounts
import LedgerWire.Json.Basic
import LedgerWire.Json.Form
import LedgerWire.Json.Reader
import LedgerWire.Json.Records
import LedgerWire.Main
import LedgerWire.Message.Basic
import LedgerWire.Message.Compile
import LedgerWire.Message.Wire
import LedgerWire.Proofs.CollectedSignatures
import LedgerWire.Proofs.CompactLength
import LedgerWire.Proofs.Compile
import LedgerWire.Proofs.CompiledWire
import LedgerWire.Proofs.Decoder
import LedgerWire.Proofs.DecoderFailure
import LedgerWire.Proofs.HonestSigning
import LedgerWire.Proofs.InputExtent
import LedgerWire.Proofs.KeyLayout
import LedgerWire.Proofs.KeyTable
import LedgerWire.Proofs.MessageSpelling
import LedgerWire.Proofs.MessageStructure
import LedgerWire.Proofs.Outcome
import LedgerWire.Proofs.PrivilegeClasses
import LedgerWire.Proofs.ReceivedBytes
import LedgerWire.Proofs.SelfDelimiting
import LedgerWire.Proofs.SignatureBlock
import LedgerWire.Proofs.SignatureSlots
import LedgerWire.Proofs.SigningSession
import LedgerWire.Proofs.TransactionSpelling
import LedgerWire.Proofs.WireRoundTrip
import LedgerWire.Radix
import LedgerWire.Sha512
import LedgerWire.Signer
import LedgerWire.Text.Base58
import LedgerWire.Text.Base64
import LedgerWire.Text.Encoding
import LedgerWire.Text.Hex
import LedgerWire.Text.Quoted
import LedgerWire.Transaction.Basic
import LedgerWire.Transaction.Signing
import LedgerWire.View
import LedgerWire.WellKnown
import LedgerWire.Proofs.Decompile
import LedgerWire.Proofs.Recompile
import LedgerWire.Proofs.RecordFields
import LedgerWire.Proofs.StakeLayout
import LedgerWire.Proofs.VoteLayout
import LedgerWire.Proofs.JsonText
import LedgerWire.Proofs.JsonForms
import LedgerWire.Proofs.MessageView
import LedgerWire.Proofs.CompileOutcome
import LedgerWire.Proofs.PartialSigning
import LedgerWire.Proofs.SigningOrder
import LedgerWire.Proofs.FullSigning
import LedgerWire.Proofs.BuildOutcome
import LedgerWire.Proofs.PlacedSignatures
import LedgerWire.Proofs.StructureCheck
import LedgerWire.Proofs.LongerInput
import LedgerWire.Proofs.EncodeOutcome
import LedgerWire.Proofs.BlockhashSwap
import LedgerWire.Proofs.DurableNonce
import LedgerWire.Proofs.AuthorizedVoters
import LedgerWire.Proofs.VoteFailure
import LedgerWire.Proofs.TextForms
import LedgerWire.Proofs.Transfer
import LedgerWire.Proofs.KeyText
import LedgerWire.Proofs.LengthGroups
import LedgerWire.Proofs.IndexedReader
import LedgerWire.Proofs.LengthCodec
import LedgerWire.Proofs.ReaderRuns
