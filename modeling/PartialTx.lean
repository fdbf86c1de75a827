import PartialTx.FieldMap
import PartialTx.Json.Reader
import PartialTx.Log.Console
import PartialTx.Output.Build
import PartialTx.Output.Decode
import PartialTx.Output.View
import PartialTx.Proofs.Output.Canonical
import PartialTx.Proofs.Output.RoundTrip
import PartialTx.Settings.File
import PartialTx.Proofs.FieldMap.Checked
import PartialTx.Proofs.Output.Faults
import PartialTx.Proofs.Output.Truncation
import PartialTx.Proofs.Bytes.Hex
import PartialTx.Proofs.KeyPath.Text
import PartialTx.Proofs.Origin.Lookup
import PartialTx.Proofs.Output.Equality
import PartialTx.Proofs.Output.Combination
import PartialTx.Proofs.Output.Storing
import PartialTx.Proofs.Output.StoringInPlace
import PartialTx.Proofs.Output.Merging
import PartialTx.Proofs.Output.Rearrangement
import PartialTx.Proofs.Output.Assembly
import PartialTx.Proofs.CompactSize.Prefix
import PartialTx.Proofs.Origin.Unpacking
import PartialTx.Proofs.Output.Precedence
import PartialTx.Proofs.Output.BreakingOff
import PartialTx.Proofs.KeyPath.Canonical
import PartialTx.Proofs.FieldMap.Transcript
import PartialTx.Proofs.Origin.Rebuilding
import PartialTx.Proofs.KeyPath.Grammar
import PartialTx.Proofs.Output.WritingInPlace
import PartialTx.Proofs.Output.Limits
import PartialTx.Proofs.Output.Requests
import PartialTx.Proofs.Output.ShortReads
import PartialTx.Proofs.Output.Tracing
import PartialTx.Proofs.Settings.Conversion
import PartialTx.Proofs.Origin.Sorting
import PartialTx.Proofs.Output.HexText
import PartialTx.Proofs.Log.Handlers
import PartialTx.Value.Equality
