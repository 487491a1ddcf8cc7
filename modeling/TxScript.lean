import TxScript.Machine.Access
import TxScript.Machine.Display
import TxScript.Proofs.Machine.Operations
import TxScript.Proofs.Machine.Verdict
import TxScript.Proofs.Machine.Branches
import TxScript.Script.Assembly
import TxScript.Tx.Reading
import TxScript.Tx.Signing
import TxScript.Wire.Item
import TxScript.Proofs.Machine.PayToPublicKeyHash
import TxScript.Proofs.Machine.PayToScriptHash
import TxScript.Proofs.Machine.Matching
import TxScript.Proofs.Machine.Multisig
import TxScript.Proofs.Curve.Modulus
import TxScript.Proofs.Curve.Field
import TxScript.Proofs.Curve.Group
import TxScript.Proofs.Curve.Der
import TxScript.Proofs.Curve.PublicKey
import TxScript.Proofs.Tx.DigestFrame
import TxScript.Proofs.Tx.CoveredFields
import TxScript.Proofs.Tx.Reading
import TxScript.Proofs.Tx.Signing
import TxScript.Proofs.Tx.SigningOrder
import TxScript.Proofs.Tx.OtherInputs
import TxScript.Proofs.Machine.Conditionals
import TxScript.Proofs.Tx.OriginalMessage
import TxScript.Proofs.Machine.Frame
import TxScript.Proofs.Tx.ForkMessage
import TxScript.Proofs.Machine.Nesting
import TxScript.Proofs.Indexed.Spend
import TxScript.Proofs.Machine.Failure
import TxScript.Proofs.Machine.Limits
import TxScript.Proofs.Script.Canonical
import TxScript.Proofs.Tx.Boundaries
import TxScript.Proofs.Tx.Written
import TxScript.Proofs.Json.Plain
import TxScript.Proofs.Script.Stored
import TxScript.Proofs.Machine.Heights
import TxScript.Proofs.Machine.BlockTime
import TxScript.Proofs.Machine.Reencoding
import TxScript.Proofs.Machine.ElementSize
import TxScript.Proofs.Machine.Budget
import TxScript.Proofs.Script.BreakingOff
import TxScript.Proofs.Script.Mnemonics
import TxScript.Proofs.Indexed.MultisigTrials
import TxScript.Proofs.Tx.SignatureForms
import TxScript.Proofs.Machine.Spelling
import TxScript.Proofs.Machine.Arithmetic
import TxScript.Proofs.Machine.LockTimes
import TxScript.Proofs.Machine.Pictures
import TxScript.Proofs.Machine.Widths
import TxScript.Proofs.Curve.Sequence
import TxScript.Proofs.Tx.SignedInput
import TxScript.Proofs.Machine.Constants
import TxScript.Proofs.Script.Deletion
import TxScript.Proofs.Tx.ScriptCode
import TxScript.Proofs.Script.MultisigForm
import TxScript.Proofs.Script.StandardForms
import TxScript.Proofs.Curve.KeyForms
import TxScript.Proofs.Tx.OriginalStream
import TxScript.Proofs.Script.Fitting
import TxScript.Proofs.Script.Extending
import TxScript.Proofs.Wire.Announced
import TxScript.Proofs.Wire.Items
import TxScript.Proofs.Wire.Positions
import TxScript.Proofs.Indexed.Items
