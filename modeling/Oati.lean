import Oati.Cli.ReplayFile
import Oati.Cli.Signature
import Oati.Conformance.Canonical
import Oati.Conformance.Decimal
import Oati.Conformance.Projection
import Oati.Conformance.PublicKeys
import Oati.Conformance.SignerBinding
import Oati.Go.Agreement
import Oati.Go.Panics
import Oati.Go.Replay
import Oati.Python.Narrowing
import Oati.Python.Replay
import Oati.TypeScript.Binding
import Oati.TypeScript.CanonicalSpec
import Oati.TypeScript.Chain
import Oati.TypeScript.Currency
import Oati.TypeScript.Delegation
import Oati.TypeScript.Denial
import Oati.TypeScript.Discovery
import Oati.TypeScript.DpopReplay
import Oati.TypeScript.GatewayAdmits
import Oati.TypeScript.GatewayRequest
import Oati.TypeScript.GatewayRwa
import Oati.TypeScript.HeaderCodec
import Oati.TypeScript.Invalidation
import Oati.TypeScript.Limits
import Oati.TypeScript.LookupOrder
import Oati.TypeScript.Monotone
import Oati.TypeScript.ProfileReceipts
import Oati.TypeScript.Receipts
import Oati.TypeScript.Replay
import Oati.TypeScript.Snapshots
import Oati.TypeScript.Spelling
import Oati.TypeScript.Totality
import Oati.TypeScript.UsageHistory
import Oati.TypeScript.Valkey
