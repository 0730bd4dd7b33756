import Vexta.Wallet.Spendable
import Vexta.Validation.Prune
import Vexta.Wallet.Destinations
import Vexta.Connect.Reorg
import Vexta.Script.RawRun
import Vexta.Validation.ScriptCache
import Vexta.Net.CompactSafe
import Vexta.Net.Footprint
import Vexta.Wallet.Conflicts
import Vexta.Validation.Reindex
import Vexta.Wallet.Knapsack
import Vexta.Primitives.RoundTrip
import Vexta.Pow.Asert
import Vexta.Validation.SeedEpoch
import Vexta.Validation.Earliest
import Vexta.Validation.TreeRuns
import Vexta.Connect.Merkle
import Vexta.Chain.Locator
import Vexta.Primitives.VarInt
import Vexta.Script.Conditions
import Vexta.Validation.FindBlockPos
