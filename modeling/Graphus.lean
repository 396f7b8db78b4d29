import Graphus.Txn.SsiSerializable
import Graphus.Txn.FirstCommitterWins
import Graphus.Wal.Restart
import Graphus.Wal.TornTail
import Graphus.Crypto.WalSinkRun
import Graphus.Storage.FreezePrune
import Graphus.Sync.StagingBarrier
import Graphus.Sync.ChainHead
import Graphus.Sync.PageMap
import Graphus.Cypher.RowOrdering
import Graphus.Cypher.IndexSet
import Graphus.Wal.InteriorCorruption
import Graphus.Bolt.SessionAuth
import Graphus.Bolt.SessionStreams
import Graphus.Storage.CommitHorizon
import Graphus.Storage.DurableBookmark
import Graphus.Storage.CommittedCatalog
import Graphus.Storage.DoublewriteRun
import Graphus.Storage.ChainOrder
import Graphus.Storage.IdAlloc
import Graphus.Cypher.PrunedExpand
import Graphus.Cypher.AuthorizedWrites
import Graphus.Storage.PoolFaults
import Graphus.Sync.LogBeforeData
import Graphus.Auth.BearerToken
import Graphus.Txn.SsiGraph
import Graphus.Core.DateParts
import Graphus.Bolt.Framing
import Graphus.Core.TimeZone
