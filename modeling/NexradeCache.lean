import NexradeCache.Resp.SegCursor
import NexradeCache.Store.SoonestExpiry
import NexradeCache.Server.Isolation
import NexradeCache.Server.Script
import NexradeCache.Replication.Handoff
import NexradeCache.Replication.Wait
import NexradeCache.Server.Replica
import NexradeCache.Server.Deferral
import NexradeCache.Command.Scores
import NexradeCache.Server.Confinement
import NexradeCache.Persistence.Rewrite
import NexradeCache.Persistence.Snapshot
import NexradeCache.Acl.Lines
import NexradeCache.Tracking.Caching
import NexradeCache.Server.Delivery
import NexradeCache.Persistence.Dirty
import NexradeCache.Server.KeyRules
import NexradeCache.Persistence.Reader
import NexradeCache.Server.MaxMemory
import NexradeCache.Command.Xread
import NexradeCache.Command.Counters
import NexradeCache.Command.Move
import NexradeCache.Command.Ttl
import NexradeCache.Command.ConcurrentXadd
import NexradeCache.Command.GroupDelivery
import NexradeCache.Command.AutoclaimWalk
import NexradeCache.Command.RangeSpellings
import NexradeCache.Command.Geohash
import NexradeCache.Server.ScriptReplies
import NexradeCache.Server.Cjson
import NexradeCache.Server.Functions
import NexradeCache.Server.KeyEvents
import NexradeCache.Command.Lcs
import NexradeCache.Command.Lpos
import NexradeCache.Command.ZsetAlgebra
import NexradeCache.Command.HllRegisters
import NexradeCache.Server.Cluster
import NexradeCache.Command.BlockingPops
import NexradeCache.Command.Bitfield
import NexradeCache.Command.Zadd
import NexradeCache.Command.Sort
import NexradeCache.Store.ScanWalk
import NexradeCache.Command.ScanPage
import NexradeCache.Persistence.LogOrder
import NexradeCache.Store.PairOrder
import NexradeCache.Store.ElementMoves
