import OffsetExplorer.Lib.Machine
import OffsetExplorer.Lib.Record
import OffsetExplorer.Lib.TreeTable
import OffsetExplorer.Lib.EvenShare
import OffsetExplorer.Lib.Script
import OffsetExplorer.Lib.Interrupt
import OffsetExplorer.Lib.MapM
import OffsetExplorer.Lib.Base64
import OffsetExplorer.Lib.Json
import OffsetExplorer.Lib.Binary64
import OffsetExplorer.Lib.JsNumber
import OffsetExplorer.Lib.Utf16
import OffsetExplorer.Lib.Chunks
import OffsetExplorer.Lib.VersionedPool
import OffsetExplorer.Lib.Mirrored
import OffsetExplorer.Lib.Bursts
import OffsetExplorer.Lib.RoundRobin
import OffsetExplorer.Error
import OffsetExplorer.Message
import OffsetExplorer.Text
import OffsetExplorer.Auth
import OffsetExplorer.Publish
import OffsetExplorer.Publish.Batch
import OffsetExplorer.Publish.Exact
import OffsetExplorer.Stream.Forward
import OffsetExplorer.Stream.Once
import OffsetExplorer.Stream.Timer
import OffsetExplorer.Fetch.Plan
import OffsetExplorer.Fetch.Budget
import OffsetExplorer.Fetch.Fair
import OffsetExplorer.Fetch.Slice
import OffsetExplorer.Fetch.Poll
import OffsetExplorer.Fetch.Ledger
import OffsetExplorer.Fetch.Account
import OffsetExplorer.Fetch.Stall
import OffsetExplorer.Fetch.ByteBudget
import OffsetExplorer.DataTab.Store
import OffsetExplorer.DataTab.View
import OffsetExplorer.DataTab.Once
import OffsetExplorer.DataTab.Window
import OffsetExplorer.DataTab.Retained
import OffsetExplorer.DataTab.Filters
import OffsetExplorer.DataTab.Request
import OffsetExplorer.DataTab.Sendable
import OffsetExplorer.DataTab.Estimate
import OffsetExplorer.DataTab.Mistyped
import OffsetExplorer.DataTab.Evict
import OffsetExplorer.DataTab.CacheKey
import OffsetExplorer.PublishTab.Draft
import OffsetExplorer.PublishTab.View
import OffsetExplorer.PublishTab.InFlight
import OffsetExplorer.PublishTab.Accept
import OffsetExplorer.PublishTab.Size
import OffsetExplorer.PublishTab.Marks
import OffsetExplorer.Core.Connection
import OffsetExplorer.Core.ConnectionExport
import OffsetExplorer.ConnectionModal.Draft
import OffsetExplorer.Session.State
import OffsetExplorer.Session.Command
import OffsetExplorer.Session.Effect
import OffsetExplorer.Session.Denial
import OffsetExplorer.Session.Update
import OffsetExplorer.Session.Disconnect
import OffsetExplorer.Session.Blocked
import OffsetExplorer.Session.Verdict
import OffsetExplorer.Session.Breaker
import OffsetExplorer.Session.Fetches
import OffsetExplorer.Session.Cancel
import OffsetExplorer.Session.Leak
import OffsetExplorer.Session.Gate
import OffsetExplorer.Session.Delete
import OffsetExplorer.Producer.Publish
import OffsetExplorer.Producer.Denied
import OffsetExplorer.Producer.Outcome
import OffsetExplorer.DataMigration.Adopt
import OffsetExplorer.DataMigration.Attempt
import OffsetExplorer.DataMigration.Launches
import OffsetExplorer.Client.Observed
import OffsetExplorer.Client.Reasons
import OffsetExplorer.Client.Pools
import OffsetExplorer.Fetch.Shards
import OffsetExplorer.Protobuf.Wire
import OffsetExplorer.Protobuf.Grammar
import OffsetExplorer.Protobuf.Exact
import OffsetExplorer.Protobuf.Accept
import OffsetExplorer.Protobuf.Header
import OffsetExplorer.Protobuf.Lossless
import OffsetExplorer.Protobuf.Resolve
import OffsetExplorer.Protobuf.Cache
import OffsetExplorer.Kafka.Assignment
import OffsetExplorer.Kafka.Lag
import OffsetExplorer.Avro.ToJson
import OffsetExplorer.Avro.Decode
import OffsetExplorer.Avro.Positions
import OffsetExplorer.Avro.Decimal
import OffsetExplorer.Avro.Times
import OffsetExplorer.JsonTreeView.Lines
import OffsetExplorer.JsonTreeView.Keys
import OffsetExplorer.JsonTreeView.Faithful
import OffsetExplorer.JsonTreeView.Widest
import OffsetExplorer.PayloadViewer.Xml
import OffsetExplorer.PayloadViewer.XmlExact
import OffsetExplorer.Tabs.Stores
import OffsetExplorer.Tabs.Order
import OffsetExplorer.Tabs.Active
import OffsetExplorer.ClusterDisconnect.Unreachable
import OffsetExplorer.Workspace.Stores
import OffsetExplorer.Workspace.FullPayload
import OffsetExplorer.Lib.Turns
import OffsetExplorer.Fetch.Deliver
import OffsetExplorer.Fetch.Sweep
import OffsetExplorer.Lib.Base64Encode
import OffsetExplorer.Lib.Utf8Lossy
import OffsetExplorer.PayloadViewer.Decoding
import OffsetExplorer.PayloadViewer.Preview
import OffsetExplorer.PayloadViewer.Literal
import OffsetExplorer.PayloadViewer.Published
import OffsetExplorer.Tabs.Table
import OffsetExplorer.Tabs.Launch
import OffsetExplorer.Lib.JsonText
import OffsetExplorer.Lib.JsonWrite
import OffsetExplorer.Lib.JsonFields
import OffsetExplorer.Core.ExportText
import OffsetExplorer.Core.Transfer
import OffsetExplorer.Registry.Decode
import OffsetExplorer.Registry.Transparent
import OffsetExplorer.Lib.Race
import OffsetExplorer.Client.Ping
import OffsetExplorer.ClusterDisconnect.Contents
import OffsetExplorer.Db.Tables
import OffsetExplorer.Session.Storm
