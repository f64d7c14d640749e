import Itch.Lib.Except
import Itch.Lib.Buffer
import Itch.Lib.BigEndian
import Itch.Lib.Text
import Itch.Lib.TextCut
import Itch.Lib.Decimal
import Itch.Lib.FinMap
import Itch.Lib.Word64
import Itch.Lib.Numbered
import Itch.Lib.Segment
import Itch.Lib.FirstMissing
import Itch.Lib.BinarySearch
import Itch.Lib.Tiling
import Itch.Lib.Framing
import Itch.Lib.FramedRead
import Itch.Lib.Run
import Itch.Lib.Read
import Itch.Lib.PollStream
import Itch.Lib.Hub
import Itch.Lib.Service
import Itch.Lib.Expiring
import Itch.Lib.Double
import Itch.Lib.Before
import Itch.Lib.Mailbox
import Itch.Protocol.Enums
import Itch.Protocol.Messages
import Itch.Protocol.Codec
import Itch.Protocol.RoundTrip
import Itch.Protocol.Rejection
import Itch.Book.L2
import Itch.Book.L2Totals
import Itch.Book.Ledger
import Itch.Book.L3
import Itch.Book.L3Queues
import Itch.Book.Priority
import Itch.Book.Simulation
import Itch.Book.Ops
import Itch.Book.Foreign
import Itch.Book.Orphans
import Itch.Book.Manager
import Itch.Book.Routing
import Itch.Book.Atomic
import Itch.Book.Quotes
import Itch.Book.Ohlcv
import Itch.Mold.Packet
import Itch.Mold.PacketCodec
import Itch.Mold.Receiver
import Itch.Mold.Advance
import Itch.Mold.PrefixSafety
import Itch.Mold.Completeness
import Itch.Mold.Publisher
import Itch.Mold.Packing
import Itch.Mold.EndToEnd
import Itch.Mold.Datagrams
import Itch.Mold.RequestServer
import Itch.Mold.Retransmission
import Itch.Mold.Status
import Itch.Mold.GapReports
import Itch.Mold.Checked
import Itch.Mold.Overflow
import Itch.Mold.Orderly
import Itch.Mold.GapRecovery
import Itch.Mold.Answers
import Itch.Mold.Polls
import Itch.Mold.Recovery
import Itch.Mold.Outcomes
import Itch.Mold.Silence
import Itch.Source.SeqStore
import Itch.Source.Contract
import Itch.Source.Warmup
import Itch.Source.Paced
import Itch.Source.Postgres
import Itch.Source.Redis
import Itch.Source.RedisKeys
import Itch.Source.RedisMemory
import Itch.Source.RedisReads
import Itch.Source.RedisFound
import Itch.Source.RedisLatest
import Itch.Soup.Packet
import Itch.Soup.Framing
import Itch.Soup.RoundTrip
import Itch.Soup.Chunks
import Itch.Soup.Server
import Itch.Soup.Moves
import Itch.Soup.Ledger
import Itch.Soup.Handoff
import Itch.Soup.Delivery
import Itch.Soup.Connection
import Itch.Soup.SessionId
import Itch.Soup.Resilient
import Itch.Soup.Failover
import Itch.Soup.Reconnect
import Itch.Soup.Backoff
import Itch.Soup.LinkState
import Itch.Soup.EndToEnd
import Itch.Soup.Completion
import Itch.Soup.Inbox
import Itch.Soup.Restart
import Itch.Soup.Shutdown
import Itch.Compressed.Payload
import Itch.Compressed.Connection
import Itch.Compressed.Resilient
import Itch.Compressed.Resumption
import Itch.Tcp.Codec
import Itch.Tcp.Server
import Itch.Tcp.Segments
import Itch.Tcp.Client
import Itch.Soup.Client
import Itch.Tcp.EndToEnd
import Itch.Replay.Capture
import Itch.Replay.Exact
import Itch.Replay.Offset
import Itch.Mold.Network
