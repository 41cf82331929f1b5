import Kungfu.Common.ArrayJson
import Kungfu.Common.Assign
import Kungfu.Common.Data
import Kungfu.Common.Event
import Kungfu.Common.Field
import Kungfu.Common.Json
import Kungfu.Common.Layout
import Kungfu.Common.Parse
import Kungfu.Common.ParseSafety
import Kungfu.Common.Record
import Kungfu.Lib.BitMask
import Kungfu.Lib.CString
import Kungfu.Lib.Dispatch
import Kungfu.Lib.History
import Kungfu.Lib.Json
import Kungfu.Lib.JsonDelimited
import Kungfu.Lib.JsonGrammar
import Kungfu.Lib.JsonText
import Kungfu.Lib.KeyedMap
import Kungfu.Lib.KeyedTable
import Kungfu.Lib.Memory
import Kungfu.Lib.Overwriting
import Kungfu.Lib.Reader
import Kungfu.Lib.Traverse
import Kungfu.Lib.Utf8
import Kungfu.Lib.Utf8Char
import Kungfu.Longfist.Copy
import Kungfu.Longfist.Enums
import Kungfu.Longfist.Text
import Kungfu.Longfist.Types
import Kungfu.Nlohmann.Cut
import Kungfu.Nlohmann.Decode
import Kungfu.Nlohmann.Delimited
import Kungfu.Nlohmann.DumpEscaped
import Kungfu.Nlohmann.DumpInteger
import Kungfu.Nlohmann.Grammar
import Kungfu.Nlohmann.Lexer
import Kungfu.Nlohmann.Parser
import Kungfu.Nlohmann.RoundTrip
import Kungfu.Nlohmann.ScanNumber
import Kungfu.Nlohmann.ScanString
import Kungfu.Nlohmann.Serializer
import Kungfu.Nlohmann.StringGrammar
import Kungfu.Nlohmann.TokenGrammar
import Kungfu.Wingchun.BasketOrderEngine
import Kungfu.Wingchun.Bookkeeper
import Kungfu.Wingchun.BookkeeperRuns
import Kungfu.Wingchun.Common
import Kungfu.Wingchun.HashInstrument
import Kungfu.Wingchun.InstrumentType
import Kungfu.Wingchun.Price
import Kungfu.Yijinjing.Cache.Backend
import Kungfu.Yijinjing.Cache.CacheReset
import Kungfu.Yijinjing.Cache.Cached
import Kungfu.Yijinjing.Cache.CellStorage
import Kungfu.Yijinjing.Cache.Cells
import Kungfu.Yijinjing.Cache.Columns
import Kungfu.Yijinjing.Cache.Dump
import Kungfu.Yijinjing.Cache.Identity
import Kungfu.Yijinjing.Cache.LastWrite
import Kungfu.Yijinjing.Cache.Reload
import Kungfu.Yijinjing.Cache.Restore
import Kungfu.Yijinjing.Cache.RestoreBank
import Kungfu.Yijinjing.Cache.Ringqueue
import Kungfu.Yijinjing.Cache.RingqueueCopy
import Kungfu.Yijinjing.Cache.RingqueueCounters
import Kungfu.Yijinjing.Cache.RingqueueSafety
import Kungfu.Yijinjing.Cache.Runtime
import Kungfu.Yijinjing.Cache.SqliteOrmExt
import Kungfu.Yijinjing.Cache.Storage
import Kungfu.Yijinjing.Cache.TradingBank
import Kungfu.Yijinjing.Cache.TradingFeed
import Kungfu.Yijinjing.Cache.Uid
import Kungfu.Yijinjing.Journal.Frame
import Kungfu.Yijinjing.Journal.FrameLog
import Kungfu.Yijinjing.Journal.FrameText
import Kungfu.Yijinjing.Journal.Writer
import Kungfu.Yijinjing.Location
import Kungfu.Yijinjing.Nanomsg.Socket
import Kungfu.Yijinjing.Practice.Apprentice
import Kungfu.Yijinjing.Practice.Profile
import Kungfu.Yijinjing.Practice.TimeInterval
import Kungfu.Yijinjing.Practice.TimeRequests
import Kungfu.Yijinjing.Practice.Timeout
import Kungfu.Yijinjing.Practice.TimerIsolation
import Kungfu.Yijinjing.Practice.TimerView
import Kungfu.Yijinjing.Practice.Timers
import Kungfu.Yijinjing.Socket.Client
import Kungfu.Yijinjing.Socket.Poller
