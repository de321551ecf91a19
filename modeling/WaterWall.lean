import WaterWall.ByteText
import WaterWall.OrderedStore
import WaterWall.AlarmClock
import WaterWall.Atoull
import WaterWall.SsdbStore
import WaterWall.RetentionDelete
import WaterWall.ActionTable
import WaterWall.SsdbReply
import WaterWall.SsdbStatus
import WaterWall.SsdbSession
import WaterWall.ResponseDelivery
import WaterWall.FrameSplitter
import WaterWall.FrameReassembly
import WaterWall.ReceiveSafety
import WaterWall.AccessDispatch
import WaterWall.MessageText
import WaterWall.ResponseTruth
import WaterWall.TimerWheel
import WaterWall.TimerExactness
import WaterWall.TimerOrder
import WaterWall.RoundRobin
import WaterWall.ClockElection
import WaterWall.RingLinks
import WaterWall.ListSort
import WaterWall.SectionStore
import WaterWall.VpnForms
import WaterWall.IpsecTunnels
import WaterWall.RacoonTunnels
import WaterWall.ShellWords
import WaterWall.PptpClient
import WaterWall.HeapBlock
import WaterWall.SsdbRequest
import WaterWall.RetentionSweep
import WaterWall.RetentionTermination
import WaterWall.PageWalk
import WaterWall.AccountSweep
import WaterWall.AnalyzerCleanup
import WaterWall.GroupTable
import WaterWall.TypeMixing
import WaterWall.GroupTotals
import WaterWall.ThreadedStore
import WaterWall.ForbidRules
import WaterWall.EncryptRules
import WaterWall.ReplyBuffer
import WaterWall.CatchUp
import WaterWall.GrowingBlock
import WaterWall.SavedRecords
import WaterWall.NodeList
import WaterWall.DetailSave
import WaterWall.ChatSave
import WaterWall.AutoSave
import WaterWall.HashChains
import WaterWall.ConnectionTable
import WaterWall.PollLoop
import WaterWall.PollRuns
import WaterWall.Interleaving
import WaterWall.DbPool
import WaterWall.ThreadPool
import WaterWall.PoolShutdown
import WaterWall.MemRegistry
import WaterWall.Ledger
import WaterWall.SsdbOwnership
import WaterWall.WebSession
import WaterWall.HttpPoll
import WaterWall.HttpSession
import WaterWall.HttpReceive
import WaterWall.HttpQueue
import WaterWall.HttpServer
import WaterWall.HttpLoop
import WaterWall.HttpDelivery
import WaterWall.DotPaths
import WaterWall.RequestPhrase
import WaterWall.StaticFiles
import WaterWall.PercentText
import WaterWall.PercentDecoding
import WaterWall.Reading
import WaterWall.CJson
import WaterWall.TaskParser
import WaterWall.TaskLists
import WaterWall.TaskOwnership
import WaterWall.PrintBuffer
import WaterWall.JsonBody
import WaterWall.EscapedText
import WaterWall.SafeResponse
import WaterWall.SplitString
import WaterWall.SoftClock
import WaterWall.RecordOrder
import WaterWall.InsertionMove
import WaterWall.ChainLinks
import WaterWall.MessageIndex
import WaterWall.RequestArguments
import WaterWall.HttpRounds
import WaterWall.RequestHeader
import WaterWall.LuaPattern
import WaterWall.RequestBody
