import SqlApi.Core.BPTreeShape
import SqlApi.Core.TableFailure
import SqlApi.Core.SqlRun
import SqlApi.Server.Response
import SqlApi.Core.TableAgreement
import SqlApi.Server.Concurrency
import SqlApi.Server.HttpMessage
import SqlApi.Server.HttpRoundTrip
import SqlApi.Lib.BoundedQueue
import SqlApi.Server.RequestQueue
import SqlApi.Lib.Lifecycle
import SqlApi.Server.HttpServer
import SqlApi.Server.Connections
import SqlApi.Server.StartupFailure
import SqlApi.Server.Metrics
import SqlApi.Server.ResponseFrame
import SqlApi.Server.HttpResponse
import SqlApi.Core.SqlAccepted
import SqlApi.Core.RecordTypes
import SqlApi.Lib.Json
import SqlApi.Server.UsedIndex
import SqlApi.Core.SqlLiterals
import SqlApi.Server.SqlWhitespace
import SqlApi.Lib.JsonGrammar
import SqlApi.Server.JsonStrings
import SqlApi.Server.JsonBody
import SqlApi.Server.JsonQuery
import SqlApi.Lib.JsonEnds
import SqlApi.Server.JsonSlips
import SqlApi.Server.RequestLine
import SqlApi.Server.FirstLength
import SqlApi.Server.Segmentation
import SqlApi.Lib.Monitor
import SqlApi.Server.NoLostWakeup
import SqlApi.Core.SqlCursor
import SqlApi.Core.SqlStops
import SqlApi.Core.SqlGiveUp
import SqlApi.Lib.Utf8
import SqlApi.Core.SqlExcerpt
import SqlApi.Server.Utf8Answers
import SqlApi.Core.TableCounter
import SqlApi.Lib.Numerals
import SqlApi.Server.ServerOptions
import SqlApi.Server.JsonMemory
import SqlApi.Server.JsonWindow
import SqlApi.Core.Repl
import SqlApi.Cli.Main
import SqlApi.Server.ServerStdin
import SqlApi.Server.EndToEnd
import SqlApi.Server.ServiceEnd
import SqlApi.Core.InsertCost
import SqlApi.Core.TableDestroy
import SqlApi.Server.Admission
import SqlApi.Server.TwoClients
