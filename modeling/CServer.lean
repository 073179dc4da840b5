import CServer.Lib.CString
import CServer.Lib.Crew
import CServer.Lib.Fifo
import CServer.Lib.Program
import CServer.Lib.Script
import CServer.Lib.Ring
import CServer.Lib.Runs
import CServer.Lib.Table
import CServer.Lib.CScan
import CServer.Lib.FlatJson
import CServer.Lib.Like
import CServer.Lib.Memory
import CServer.Lib.Shared
import CServer.Lib.Serial
import CServer.Lib.Socket
import CServer.Lib.Sending
import CServer.Lib.Reads
import CServer.Lib.Ansi
import CServer.Lib.Utf8
import CServer.Lib.Shell
import CServer.Lib.ShellLine
import CServer.Lib.Strtol
import CServer.Lib.JsonText
import CServer.Lib.JsonObject
import CServer.Lib.HttpMessage
import CServer.Lib.UrlPath
import CServer.Json.Escape
import CServer.Json.Scan
import CServer.Json.Decode
import CServer.Json.Contract
import CServer.Json.Pointers
import CServer.Http.Types
import CServer.Http.Query
import CServer.Http.QueryLookup
import CServer.Http.Request
import CServer.Http.Respond
import CServer.Http.ErrorBody
import CServer.Http.Sending
import CServer.Http.Read
import CServer.Http.Wire
import CServer.Http.Limits
import CServer.Http.Lines
import CServer.Http.Edits
import CServer.Http.RequestLine
import CServer.Http.Fields
import CServer.Http.LengthValue
import CServer.Http.Method
import CServer.Http.ContentLength
import CServer.Http.Message
import CServer.Http.Framing
import CServer.Store.Tables
import CServer.Store.Kv
import CServer.Store.Notes
import CServer.Store.Listing
import CServer.Store.NoteText
import CServer.Store.Results
import CServer.Store.Prefix
import CServer.Store.Render
import CServer.Store.Agree
import CServer.Server.Queue
import CServer.Server.Auth
import CServer.Server.Pool
import CServer.Server.Accounting
import CServer.Server.Signal
import CServer.Server.Wakeup
import CServer.Server.Shutdown
import CServer.Server.Lifecycle
import CServer.Api.Calls
import CServer.Api.Handlers
import CServer.Api.Bodies
import CServer.Api.Dispatch
import CServer.Api.MediaType
import CServer.Api.NoteId
import CServer.Api.Router
import CServer.Api.Ends
import CServer.Api.Effects
import CServer.Api.Access
import CServer.Api.Routes
import CServer.Api.Workers
import CServer.Api.Serial
import CServer.Api.Writes
import CServer.Api.Atomic
import CServer.Api.Buffers
import CServer.Api.Client
import CServer.Api.Exchange
import CServer.Api.ListReply
import CServer.Api.Paging
import CServer.Api.NoteRaces
import CServer.Api.Responses
import CServer.Api.Alike
import CServer.Api.Readable
import CServer.Api.KvMap
import CServer.Api.NoteMap
import CServer.Main.Options
import CServer.Web.Api
import CServer.Web.Lab
import CServer.Web.Curl
import CServer.Web.Texts
import CServer.Web.Transport
import CServer.Web.Page
import CServer.Web.Panel
import CServer.Web.PageMap
import CServer.Console.Width
import CServer.Console.Pad
import CServer.Console.Row
import CServer.Lib.Rotation
