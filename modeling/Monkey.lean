import Monkey.Lib.Run
import Monkey.Epoll
import Monkey.Worker.Sessions
import Monkey.Worker.Closes
import Monkey.Worker.Stage50
import Monkey.Worker.Timeouts
import Monkey.Worker.Rounds
import Monkey.System.Load
import Monkey.Liana.SslRead
import Monkey.Liana.SendFile
import Monkey.Http.Paths
import Monkey.Request.SegmentsExact
import Monkey.Request.Buffer
import Monkey.Request.Upload
import Monkey.Request.Bounds
import Monkey.Request.Batch
import Monkey.Request.Serve
import Monkey.Request.Head
import Monkey.Request.Linger
import Monkey.Fastcgi.FcgiFd
import Monkey.Fastcgi.Protocol
import Monkey.Lib.Bits
import Monkey.Fastcgi.Env
import Monkey.Fastcgi.Context
import Monkey.Fastcgi.Prepare
import Monkey.Fastcgi.Recv
import Monkey.Fastcgi.Handlers
import Monkey.Fastcgi.Frame
import Monkey.Fastcgi.World
import Monkey.Fastcgi.Moves
import Monkey.Fastcgi.Inputs
import Monkey.Fastcgi.Links
import Monkey.Fastcgi.Answers
import Monkey.Fastcgi.Wakeup
import Monkey.Fastcgi.Reuse
import Monkey.Fastcgi.Exchange
import Monkey.Fastcgi.Recycle
import Monkey.Fastcgi.Distribution
import Monkey.Http.HeaderIov
import Monkey.Fastcgi.ResponseHead
import Monkey.Auth.Base64
import Monkey.Auth.Users
import Monkey.Http.Percent
import Monkey.Auth.Locations
import Monkey.Lib.ByteOrder
import Monkey.Mandril.Addresses
import Monkey.Mandril.Urls
import Monkey.Cgi.Rules
import Monkey.Lib.Chunked
import Monkey.Lib.Extent
import Monkey.Http.ClientStream
import Monkey.Cgi.Output
import Monkey.Cgi.Delivery
import Monkey.Palm.Relay
import Monkey.Palm.Delivery
import Monkey.Lib.Chain
import Monkey.Plugins.Hooks
import Monkey.Plugins.Dispatch
import Monkey.Lib.PercentCoding
import Monkey.Http.Decode
import Monkey.Lib.Tokens
import Monkey.Request.Pipeline
import Monkey.Request.PostData
import Monkey.Request.Line
import Monkey.Request.Table
import Monkey.Request.HostPort
import Monkey.Http.RangeValue
import Monkey.Request.ContentLength
import Monkey.System.Target
import Monkey.Lib.Block
import Monkey.Lib.Decimal
import Monkey.Http.Itop
import Monkey.Lib.Fgets
import Monkey.Config.Create
import Monkey.Config.Lines
import Monkey.Config.RoundTrip
import Monkey.Config.Copies
import Monkey.Config.Accepted
import Monkey.Lib.Calendar
import Monkey.Time.Gmt
import Monkey.Time.Conditional
import Monkey.Config.Hosts
import Monkey.Http.UserDir
import Monkey.Lib.Heap
import Monkey.Http.RealPath
import Monkey.Strings.Search
import Monkey.Request.KeepAlive
import Monkey.Fastcgi.Params
import Monkey.Lib.Clock
import Monkey.Fastcgi.Fairness
import Monkey.Fastcgi.Delivery
import Monkey.Fastcgi.Environment
import Monkey.Fastcgi.ResponseStream
import Monkey.Lib.RefCount
import Monkey.Fastcgi.RecvMemory
import Monkey.Lib.Bsearch
import Monkey.Mime.Table
import Monkey.Mime.Served
import Monkey.Mime.Find
import Monkey.Lib.RoundRobin
import Monkey.Auth.Decode
import Monkey.Auth.UsersFile
import Monkey.Dirlisting.Template
import Monkey.Dirlisting.Listing
import Monkey.Palm.Protocol
import Monkey.Fastcgi.ChunkDrop
import Monkey.Fastcgi.LocationConf
import Monkey.Fastcgi.Shares
import Monkey.Fastcgi.Lookup
import Monkey.Fastcgi.ChunkHolders
import Monkey.Lib.Ring
import Monkey.MkList
import Monkey.System.Rings
import Monkey.Fastcgi.CacheAdd
import Monkey.Strings.SplitLine
import Monkey.Lib.BlockStream
import Monkey.Auth.Sha1
import Monkey.Auth.Sha1Stream
import Monkey.Auth.Encode
import Monkey.Lib.Lines
import Monkey.Logger.Record
import Monkey.Lib.Fifo
import Monkey.Logger.Pipes
import Monkey.Lib.DoubleBuffer
import Monkey.Lib.IsoWeek
import Monkey.Time.Clock
import Monkey.Lib.HeaderFields
import Monkey.Http.HeaderText
import Monkey.Plugins.Registry
import Monkey.Liana.SslWrite
import Monkey.Lib.Environ
import Monkey.Cgi.Environ
import Monkey.Lib.Responses
import Monkey.Http.Announce
import Monkey.Http.Framing
import Monkey.Request.Responses
import Monkey.System.Descriptors
import Monkey.Embed.RequestHeader
import Monkey.Lib.Cells
import Monkey.Embed.Mimetypes
import Monkey.Embed.Vhosts
import Monkey.Embed.DataCallback
