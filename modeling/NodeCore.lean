import NodeCore.Encoding
import NodeCore.EncodeConcat
import NodeCore.PlainObject
import NodeCore.Ledger
import NodeCore.HttpOutgoing
import NodeCore.HttpOutput
import NodeCore.HttpHeaderBlock
import NodeCore.Chunked
import NodeCore.HttpChunked
import NodeCore.Regex
import NodeCore.Tls
import NodeCore.TlsWildcard
import NodeCore.TlsHandshakes
import NodeCore.SlabBuffer
import NodeCore.CryptoStream
import NodeCore.CryptoStreamReads
import NodeCore.ClientHello
import NodeCore.ClientHelloRelay
import NodeCore.HttpParser
import NodeCore.HttpIncoming
import NodeCore.HttpIsolation
import NodeCore.HttpNative
import NodeCore.HttpReassembly
import NodeCore.HttpRecycle
import NodeCore.HttpHeader
import NodeCore.HttpFraming
import NodeCore.HttpResponse
import NodeCore.HttpInjection
import NodeCore.HttpMerge
import NodeCore.HttpBodiless
import NodeCore.Reentrant
import NodeCore.HttpAgent
import NodeCore.HttpPoolCalls
import NodeCore.HttpPool
import NodeCore.HttpPoolRuns
import NodeCore.AgentPool
import NodeCore.HttpPipeline
import NodeCore.HttpPipelineCalls
import NodeCore.HttpPipelineOrder
import NodeCore.HttpPipelineMatch
import NodeCore.Writable
import NodeCore.WritableBooks
import NodeCore.WritableClear
import NodeCore.WritableOrder
import NodeCore.WritableDrain
import NodeCore.WritableFinish
import NodeCore.WritableCalls
import NodeCore.WritableAccounts
import NodeCore.Readable
import NodeCore.ReadableConserve
import NodeCore.ReadableOldMode
import NodeCore.StringDecoder
import NodeCore.StringDecoderCuts
import NodeCore.StringDecoderUtf8
import NodeCore.StringDecoderUtf16
import NodeCore.StringSlices
import NodeCore.StringDecoderBase64
import NodeCore.ReadableDecoded
import NodeCore.ReadableWrap
import NodeCore.ReadableWrapEncodings
import NodeCore.ReadableEvents
import NodeCore.ReadableEnd
import NodeCore.ReadableWake
import NodeCore.Transform
import NodeCore.TransformSides
import NodeCore.TransformCoupled
import NodeCore.TransformDelivers
import NodeCore.Zlib
import NodeCore.ZlibStream
import NodeCore.ZlibLife
import NodeCore.ZlibFlush
import NodeCore.FsStream
import NodeCore.OpenFile
import NodeCore.FsWriteFile
import NodeCore.FsReadFile
import NodeCore.FsReadStream
import NodeCore.FsReadRange
import NodeCore.FsWriteStream
import NodeCore.Loop
import NodeCore.Path
import NodeCore.PathRelative
import NodeCore.PathNormalize
import NodeCore.Backtrack
import NodeCore.PathSplit
import NodeCore.PathWin32
import NodeCore.PathWin32Relative
import NodeCore.PathWin32Back
import NodeCore.LinkWalk
import NodeCore.Realpath
import NodeCore.RealpathCache
import NodeCore.RealpathAsync
import NodeCore.ModuleLoad
import NodeCore.Ipc
import NodeCore.IpcDisconnect
import NodeCore.ChildProcess
import NodeCore.IpcTransport
import NodeCore.IpcPair
import NodeCore.IpcHandles
import NodeCore.IpcOrder
import NodeCore.Net
import NodeCore.NetCount
import NodeCore.NetErrors
import NodeCore.NetSlaves
import NodeCore.NetConnections
import NodeCore.Memory
import NodeCore.StringBytes
import NodeCore.Base64
import NodeCore.Word
import NodeCore.AsciiWords
import NodeCore.ForceAscii
import NodeCore.Writev
import NodeCore.WritevSame
import NodeCore.WritevStorage
import NodeCore.Pipe
import NodeCore.PipeFanOut
import NodeCore.PipePressure
import NodeCore.NodeBio
import NodeCore.NodeBioRing
import NodeCore.NodeBioFifo
import NodeCore.NodeBioDry
import NodeCore.NodeBioRuns
import NodeCore.NodeBioGets
import NodeCore.NodeBioGrowth
import NodeCore.Events
import NodeCore.EventsOnce
import NodeCore.EventsRemoveAll
import NodeCore.EventsList
import NodeCore.Forest
import NodeCore.Domain
import NodeCore.DomainStack
import NodeCore.DomainMembers
import NodeCore.Cluster
import NodeCore.ClusterConserve
import NodeCore.ClusterFree
import NodeCore.ClusterRuns
import NodeCore.ClusterCleanup
import NodeCore.Linklist
import NodeCore.Timers
import NodeCore.TimersRings
import NodeCore.TimersLists
import NodeCore.TimersSafety
import NodeCore.TimersUnref
import NodeCore.Intervals
import NodeCore.Immediates
import NodeCore.NextTick
import NodeCore.NextTickRuns
import NodeCore.Separator
import NodeCore.UriComponent
import NodeCore.Querystring
import NodeCore.QuerystringSeparators
import NodeCore.Unescape
import NodeCore.Readline
import NodeCore.ReadlineEdit
import NodeCore.JsNumber
import NodeCore.Doubles
import NodeCore.JsValue
import NodeCore.Debugger
import NodeCore.Inspect
import NodeCore.BufferAccess
import NodeCore.BufferPool
import NodeCore.BufferEdit
import NodeCore.BufferWindows
import NodeCore.SlabAllocator
import NodeCore.Url
import NodeCore.UrlParts
import NodeCore.UrlReading
import NodeCore.UrlResolve
import NodeCore.UrlHref
import NodeCore.UrlCase
import NodeCore.UrlAgain
import NodeCore.UrlStable
import NodeCore.Punycode
import NodeCore.PunycodeRound
