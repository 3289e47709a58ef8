import Xpipe.Bytes
import Xpipe.Machines
import Xpipe.Runs
import Xpipe.Linked
import Xpipe.Custody
import Xpipe.Segments
import Xpipe.Storage
import Xpipe.Fields
import Xpipe.Buffers
import Xpipe.Protocol
import Xpipe.Segmentation
import Xpipe.RequestLanguage
import Xpipe.RequestTracking
import Xpipe.BlockChain
import Xpipe.CutTokens
import Xpipe.LengthField
import Xpipe.Spans
import Xpipe.Decoding
import Xpipe.Reassembly
import Xpipe.MemPool
import Xpipe.PoolBounds
import Xpipe.PoolLedger
import Xpipe.PoolRegions
import Xpipe.PoolChunks
import Xpipe.PoolSpace
import Xpipe.LargeBlocks
import Xpipe.PoolMemory
import Xpipe.PoolImage
import Xpipe.PoolRuns
import Xpipe.RequestPool
import Xpipe.BufferMemory
import Xpipe.RequestMemory
import Xpipe.DynamicArray
import Xpipe.Requests
import Xpipe.EventLoop
import Xpipe.ConnectionPool
import Xpipe.RequestEffects
import Xpipe.Dispatch
import Xpipe.Aborts
import Xpipe.Handlers
import Xpipe.BatchVisits
import Xpipe.Releases
import Xpipe.ParserCalls
import Xpipe.Registrations
import Xpipe.WriteInterest
import Xpipe.PoolOwners
import Xpipe.ReadRoom
import Xpipe.ResponseBounds
import Xpipe.SendCursor
import Xpipe.Sessions
import Xpipe.ConfFile
import Xpipe.Directives
import Xpipe.ConfGrammar
import Xpipe.ConfParsing
import Xpipe.ConfPlaces
import Xpipe.KeyBuffer
import Xpipe.ConfComments
import Xpipe.StartUp
import Xpipe.FileWrite
import Xpipe.Logger
import Xpipe.Dialogues
import Xpipe.Isolation
import Xpipe.ConfSettings
import Xpipe.NetworkInit
import Xpipe.Admission
import Xpipe.MainLoop
import Xpipe.PidFile
import Xpipe.Program
import Xpipe.ConfMessages
import Xpipe.ConfFaults
import Xpipe.ConfRecords
import Xpipe.LogTime
import Xpipe.LogFile
import Xpipe.FileCursor
import Xpipe.ConfReading
