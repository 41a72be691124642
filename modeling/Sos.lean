import Sos.L4
import Sos.Lib.Loop
import Sos.Lib.SecondChance
import Sos.Lib.Machine
import Sos.Datastructures.Bitfield
import Sos.Mm.Frames
import Sos.Mm.State
import Sos.Mm.Swapper
import Sos.Mm.Pager
import Sos.Process
import Sos.Mm.Step
import Sos.Paging.PageMap
import Sos.Paging.Refines
import Sos.Paging.Queues
import Sos.Paging.Moves
import Sos.Paging.Release
import Sos.Paging.FreeLoops
import Sos.Paging.Processes
import Sos.Paging.Chain
import Sos.Paging.SwapOut
import Sos.Paging.Callbacks
import Sos.Paging.Calls
import Sos.Paging.Faults
import Sos.Paging.Simulation
import Sos.Paging.Reachable
import Sos.Clock.Driver
import Sos.Clock.Step
import Sos.Clock.Spec
import Sos.Datastructures.CircularBuffer
import Sos.Io.State
import Sos.Io.Table
import Sos.Io.Serial
import Sos.Io.Nfs
import Sos.Io.File
import Sos.Io.Step
import Sos.Files.Tables
import Sos.Files.Outcomes
import Sos.Files.Invariant
import Sos.Files.Handles
import Sos.Files.Reachable
import Sos.Files.Answers
import Sos.Files.Names
import Sos.Files.Buffers
import Sos.Properties.Frames
import Sos.Properties.Slots
import Sos.Properties.Mappings
import Sos.Properties.Wakeups
import Sos.Properties.Timers
import Sos.Properties.Console
import Sos.Properties.FileAccess
import Sos.Properties.FileHandles
import Sos.Properties.IpcPage
import Sos.Properties.FileCache
import Sos.Properties.CacheBound
import Sos.Clock.Alarms
import Sos.Files.Effects
import Sos.Properties.Alarms
import Sos.Properties.ConsoleBuffer
import Sos.Io.Readdir
import Sos.Properties.Listing
import Sos.Lib.Interval
import Sos.Boot.Kip
import Sos.Lib.CString
import Sos.Io.Layout
import Sos.Properties.BootRecords
import Sos.Properties.FindMemory
import Sos.Properties.BufferRead
import Sos.Paging.Fields
import Sos.Paging.Sends
import Sos.Paging.Deletion
import Sos.Paging.Entries
import Sos.Properties.ProcessTable
import Sos.Properties.ProcessWait
import Sos.Properties.LateCallbacks
import Sos.Properties.PageCount
import Sos.Properties.FindFile
import Sos.Properties.Durations
import Sos.Properties.Lookups
import Sos.Properties.Eviction
import Sos.Properties.FrameAllocator
import Sos.Properties.FreeRange
import Sos.Properties.ProcessSlots
import Sos.Server.State
import Sos.Server.Calls
import Sos.Server.Step
import Sos.Properties.Creation
import Sos.Properties.Kill
import Sos.Properties.Replies
import Sos.Properties.CreatedFile
import Sos.Client.Stubs
import Sos.Properties.ProcessStatus
import Sos.Properties.ClientWrite
import Sos.Properties.DirEntries
import Sos.Lib.While
import Sos.Client.Initializer
import Sos.Properties.LoadLoop
import Sos.Client.Shell
import Sos.Properties.Tokenizer
import Sos.Lib.Codec
import Sos.Nfs.Requests
import Sos.Nfs.Replies
import Sos.Nfs.Transport
import Sos.Nfs.Network
import Sos.Properties.RemoteCalls
import Sos.Files.Requests
import Sos.Files.Network
import Sos.Properties.FileNetwork
import Sos.Paging.Contents
import Sos.Properties.Contents
import Sos.Properties.CleanPages
import Sos.Properties.StoresKept
import Sos.Lib.TailQueue
import Sos.Mm.LinkedQueues
import Sos.Properties.PageQueues
import Sos.Properties.ReadBack
