import OperatingSys.FileSystem.Abstract
import OperatingSys.FileSystem.Atomicity
import OperatingSys.FileSystem.Blocks
import OperatingSys.FileSystem.Calls
import OperatingSys.FileSystem.Confined
import OperatingSys.FileSystem.Consistent
import OperatingSys.FileSystem.Contents
import OperatingSys.FileSystem.Disk
import OperatingSys.FileSystem.EndOfFile
import OperatingSys.FileSystem.Existence
import OperatingSys.FileSystem.Fresh
import OperatingSys.FileSystem.History
import OperatingSys.FileSystem.Integrity
import OperatingSys.FileSystem.Limits
import OperatingSys.FileSystem.Listing
import OperatingSys.FileSystem.Lookup
import OperatingSys.FileSystem.Metadata
import OperatingSys.FileSystem.Mounting
import OperatingSys.FileSystem.Naming
import OperatingSys.FileSystem.Operations
import OperatingSys.FileSystem.Ownership
import OperatingSys.FileSystem.Reclamation
import OperatingSys.FileSystem.Refinement
import OperatingSys.FileSystem.Remount
import OperatingSys.FileSystem.Splitting
import OperatingSys.FileSystem.State
import OperatingSys.FileSystem.Steps
import OperatingSys.FileSystem.Survival
import OperatingSys.FileSystem.Writing
import OperatingSys.Lib.Amd64
import OperatingSys.Lib.Cyclic
import OperatingSys.Lib.Descriptors
import OperatingSys.Lib.LinkedList
import OperatingSys.Lib.LittleEndian
import OperatingSys.Lib.Machine
import OperatingSys.Lib.Overwrite
import OperatingSys.Lib.Search
import OperatingSys.Lib.Sharing
import OperatingSys.Lib.Stuttering
import OperatingSys.Shell.Arguments
import OperatingSys.Shell.Children
import OperatingSys.Shell.Closing
import OperatingSys.Shell.Freeing
import OperatingSys.Shell.Grammar
import OperatingSys.Shell.Interruptions
import OperatingSys.Shell.Lexing
import OperatingSys.Shell.Parser
import OperatingSys.Shell.Printing
import OperatingSys.Shell.Reading
import OperatingSys.Shell.RoundTrip
import OperatingSys.Shell.Running
import OperatingSys.Shell.Scripts
import OperatingSys.Shell.Segments
import OperatingSys.Shell.Session
import OperatingSys.Shell.Tokens
import OperatingSys.Shell.Wiring
import OperatingSys.Shell.Words
import OperatingSys.Threads.Atomic
import OperatingSys.Threads.Barrier
import OperatingSys.Threads.BarrierRounds
import OperatingSys.Threads.Census
import OperatingSys.Threads.Creating
import OperatingSys.Threads.Critical
import OperatingSys.Threads.Fifo
import OperatingSys.Threads.Joining
import OperatingSys.Threads.Kernel
import OperatingSys.Threads.Launch
import OperatingSys.Threads.Mutex
import OperatingSys.Threads.MutualExclusion
import OperatingSys.Threads.Opening
import OperatingSys.Threads.Pointers
import OperatingSys.Threads.Preemption
import OperatingSys.Threads.Registers
import OperatingSys.Threads.RoundRobin
import OperatingSys.Threads.Rounds
import OperatingSys.Threads.Scheduler
import OperatingSys.Threads.Searching
import OperatingSys.Threads.SerialThread
import OperatingSys.Threads.Settled
import OperatingSys.Threads.Statements
import OperatingSys.Threads.ThreadIds
import OperatingSys.Threads.ThreadStates
import OperatingSys.Threads.Turns
import OperatingSys.Threads.Waiters
import OperatingSys.Threads.Waking
import OperatingSys.Tls.Abstract
import OperatingSys.Tls.Allotment
import OperatingSys.Tls.Backed
import OperatingSys.Tls.Bounds
import OperatingSys.Tls.Calls
import OperatingSys.Tls.Effects
import OperatingSys.Tls.Faults
import OperatingSys.Tls.Fences
import OperatingSys.Tls.Invariant
import OperatingSys.Tls.Linearization
import OperatingSys.Tls.Overlapping
import OperatingSys.Tls.Pages
import OperatingSys.Tls.Protections
import OperatingSys.Tls.References
import OperatingSys.Tls.Refinement
import OperatingSys.Tls.Slots
import OperatingSys.Tls.Storage
import OperatingSys.Tls.Writing
