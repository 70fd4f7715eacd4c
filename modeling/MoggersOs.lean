import MoggersOs.Lib.Chain
import MoggersOs.Lib.Cyclic
import MoggersOs.Lib.DepthFirst
import MoggersOs.Lib.Forest
import MoggersOs.Lib.Path
import MoggersOs.Lib.Namespace
import MoggersOs.Lib.Stores
import MoggersOs.Lib.Bytes
import MoggersOs.Lib.Calendar
import MoggersOs.Lib.FirstFit
import MoggersOs.Lib.Traced
import MoggersOs.Lib.Walk
import MoggersOs.Lib.Words
import MoggersOs.Filesystem.Disk
import MoggersOs.Filesystem.Types
import MoggersOs.Filesystem.Fat32
import MoggersOs.Filesystem.Effects
import MoggersOs.Filesystem.Refine
import MoggersOs.Filesystem.Edits
import MoggersOs.Filesystem.Invariant
import MoggersOs.Filesystem.Runs
import MoggersOs.Filesystem.Frame
import MoggersOs.Filesystem.Names
import MoggersOs.Filesystem.Free
import MoggersOs.Filesystem.Crash
import MoggersOs.Filesystem.Parents
import MoggersOs.Filesystem.Lookup
import MoggersOs.Filesystem.OwnBytes
import MoggersOs.Filesystem.Tree
import MoggersOs.Filesystem.Remount
import MoggersOs.Filesystem.OutOfSpace
import MoggersOs.Filesystem.RoundTrip
import MoggersOs.Filesystem.Allocate
import MoggersOs.Filesystem.Remove
import MoggersOs.Filesystem.Undo
import MoggersOs.Filesystem.Subscripts
import MoggersOs.Filesystem.ReadLoop
import MoggersOs.Kernel.Paging
import MoggersOs.Kernel.Process
import MoggersOs.Kernel.Pids
import MoggersOs.Kernel.Isolation
import MoggersOs.Kernel.Frames
import MoggersOs.Kernel.Creation
import MoggersOs.Kernel.Scheduler
import MoggersOs.Kernel.Search
import MoggersOs.Kernel.Accounting
import MoggersOs.Kernel.RoundRobin
import MoggersOs.Kernel.Switching
import MoggersOs.Kernel.GiveBack
import MoggersOs.Kernel.Pool
import MoggersOs.Devices.Keyboard
import MoggersOs.Devices.Clock
import MoggersOs.Devices.Screen
import MoggersOs.Memory.Memmove
import MoggersOs.Shell.Input
import MoggersOs.Shell.Parsing
import MoggersOs.Shell.Overrun
import MoggersOs.Shell.Cat
import MoggersOs.Shell.Commands
import MoggersOs.Shell.Kill
import MoggersOs.Shell.Path
import MoggersOs.Shell.Find
import MoggersOs.Shell.Files
import MoggersOs.Filesystem.Contents
import MoggersOs.Filesystem.Store
import MoggersOs.Interrupt.Entry
import MoggersOs.Interrupt.Idt
import MoggersOs.Interrupt.Resume
import MoggersOs.Shell.Session
import MoggersOs.Devices.Display
import MoggersOs.Devices.Lines
import MoggersOs.Shell.Listing
import MoggersOs.Shell.Terminal
import MoggersOs.Kernel.AddressSpaces
import MoggersOs.Kernel.FirstTurn
import MoggersOs.Shell.Exec
import MoggersOs.Shell.MainLoop
import MoggersOs.Shell.Boot
import MoggersOs.Shell.Typing
