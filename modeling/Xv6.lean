import Xv6.Ulib.Memmove
import Xv6.Grep.Match
import Xv6.Log.Crash
import Xv6.Log.Reservation
import Xv6.Proc.Shape
import Xv6.Proc.Program
import Xv6.Pipe.Bounded
import Xv6.Pipe.Wakeup
import Xv6.Sched.LockOrder
import Xv6.Sched.Pids
import Xv6.Virtio.Protocol
import Xv6.File.OpenFiles
import Xv6.Syscall.Trace
import Xv6.Syscall.Kill
import Xv6.Console.Refines
import Xv6.Proc.Reads
import Xv6.Shell.Refines
import Xv6.Shell.Wiring
import Xv6.Umalloc.Sbrk
import Xv6.Uart.Transmit
import Xv6.Fs.DirectoryMap
import Xv6.Fs.Operations
