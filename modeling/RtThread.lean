import RtThread.Kernel.Pending
import RtThread.Kernel.RoundRobin
import RtThread.Ipc.Stranded
import RtThread.Ipc.EventGroup
import RtThread.Ipc.SemaphorePermits
import RtThread.Timers.Check
import RtThread.Memheap.Runs
import RtThread.Pools.Calls
import RtThread.Ipc.DataQueueFifo
import RtThread.Work.Flags
import RtThread.Flash.TableLoad
import RtThread.Posix.TimerId
import RtThread.Adt.AvlRuns
import RtThread.Posix.Poll
import RtThread.Ymodem.Stream
import RtThread.Ymodem.Transfer
import RtThread.Serial.UarteTx
import RtThread.Serial.DmaTx
import RtThread.Spi.Driver
import RtThread.Serial.RxUnread
import RtThread.Flash.BlockStore
import RtThread.Posix.Pipe
import RtThread.Signal.Handled
import RtThread.Signal.Waits
import RtThread.Finsh.Editor
import RtThread.Dfs.Tmpfs
import RtThread.Dfs.MountTable
import RtThread.Timers.CputimerRuns
import RtThread.Pm.Tickless
import RtThread.Dfs.RamfsMap
import RtThread.Ulog.AsyncRuns
import RtThread.Ulog.LineSound
import RtThread.Mem.SmallMemUsage
import RtThread.Drivers.RingBlkQueue
import RtThread.At.ClientRuns
import RtThread.Drivers.CanBoxRuns
import RtThread.Posix.RwlockRuns
import RtThread.Vbus.RingRuns
import RtThread.Board.UsDelay
import RtThread.Rtc.OnChip
import RtThread.Drivers.PinIrq
import RtThread.Work.CancelSync
import RtThread.Slab.Sound
import RtThread.Rtc.Setup
import RtThread.Rtc.Normal
import RtThread.Rtc.Ticks
import RtThread.Link.Send
import RtThread.Ymodem.Header
import RtThread.Kservice.Layouts
import RtThread.Posix.PipeEnds
import RtThread.Ipc.Completion
import RtThread.Kservice.Derived
import RtThread.Pm.Requests
import RtThread.Kservice.Kprintf
