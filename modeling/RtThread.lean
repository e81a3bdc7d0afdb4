import RtThread.Ready
import RtThread.Wait
import RtThread.Semaphore
import RtThread.Mutex
import RtThread.EventSet
import RtThread.Ring
import RtThread.Wake
import RtThread.Mailbox
import RtThread.Linked
import RtThread.MessageQueue
import RtThread.Wakeup
import RtThread.Tiling
import RtThread.Mem
import RtThread.Skip
import RtThread.Timer
import RtThread.Preempt
import RtThread.Priority
import RtThread.RingBuffer
import RtThread.Circle
import RtThread.MemHeap.Runs
import RtThread.MemPool
import RtThread.DataQueue
import RtThread.Framing
import RtThread.Camera
import RtThread.LvglPause
import RtThread.RingBlock
import RtThread.WorkQueue
import RtThread.WorkFlag
import RtThread.SerialRx
import RtThread.SerialTx
import RtThread.CBuffer
import RtThread.Shell
import RtThread.Ymodem
import RtThread.YmodemLink
import RtThread.Intervals
import RtThread.Slab
import RtThread.Slab.Pages
import RtThread.Slab.Zone
import RtThread.Slab.Zones
import RtThread.Slab.Owners
import RtThread.Slab.Malloc
import RtThread.Slab.Free
import RtThread.Slab.Runs
import RtThread.SerialOpen
import RtThread.Dhcp
import RtThread.Ulog
import RtThread.AtClient
import RtThread.Bytes
import RtThread.Fetch
import RtThread.Finsh.Meaning
import RtThread.SerialInt
import RtThread.UartDma
import RtThread.Completion
import RtThread.Waitqueue
import RtThread.Signal
import RtThread.Pipe
import RtThread.Time
import RtThread.Alarm
import RtThread.AlarmCalls
import RtThread.TwoWire
import RtThread.Tally
import RtThread.I2cBit
import RtThread.I2cXfer
import RtThread.I2cChain
import RtThread.Pthread.Cond
import RtThread.Pthread.CondWait
import RtThread.Pthread.RwLock
import RtThread.Pthread.RwCount
import RtThread.Pthread.RwWait
import RtThread.Pthread.RwStrand
import RtThread.Pthread.Barrier
import RtThread.Pthread.BarrierRound
import RtThread.Pthread.Named
import RtThread.Pthread.NamedRun
import RtThread.Pthread.Tls
import RtThread.Sal
import RtThread.Sal.Calls
import RtThread.Sal.Table
import RtThread.Sal.Owner
import RtThread.PhyMonitor
import RtThread.CameraServer
import RtThread.PinIrq
import RtThread.SpiBus
import RtThread.SpiXfer
import RtThread.TimerCheck
import RtThread.RingForce
import RtThread.MemCalls
import RtThread.MemRealloc
import RtThread.MemHeap.AnySize
import RtThread.AllocSizes
import RtThread.EventAgree
import RtThread.Millis
import RtThread.Calendar
import RtThread.CalendarCarry
import RtThread.TimerFlag
import RtThread.TimerAssert
import RtThread.Deadline
import RtThread.Parked
import RtThread.PrioList
import RtThread.Reclaim
import RtThread.Printf
import RtThread.PrintInt
import RtThread.UsDelay
import RtThread.ClockTime
import RtThread.Pthread.Once
import RtThread.MemSearch
import RtThread.PipeDevice
import RtThread.RingQueue
import RtThread.PulseEncoder
import RtThread.Pwm
import RtThread.Flash
import RtThread.ShellHistory
import RtThread.Segments
import RtThread.Eth
import RtThread.Msh
import RtThread.Dcmi
import RtThread.SignalWait
import RtThread.FinshHeap
import RtThread.FinshHeap.Runs
import RtThread.MemCopy
import RtThread.YmodemCrc
import RtThread.AlignedAlloc
import RtThread.DhcpAlloc
import RtThread.FirstHit
import RtThread.DhcpOptions
import RtThread.YmodemBurst
import RtThread.AtExec
import RtThread.Stored
import RtThread.UlogLine
import RtThread.UlogHexdump
import RtThread.Finsh.Token
import RtThread.Finsh.Parser
import RtThread.Budget
import RtThread.Finsh.NodeTable
import RtThread.Finsh.Moves
import RtThread.Finsh.Ops
import RtThread.Finsh.Shares
import RtThread.Finsh.Bounds
import RtThread.Finsh.Stale
import RtThread.ExchangeSort
import RtThread.NorFlash
import RtThread.Sfud
import RtThread.Sfud.Working
import RtThread.Sfud.Sfdp
import RtThread.Sfud.Disk
