import SerialGateway.Lib.Transition
import SerialGateway.Os.Semaphore
import SerialGateway.Serial.Port
import SerialGateway.Serial.Step
import SerialGateway.Serial.Log
import SerialGateway.Serial.Gateway
import SerialGateway.Serial.Burst
import SerialGateway.Serial.Stream
import SerialGateway.Serial.Preempt
import SerialGateway.Serial.Frames
import SerialGateway.Lwip.Pbuf
import SerialGateway.Tcp.ServerRecv
import SerialGateway.Lib.Linked
import SerialGateway.Lib.Occurrence
import SerialGateway.Lwip.PcbList
import SerialGateway.Tcp.Broadcast
import SerialGateway.Lib.Ring
import SerialGateway.Eth.Descriptor
import SerialGateway.Eth.Rx
import SerialGateway.Eth.RxRing
import SerialGateway.Eth.RxFifo
import SerialGateway.Eth.RxWakeup
import SerialGateway.Eth.Tx
import SerialGateway.Eth.TxRing
import SerialGateway.Lwip.SysTime
import SerialGateway.Serial.Silence
import SerialGateway.Lib.FreeList
import SerialGateway.Os.Queue
import SerialGateway.Lwip.MboxPool
import SerialGateway.Lib.Circular
import SerialGateway.Os.QueuePost
import SerialGateway.Lwip.Mbox
import SerialGateway.Lwip.Timeouts
import SerialGateway.Lwip.TimeoutLists
import SerialGateway.Tcp.Pcb
import SerialGateway.Tcp.HalfClosed
import SerialGateway.Lwip.Search
import SerialGateway.Lwip.MemSearch
import SerialGateway.Lwip.MemStr
import SerialGateway.Lwip.SearchWindows
import SerialGateway.Http.Led
import SerialGateway.Lib.Grid
import SerialGateway.Glcd.Screen
import SerialGateway.Glcd.Text
import SerialGateway.Lib.Midpoint
import SerialGateway.Glcd.Line
import SerialGateway.Lib.TwoLevel
import SerialGateway.Os.Kernel
import SerialGateway.Os.KernelReady
import SerialGateway.Lib.Tally
import SerialGateway.Os.KernelTokens
import SerialGateway.Os.KernelDelay
import SerialGateway.Lib.Blocks
import SerialGateway.Lwip.Mem
import SerialGateway.Lwip.MemBlocks
import SerialGateway.Lwip.MemRuns
import SerialGateway.Lib.SerialNumber
import SerialGateway.Lib.Slices
import SerialGateway.Tcp.Sender
import SerialGateway.Tcp.SenderQueue
import SerialGateway.Tcp.SenderSteps
import SerialGateway.Tcp.SenderLive
import SerialGateway.Tcp.SenderAcks
import SerialGateway.Tcp.SenderRuns
import SerialGateway.Tcp.Receiver
import SerialGateway.Tcp.ReceiverRuns
import SerialGateway.Tcp.Connection
import SerialGateway.Lib.EndAround
import SerialGateway.Ip.Chksum
import SerialGateway.Ip.ChksumSum
import SerialGateway.Ip.ChksumChain
import SerialGateway.Ip.Header
import SerialGateway.Ip.Icmp
