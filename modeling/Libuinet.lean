import Libuinet.SerialArith
import Libuinet.TailQueue
import Libuinet.Execution
import Libuinet.Mbuf
import Libuinet.Sockbuf
import Libuinet.SockbufStream
import Libuinet.Reass
import Libuinet.ReassOwnership
import Libuinet.ReassWindow
import Libuinet.ReassStream
import Libuinet.ReassPassive
import Libuinet.ReassDeadline
import Libuinet.ReassFin
import Libuinet.Tcpcb
import Libuinet.TcpOptions
import Libuinet.TcpSack
import Libuinet.TcpInput
import Libuinet.TcpRecv
import Libuinet.TcpConn
import Libuinet.TcpFin
import Libuinet.Syncache
import Libuinet.TcpPassive
import Libuinet.PassiveWindow
import Libuinet.Uio
import Libuinet.Soreceive
import Libuinet.SoreceiveStream
import Libuinet.ChainTable
import Libuinet.InPcb
import Libuinet.PcbLookup
import Libuinet.PcbBind
import Libuinet.PcbPlacement
import Libuinet.SyncacheTable
import Libuinet.SyncacheTags
import Libuinet.SynackRepeat
import Libuinet.SyncacheExpand
import Libuinet.PassiveMirror
import Libuinet.LockOrder
import Libuinet.PassivePair
import Libuinet.SynfilterDeferral
import Libuinet.RefCount
import Libuinet.SynfilterRegistry
import Libuinet.SlotRing
import Libuinet.NetmapTx
import Libuinet.L2TagStack
import Libuinet.RemoteSysctl
import Libuinet.Callout
import Libuinet.CalloutFire
import Libuinet.CalloutDrain
import Libuinet.NetmapRx
import Libuinet.TakeoverLocks
import Libuinet.PairLifecycle
import Libuinet.PassiveSend
import Libuinet.Takeover
import Libuinet.ReassGap
import Libuinet.ReassHeader
import Libuinet.ReassOrder
import Libuinet.ReassLimit
import Libuinet.PcbConflict
import Libuinet.SyncacheRows
import Libuinet.SyncacheOwnership
import Libuinet.VlanStrip
import Libuinet.EtherPromisc
import Libuinet.EtherRoundTrip
import Libuinet.NetmapWakeup
import Libuinet.IfBridge
import Libuinet.PcapReplay
import Libuinet.TimerIntr
import Libuinet.UioFill
import Libuinet.IntrEvent
import Libuinet.KernSynch
import Libuinet.SysctlLimit
import Libuinet.IntrLinked
import Libuinet.IntrRemove
import Libuinet.IntrThread
import Libuinet.IfRegistry
import Libuinet.CString
import Libuinet.MacAton
import Libuinet.NetmapConfig
import Libuinet.ThreadHooks
import Libuinet.PassiveExtract
import Libuinet.MbufDup
import Libuinet.MbufOps
