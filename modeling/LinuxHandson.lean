import LinuxHandson.Memfs.Proofs.TreeProofs
import LinuxHandson.Memfs.Proofs.KeyProofs
import LinuxHandson.Memfs.Proofs.RefinementProofs
import LinuxHandson.Lib.Prog
import LinuxHandson.Lib.Stdio
import LinuxHandson.Fat16.Fat16
import LinuxHandson.Fat16.FuseFat
import LinuxHandson.Fat16.Directory
import LinuxHandson.Fat16.Proofs.LookupProofs
import LinuxHandson.Fat16.Tree
import LinuxHandson.Fat16.Proofs.LayoutProofs
import LinuxHandson.Fat16.Proofs.CompletenessProofs
import LinuxHandson.Fat16.Proofs.ConcurrencyProofs
import LinuxHandson.Fat16.FatParser
import LinuxHandson.Fat16.Proofs.PreviewProofs
import LinuxHandson.Lib.Socket
import LinuxHandson.MiniProtocol.MiniClient
import LinuxHandson.MiniProtocol.Proofs.CodecProofs
import LinuxHandson.Lib.Duplex
import LinuxHandson.MiniProtocol.Session
import LinuxHandson.MiniProtocol.Proofs.FramingProofs
import LinuxHandson.MiniProtocol.Proofs.ServerProofs
import LinuxHandson.MiniProtocol.Proofs.ClientProofs
import LinuxHandson.MiniProtocol.Proofs.LockStepProofs
import LinuxHandson.Lib.Pthread
import LinuxHandson.Threads.ThreadPool
import LinuxHandson.Lib.LinkedList
import LinuxHandson.Threads.Proofs.ThreadPoolProofs
import LinuxHandson.Threads.Proofs.WakeupProofs
import LinuxHandson.Lib.Ring
import LinuxHandson.Threads.ProducerConsumer
import LinuxHandson.Threads.Proofs.ProducerConsumerProofs
import LinuxHandson.Lib.Semaphore
import LinuxHandson.Ipc.Proofs.ShmDemoProofs
import LinuxHandson.Drivers.ChardevIoctl
import LinuxHandson.Drivers.Proofs.ChardevIoctlProofs
import LinuxHandson.Drivers.KfifoDemo
import LinuxHandson.Drivers.Proofs.KfifoDemoProofs
import LinuxHandson.Drivers.BlockDemo
import LinuxHandson.Drivers.Proofs.BlockDemoProofs
import LinuxHandson.Dns.DnsClient
import LinuxHandson.Dns.Names
import LinuxHandson.Dns.Proofs.EncodeNameProofs
import LinuxHandson.Drivers.Proofs.PwmDriverProofs
import LinuxHandson.Lib.Kthread
import LinuxHandson.Lib.Rcu
import LinuxHandson.Threads.RcuDemo
import LinuxHandson.Threads.Proofs.RcuDemoProofs
import LinuxHandson.Threads.Proofs.RcuUnloadProofs
import LinuxHandson.Threads.Proofs.SyncDemoProofs
import LinuxHandson.Drivers.Proofs.WdtDemoProofs
import LinuxHandson.Drivers.Proofs.SignalAwareProofs
import LinuxHandson.Network.EpollServer
import LinuxHandson.Network.Proofs.EpollServerProofs
import LinuxHandson.Network.CustomProtocol
import LinuxHandson.Network.Proofs.CustomProtocolProofs
import LinuxHandson.Drivers.UioDemo
import LinuxHandson.Drivers.UioSim
import LinuxHandson.Drivers.Proofs.UioProofs
import LinuxHandson.Lib.Datagram
import LinuxHandson.Network.PingDemo
import LinuxHandson.Network.Proofs.PingDemoProofs
import LinuxHandson.Lib.Filled
import LinuxHandson.Network.SelectServer
import LinuxHandson.Network.Proofs.SelectServerProofs
import LinuxHandson.Ipc.FifoDemo
import LinuxHandson.Ipc.Proofs.FifoDemoProofs
import LinuxHandson.Network.TcpEcho
import LinuxHandson.Network.Proofs.TcpEchoProofs
import LinuxHandson.Ptrace.MiniStrace
import LinuxHandson.Ptrace.Proofs.MiniStraceProofs
import LinuxHandson.Drivers.HashtableDemo
import LinuxHandson.Drivers.Proofs.HashtableDemoProofs
import LinuxHandson.Fat16.Proofs.SoundnessProofs
import LinuxHandson.Fat16.Chain
import LinuxHandson.Dns.Pointers
import LinuxHandson.Dns.Proofs.ParseTerminationProofs
import LinuxHandson.Fat16.Proofs.ReadTerminationProofs
import LinuxHandson.Memfs.Failures
import LinuxHandson.Memfs.Proofs.FailureProofs
import LinuxHandson.Fat16.FileData
import LinuxHandson.Fat16.Proofs.ReadContentProofs
import LinuxHandson.Drivers.MessageDevices
import LinuxHandson.Drivers.ProcfsDemo
import LinuxHandson.Drivers.Proofs.MessageDevicesProofs
import LinuxHandson.Lib.PartialWrites
import LinuxHandson.MiniProtocol.Frames
import LinuxHandson.MiniProtocol.Proofs.FramesProofs
import LinuxHandson.Fat16.Proofs.BootSectorProofs
import LinuxHandson.Fat16.Proofs.ListingProofs
import LinuxHandson.Dns.Proofs.WireProofs
import LinuxHandson.Dns.Bounds
import LinuxHandson.Dns.Proofs.ParseBoundsProofs
import LinuxHandson.Dns.Skip
import LinuxHandson.Dns.Proofs.ParsePositionProofs
import LinuxHandson.Dns.Response
import LinuxHandson.Dns.Proofs.ResponseProofs
import LinuxHandson.Drivers.ProcfsReads
import LinuxHandson.Drivers.Proofs.ProcfsReadsProofs
import LinuxHandson.Drivers.Proofs.BlockErrorProofs
import LinuxHandson.Drivers.RtDemo
import LinuxHandson.Drivers.GpioDriver
import LinuxHandson.Drivers.Proofs.RtDemoProofs
import LinuxHandson.Drivers.Proofs.GpioDriverProofs
import LinuxHandson.Network.Proofs.SkbLinearProofs
import LinuxHandson.Lib.OnesComplement
import LinuxHandson.Network.Proofs.ChecksumProofs
import LinuxHandson.Lib.Scanf
import LinuxHandson.Network.HttpServer
import LinuxHandson.Network.Proofs.HttpServerProofs
import LinuxHandson.Lib.Credentials
import LinuxHandson.Users.PrivDrop
import LinuxHandson.Users.Proofs.PrivDropProofs
import LinuxHandson.Drivers.Proofs.SerdevDemoProofs
import LinuxHandson.Drivers.Proofs.SeqfileDemoProofs
import LinuxHandson.Drivers.SlabDemo
import LinuxHandson.Drivers.Proofs.SlabDemoProofs
import LinuxHandson.Lib.Bpf
import LinuxHandson.Network.BpfFilter
import LinuxHandson.Network.Proofs.BpfFilterProofs
import LinuxHandson.Lib.TrialDivision
import LinuxHandson.Numeric.MathlibAdvanced
import LinuxHandson.Numeric.Proofs.MathlibAdvancedProofs
import LinuxHandson.Numeric.MathlibBasic
import LinuxHandson.Numeric.Proofs.MathlibBasicProofs
import LinuxHandson.Lib.Bubble
import LinuxHandson.Numeric.BubbleSort
import LinuxHandson.Numeric.Proofs.BubbleSortProofs
import LinuxHandson.Lib.Lockstep
import LinuxHandson.Numeric.ElfArtifact
import LinuxHandson.Numeric.Proofs.ElfArtifactProofs
import LinuxHandson.Lib.Histogram
import LinuxHandson.Numeric.JitterMeasure
import LinuxHandson.Numeric.Proofs.JitterMeasureProofs
import LinuxHandson.Drivers.LockedDevices
import LinuxHandson.Drivers.Proofs.LockedDevicesProofs
import LinuxHandson.Lib.KthreadPair
import LinuxHandson.Lib.WeakMemory
import LinuxHandson.Threads.BarrierDemo
import LinuxHandson.Threads.Proofs.BarrierDemoProofs
import LinuxHandson.Drivers.KlistDemo
import LinuxHandson.Drivers.Proofs.KlistDemoProofs
import LinuxHandson.Ipc.PipeDemo
import LinuxHandson.Ipc.Proofs.PipeDemoProofs
import LinuxHandson.Lib.Reaper
import LinuxHandson.Network.ForkServer
import LinuxHandson.Network.Proofs.ForkServerProofs
import LinuxHandson.Dns.Proofs.MessageProofs
import LinuxHandson.Memfs.Proofs.InodeProofs
import LinuxHandson.Threads.Proofs.BufferEndProofs
import LinuxHandson.Threads.Proofs.ThreadPoolEndProofs
import LinuxHandson.Threads.Proofs.ThreadPoolTasksProofs
