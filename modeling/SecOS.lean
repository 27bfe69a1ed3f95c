import SecOS.Proofs.ForkAtomic
import SecOS.Proofs.TlbSafety
import SecOS.Proofs.LostWakeups
import SecOS.Proofs.StopContinue
import SecOS.Proofs.CpuExclusion
import SecOS.Proofs.JournalCrash
import SecOS.Proofs.TcpLinkRuns
import SecOS.Proofs.DroppedIds
import SecOS.Proofs.Sigreturn
import SecOS.Proofs.PipeWrites
import SecOS.Proofs.WaitStatus
import SecOS.Proofs.Fat32Ends
import SecOS.Proofs.ReferenceCounts
import SecOS.Proofs.ExecUnwinds
import SecOS.Proofs.RxKick
import SecOS.Proofs.AcctExclusive
import SecOS.Proofs.PartitionRequests
import SecOS.Proofs.PkgInstall
import SecOS.Proofs.DhcpLease
import SecOS.Proofs.NtfsNames
import SecOS.Proofs.PmmComplete
import SecOS.Proofs.PipeFifo
import SecOS.Proofs.KernelLock
import SecOS.Proofs.BootedMachine
import SecOS.Proofs.HeapOwnership
import SecOS.Proofs.RateLimit
import SecOS.Proofs.PathNormal
import SecOS.Proofs.InputStreams
import SecOS.Proofs.TcpProbes
import SecOS.Proofs.TcpRing
import SecOS.Proofs.TtyPosted
import SecOS.Proofs.TtyRaw
import SecOS.Proofs.Checksums
