import Klog.Entry
import Klog.Format
import Klog.Append
import Klog.Ring
import Klog.BubbleSort
import Klog.Snapshot
import Klog.SnapshotInterleaved
import Klog.FormatRender
import Klog.Syscall
import Klog.LockProtocol
import Klog.Kernel
import Klog.Readers
import Klog.FormatFrame
