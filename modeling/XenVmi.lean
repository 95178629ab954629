import XenVmi.Altp2m.Failure
import XenVmi.Altp2m.Flush
import XenVmi.Altp2m.HostFrame
import XenVmi.Altp2m.Interleaving
import XenVmi.Altp2m.Propagate
import XenVmi.Altp2m.Vmfunc
import XenVmi.Ept.Superpages
import XenVmi.Ept.TypeRange
import XenVmi.EventChannel.Agreement
import XenVmi.EventFifo.Order
import XenVmi.EventFifo.SetLink
import XenVmi.Grant.Authorised
import XenVmi.Grant.Iommu
import XenVmi.GuestTime
import XenVmi.LogDirty.Exact
import XenVmi.P2m.Inverse
import XenVmi.P2m.Paging
import XenVmi.P2m.PodCache
import XenVmi.P2m.PodZero
import XenVmi.P2m.SetEntry
import XenVmi.PageAlloc.Claims
import XenVmi.PageAlloc.Pieces
import XenVmi.Pdx
import XenVmi.Perception.Trace
import XenVmi.Rangeset.Budget
import XenVmi.Rangeset.Difference
import XenVmi.Tbuf.Bounds
import XenVmi.Tbuf.Fifo
import XenVmi.Tbuf.Filter
import XenVmi.Tbuf.MembufDump
import XenVmi.TimerQueue.Deadlines
import XenVmi.Vchan.Wakeups
import XenVmi.VmEvent.Reservations
