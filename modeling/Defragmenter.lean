import Defragmenter.Continuity
import Defragmenter.Texts
import Defragmenter.Conservation
import Defragmenter.Statements
import Defragmenter.LifeCycle
import Defragmenter.Network
import Defragmenter.Refinement
import Defragmenter.Duplex
import Defragmenter.Patchwork
import Defragmenter.Unheard
import Defragmenter.Finishing
import Defragmenter.Delivery
import Defragmenter.Conversations
import Defragmenter.LongSends
import Defragmenter.FullWindow
import Defragmenter.ExpiryPass
import Defragmenter.Timestamps
import Defragmenter.Compaction
import Defragmenter.Reloading
import Defragmenter.SplitArithmetic
import Defragmenter.ReceiptNumbers
import Defragmenter.OutboundList
import Defragmenter.TwoPeers
import Defragmenter.MessageIds
import Defragmenter.ReceiptBounds
import Defragmenter.Partition
import Defragmenter.Isolation
import Defragmenter.MarkerReads
import Defragmenter.Completion
import Defragmenter.FragmentType
import Defragmenter.Window
import Defragmenter.Anchoring
import Defragmenter.Agreement
import Defragmenter.InboundCrash
import Defragmenter.OutboundCrash
import Defragmenter.LockDiscipline
import Defragmenter.Bookkeeping
import Defragmenter.PendingQuery
import Defragmenter.Messages
import Defragmenter.OutboundStore
import Defragmenter.ClientView
import Defragmenter.Stranding
import Defragmenter.Accounting
import Defragmenter.Tracking
import Defragmenter.Attribution
import Defragmenter.Basics
import Defragmenter.Database
import Defragmenter.Decimal
import Defragmenter.InboundHistory
import Defragmenter.InboundInvariant
import Defragmenter.InboundStore
import Defragmenter.Marker
import Defragmenter.Moves
import Defragmenter.Provenance
import Defragmenter.Reassembly
import Defragmenter.Receipts
import Defragmenter.Receiver
import Defragmenter.Redelivery
import Defragmenter.RemoteAbort
import Defragmenter.Runs
import Defragmenter.Sender
import Defragmenter.SparseSearch
import Defragmenter.Split
import Defragmenter.Tiling
