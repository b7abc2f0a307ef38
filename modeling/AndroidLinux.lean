import AndroidLinux.Lib.Transition
import AndroidLinux.Lib.Scan
import AndroidLinux.Lib.CString
import AndroidLinux.Lib.ListHead
import AndroidLinux.Lib.DeltaList
import AndroidLinux.Lib.Tiling
import AndroidLinux.Lib.Align
import AndroidLinux.Lib.Packing
import AndroidLinux.Lib.Chain
import AndroidLinux.Lib.Census
import AndroidLinux.Msg.Types
import AndroidLinux.Msg.Buffer
import AndroidLinux.Msg.BufferPool
import AndroidLinux.Msg.Queue
import AndroidLinux.Msg.QueueFifo
import AndroidLinux.Msg.QueueRoom
import AndroidLinux.Msg.TaskTab
import AndroidLinux.Msg.SubTab
import AndroidLinux.Msg.SubRelation
import AndroidLinux.Msg.SubConcurrent
import AndroidLinux.Msg.System
import AndroidLinux.Msg.Registration
import AndroidLinux.Msg.TaskIds
import AndroidLinux.Msg.Send
import AndroidLinux.Msg.Threads
import AndroidLinux.Msg.QueueLifetime
import AndroidLinux.Msg.TaskNames
import AndroidLinux.Msg.QueueRuns
import AndroidLinux.Msg.Publish
import AndroidLinux.Msg.Receivers
import AndroidLinux.Msg.RspMng
import AndroidLinux.Msg.RspProtocol
import AndroidLinux.Msg.RspLifecycle
import AndroidLinux.Msg.RspAgreement
import AndroidLinux.Msg.RspRoundTrip
import AndroidLinux.Xmem.Alloc
import AndroidLinux.Xmem.Integrity
import AndroidLinux.Xmem.Defrag
import AndroidLinux.Timer.Reltm
import AndroidLinux.Timer.Wheel
import AndroidLinux.Timer.Schedule
import AndroidLinux.Timer.Iteration
import AndroidLinux.Timer.Expiry
import AndroidLinux.Timer.Periodic
import AndroidLinux.Timer.TickThread
import AndroidLinux.Timer.Stepwise
import AndroidLinux.Timer.Undisturbed
import AndroidLinux.Timer.Silence
import AndroidLinux.Time.UserClock
import AndroidLinux.Mem.ModReg
import AndroidLinux.Mem.MemMng
import AndroidLinux.Mem.Accounting
import AndroidLinux.Mem.Ownership
import AndroidLinux.Fifo.MessageQueue
import AndroidLinux.Fifo.Sections
import AndroidLinux.Fifo.Conservation
import AndroidLinux.Fifo.TimeOut
import AndroidLinux.Thread.Manager
import AndroidLinux.Thread.Lifecycle
import AndroidLinux.Udisk.Partitions
import AndroidLinux.Udisk.Isolation
import AndroidLinux.Lib.Memory
import AndroidLinux.Binder.Parcel
import AndroidLinux.Binder.ParcelWrite
import AndroidLinux.Binder.ParcelRead
import AndroidLinux.Binder.Growth
import AndroidLinux.Binder.Writing
import AndroidLinux.Binder.RoundTrip
import AndroidLinux.Binder.Parts
import AndroidLinux.Binder.Layout
import AndroidLinux.Binder.WriteOps
import AndroidLinux.Binder.PartOutcomes
import AndroidLinux.Binder.WriteRecords
import AndroidLinux.Binder.WriteEnds
import AndroidLinux.Binder.WriteRuns
import AndroidLinux.Binder.TextOutput
import AndroidLinux.Binder.TextBuffers
import AndroidLinux.Binder.DeathNotices
import AndroidLinux.Binder.DeathReports
import AndroidLinux.Binder.HandleTable
import AndroidLinux.Binder.HandleProxies
import AndroidLinux.Binder.RefCount
import AndroidLinux.Binder.RefShares
import AndroidLinux.Binder.RefBooks
import AndroidLinux.Binder.RefExact
import AndroidLinux.Lib.Tally
import AndroidLinux.Binder.MemoryHeaps
import AndroidLinux.Binder.HeapCounts
import AndroidLinux.Binder.HeapReplies
import AndroidLinux.Binder.HeapViews
import AndroidLinux.Binder.CommandLoop
import AndroidLinux.Binder.PendingDerefs
import AndroidLinux.Binder.CommandStream
import AndroidLinux.Binder.Statistics
import AndroidLinux.Binder.LiveParcels
import AndroidLinux.Msg.QueueMerge
import AndroidLinux.Msg.RegisterAtomic
import AndroidLinux.Msg.NameLookup
import AndroidLinux.Utils.Unicode
import AndroidLinux.Utils.UnicodeRoundTrip
import AndroidLinux.Lib.Buckets
import AndroidLinux.Cutils.Hashmap
import AndroidLinux.Cutils.HashmapContents
import AndroidLinux.Cutils.HashmapRefines
import AndroidLinux.Logcat.Output
import AndroidLinux.Logcat.Rotation
import AndroidLinux.Logcat.ReadLines
import AndroidLinux.Logcat.Choice
import AndroidLinux.Logcat.Merging
import AndroidLinux.Logcat.Newest
import AndroidLinux.Utils.SortedVector
import AndroidLinux.Utils.SortedSets
import AndroidLinux.Utils.KeyedMaps
import AndroidLinux.Timer.AbstmRuns
import AndroidLinux.Utils.VectorLists
import AndroidLinux.Timer.Abstm
import AndroidLinux.Utils.VectorImpl
import AndroidLinux.Utils.VectorItems
import AndroidLinux.Utils.VectorStorage
import AndroidLinux.Utils.VectorGrowth
import AndroidLinux.Time.MjdUtc
import AndroidLinux.Msg.BufferLayout
import AndroidLinux.Msg.ShmLayout
import AndroidLinux.Fifo.Creation
import AndroidLinux.Mem.ModTable
import AndroidLinux.Mem.ModBytes
import AndroidLinux.Mem.ModNames
import AndroidLinux.Udisk.FileList
import AndroidLinux.Udisk.FileWalk
import AndroidLinux.Udisk.FileEntries
import AndroidLinux.Udisk.FileListing
import AndroidLinux.Udisk.FilePages
import AndroidLinux.Udisk.FileFailures
import AndroidLinux.Utils.UnicodeSizing
import AndroidLinux.Udisk.FileFilter
import AndroidLinux.Binder.ObjectLookup
import AndroidLinux.Udisk.Detach
import AndroidLinux.Udisk.PartitionStatus
import AndroidLinux.Binder.TextDelivery
import AndroidLinux.Binder.TextLines
import AndroidLinux.Lib.StableSort
import AndroidLinux.Utils.VectorSort
import AndroidLinux.Utils.VectorSizes
import AndroidLinux.Utils.VectorSafety
import AndroidLinux.Binder.StructuredRead
import AndroidLinux.Binder.AppendFrom
import AndroidLinux.Binder.AppendLoop
import AndroidLinux.Logcat.Filters
import AndroidLinux.Logcat.TextEntry
import AndroidLinux.Binder.InterfaceToken
import AndroidLinux.Utils.UnicodeBounds
import AndroidLinux.Logcat.BinaryOutput
import AndroidLinux.Utils.Trimming
import AndroidLinux.Utils.StringRanges
import AndroidLinux.Utils.Removal
import AndroidLinux.Logcat.BinaryEntry
import AndroidLinux.Logcat.FormatLine
import AndroidLinux.Logcat.FormatComplete
import AndroidLinux.Logcat.EventFormat
import AndroidLinux.Cutils.HashmapSizing
import AndroidLinux.Cutils.JstringDecode
import AndroidLinux.Cutils.JstringRoundTrip
import AndroidLinux.Cutils.PtrArrayRefines
import AndroidLinux.Cutils.ConfigLines
import AndroidLinux.Logcat.EventTagLookup
import AndroidLinux.Logcat.EventTagFile
import AndroidLinux.Lib.Calendar
import AndroidLinux.Lib.Bisect
import AndroidLinux.Lib.Framing
import AndroidLinux.Lib.Serial
import AndroidLinux.Tz.LocalTime
import AndroidLinux.Tz.Timesub
import AndroidLinux.Tz.MakeTime
import AndroidLinux.Tz.Zone
import AndroidLinux.Tz.RoundTrip
import AndroidLinux.Cutils.RecordStream
import AndroidLinux.Cutils.RecordRuns
import AndroidLinux.Logcat.LogWrite
import AndroidLinux.Tz.Rules
import AndroidLinux.Tz.RuleTable
import AndroidLinux.Tz.RuleText
import AndroidLinux.Tz.ZoneText
import AndroidLinux.Tz.ZoneFile
import AndroidLinux.Tz.ZoneFormat
import AndroidLinux.Tz.ZoneLoad
import AndroidLinux.Utils.Paths
import AndroidLinux.Cutils.ConfigTrees
