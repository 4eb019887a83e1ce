import JxCore.Core.Malloc
import JxCore.Core.MallocSearch
import JxCore.Core.MallocCode
import JxCore.Core.Memfs
import JxCore.Core.LongArithmetic
import JxCore.Core.ZipArchive
import JxCore.Core.RunqInvariant
import JxCore.Core.SchedGlobalRr
import JxCore.Core.PortalCallInvariant
import JxCore.Core.PortalIsolation
import JxCore.Core.ServiceRefcount
import JxCore.Core.PortalTarget
import JxCore.Core.TerminationReplies
import JxCore.Core.DomainTable
import JxCore.Core.ThreadTable
import JxCore.Core.Oneshot
import JxCore.Core.LoadIndex
import JxCore.Core.StaticFields
import JxCore.Core.LinkInside
import JxCore.Core.LinkClone
import JxCore.Core.ArrayCopy
import JxCore.Core.PortalQuota
import JxCore.Core.PortalFailure
import JxCore.Core.AutoPromo
import JxCore.Core.MethodLookup
import JxCore.Core.ThrowException
import JxCore.Core.HashKey
import JxCore.Core.Strings
import JxCore.Interface.MemorySandbox
import JxCore.Interface.FastMemory
import JxCore.Interface.MemoryMove
import JxCore.Interface.RegionAccess
import JxCore.Interface.RegionRefcount
import JxCore.Interface.AtomicVariable
import JxCore.Interface.MemoryFill
import JxCore.Interface.RegionBlocks
import JxCore.Memory.StackRoots
import JxCore.Memory.GcNewCollect
import JxCore.Memory.GcCompactingSlide
import JxCore.Memory.GcChunkedHeap
import JxCore.Memory.GcChunkedAccount
import JxCore.Memory.GcCopyBounds
import JxCore.Memory.GcChunkedTermination
import JxCore.Memory.GcNewAlloc
import JxCore.Core.SenderQueue
import JxCore.Interface.NodePool
import JxCore.Memory.SlotMap
import JxCore.Memory.HandleTable
import JxCore.Core.StringTable
import JxCore.Lib.CString
import JxCore.Core.NameBuffer
import JxCore.Lib.Walk
import JxCore.Core.MallocBoot
import JxCore.Memory.GcBitmap
import JxCore.Core.CreateDomain
import JxCore.Lib.Retry
import JxCore.Memory.MultiArray
import JxCore.Memory.MultiArrayResult
import JxCore.Core.PortalTable
import JxCore.Core.PortalHistory
import JxCore.Core.PortalServices
import JxCore.Core.PortalIsomorphism
import JxCore.Core.PortalSharing
import JxCore.Lib.Crc
import JxCore.Core.Crc32
import JxCore.Lib.Lz
import JxCore.Core.LzoDecompress
import JxCore.Core.LzoCompress
import JxCore.Core.LzoSafety
import JxCore.Core.LzoAgree
import JxCore.Core.LzoMatches
import JxCore.Core.LzoWritten
import JxCore.Core.LzoRoundTrip
import JxCore.Lib.StopAndWait
import JxCore.Core.Bdt
import JxCore.Core.BdtAck
import JxCore.Core.BdtDelivery
import JxCore.Memory.GcCompactingCollect
import JxCore.Memory.GcCompactingAlloc
import JxCore.Lib.RunOnce
import JxCore.Core.ClassInit
import JxCore.Core.RunqMachine
import JxCore.Core.RunqFairness
