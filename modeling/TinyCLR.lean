import TinyCLR.Execution.Engine
import TinyCLR.Library.TransitionSystem
import TinyCLR.Execution.Scheduler
import TinyCLR.Execution.WaitForObject
import TinyCLR.Execution.Lock
import TinyCLR.Execution.LockBooks
import TinyCLR.Execution.LockProtocol
import TinyCLR.Execution.LockDestroy
import TinyCLR.Cache.AVLTree
import TinyCLR.Cache.VirtualMethodTable
import TinyCLR.Persistence.Bank
import TinyCLR.Persistence.EraseBank
import TinyCLR.Execution.StaticConstructor
import TinyCLR.FAT.BootSector
import TinyCLR.FAT.Initialize
import TinyCLR.FAT.Format
import TinyCLR.FAT.FormatMount
import TinyCLR.FAT.File
import TinyCLR.FAT.Path
import TinyCLR.FAT.QueryFrame
import TinyCLR.Library.Word32
import TinyCLR.PAL.SimpleHeap
import TinyCLR.PAL.SimpleHeapBlocks
import TinyCLR.PAL.SimpleHeapRun
import TinyCLR.PAL.Completions
import TinyCLR.WireProtocol.Packet
import TinyCLR.WireProtocol.Process
import TinyCLR.WireProtocol.Reception
import TinyCLR.Library.SlidingWindow
import TinyCLR.Support.LZ77
import TinyCLR.Support.LZ77Decoder
import TinyCLR.Support.LZ77Search
import TinyCLR.Support.LZ77RoundTrip
import TinyCLR.Update.InstallSafety
import TinyCLR.COM.Usart
import TinyCLR.COM.UsartFlow
import TinyCLR.Messaging.Messaging
import TinyCLR.Messaging.AtMostOnce
import TinyCLR.HTTP.InputNetworkStreamWrapper
import TinyCLR.HTTP.ChunkHeaders
import TinyCLR.HTTP.BodyDecoding
import TinyCLR.Text.UTF8
import TinyCLR.Text.StreamReader
import TinyCLR.Text.StreamReading
import TinyCLR.Text.UTF16
import TinyCLR.HeapBlock.Array
import TinyCLR.HeapBlock.ArrayCopy
import TinyCLR.HeapBlock.DelegateList
import TinyCLR.HeapBlock.HeapCluster
import TinyCLR.Execution.SignalTermination
import TinyCLR.HeapBlock.MemoryStream
import TinyCLR.HeapBlock.BitReading
import TinyCLR.HeapBlock.BitStream
import TinyCLR.HeapBlock.Queue
import TinyCLR.HeapBlock.QueueCopy
import TinyCLR.HeapBlock.QueueRefinement
import TinyCLR.GarbageCollector.MarkStack
import TinyCLR.GarbageCollector.MarkStackSafety
import TinyCLR.GarbageCollector.MarkStackRun
import TinyCLR.HeapBlock.Timer
import TinyCLR.HeapBlock.TimerRun
import TinyCLR.Text.UnicodeCount
import TinyCLR.Library.Word64
import TinyCLR.Serialization.BinaryFormatter
import TinyCLR.FAT.ClusterChain
import TinyCLR.FAT.SeekChain
import TinyCLR.FAT.Shrink
import TinyCLR.HeapBlock.Convert
import TinyCLR.HeapBlock.FixedPoint
import TinyCLR.WearLeveling.FreeSector
import TinyCLR.WearLeveling.FreeBlock
import TinyCLR.FAT.SectorCache
import TinyCLR.FAT.SectorCacheRun
import TinyCLR.TypeSystem.InstanceOf
import TinyCLR.FAT.EntryRun
import TinyCLR.FAT.EntryWriting
import TinyCLR.FAT.NameRoundTrip
import TinyCLR.FAT.CreateName
import TinyCLR.PAL.HalQueue
import TinyCLR.Graphics.Ellipse
import TinyCLR.Graphics.EllipseBounds
import TinyCLR.Graphics.EllipseFill
import TinyCLR.Messaging.PayloadBounds
import TinyCLR.TypeSystem.TypeName
import TinyCLR.TypeSystem.TypeNameRoundTrip
import TinyCLR.HeapBlock.ArrayList
import TinyCLR.HeapBlock.ListRefinement
import TinyCLR.Library.Calendar
import TinyCLR.PAL.TimeDriver
import TinyCLR.Update.MissingPackets
import TinyCLR.Collections.Hashtable
import TinyCLR.Collections.HashtableRefinement
import TinyCLR.TypeSystem.AttributeReading
import TinyCLR.GarbageCollector.Relocation
import TinyCLR.Serialization.CompressedUnsigned
import TinyCLR.TypeSystem.Dispatch
import TinyCLR.Framework.ConvertIntegers
import TinyCLR.Framework.Base64
import TinyCLR.Framework.Base64Decoding
import TinyCLR.Framework.Base64RoundTrip
import TinyCLR.Framework.MemoryStream
import TinyCLR.Framework.MemoryStreamRun
import TinyCLR.Library.PackedBits
import TinyCLR.Network.BitArray
import TinyCLR.Network.BitArrayAgreement
import TinyCLR.Network.Fragment
import TinyCLR.Library.ReplayWindow
import TinyCLR.Network.BroadcastRun
import TinyCLR.Execution.HeapAllocation
import TinyCLR.Execution.HeapRun
