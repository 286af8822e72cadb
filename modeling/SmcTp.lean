import SmcTp.FifoGcd.System
import SmcTp.GcdEngines
import SmcTp.Giet.BarrierRounds
import SmcTp.Giet.DmaChannel
import SmcTp.Giet.Invalidation
import SmcTp.Giet.IocSharing
import SmcTp.Giet.Itoa
import SmcTp.Giet.LineInput
import SmcTp.Giet.NumberInput
import SmcTp.Giet.Printf
import SmcTp.Giet.Scheduling
import SmcTp.Vci.GcdAnswers
import SmcTp.Vci.GcdPolling
import SmcTp.Vci.MultiTop
import SmcTp.Vci.VgsbCounters
import SmcTp.Vci.VgsbTransactions
import SmcTp.Xcache.PacketLengths
import SmcTp.Xcache.ReadAnswers
import SmcTp.Xcache.Conditional
import SmcTp.Mapping.Identifiers
import SmcTp.Mapping.RoutingTables
import SmcTp.Soft.Frames
import SmcTp.Soft.MainDisplay
import SmcTp.Soft.Prime
import SmcTp.Xcache.StorePipeline
import SmcTp.Xcache.WriteBursts
import SmcTp.Giet.TtyInput
import SmcTp.Giet.Interrupts
import SmcTp.Giet.Transparency
import SmcTp.Giet.Memcpy
import SmcTp.Xcache.Platform
