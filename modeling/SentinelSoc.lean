import SentinelSoc.Lib.Sync
import SentinelSoc.Lib.Port
import SentinelSoc.Bus.Demux
import SentinelSoc.Bus.DemuxRuns
import SentinelSoc.Bus.AddrDecode
import SentinelSoc.Bus.Slaves
import SentinelSoc.Bus.Soc
import SentinelSoc.Bus.DataPort
import SentinelSoc.Bus.FetchPort
import SentinelSoc.Bus.Isram
import SentinelSoc.Bus.Access
import SentinelSoc.Bus.Arbiter
import SentinelSoc.Dift.TagRam
import SentinelSoc.Dift.Policy
import SentinelSoc.Core.Decoder
import SentinelSoc.Dift.Classes
import SentinelSoc.Core.Lsu
import SentinelSoc.Core.Controller
import SentinelSoc.Core.Pipeline
import SentinelSoc.Core.Taint
import SentinelSoc.Core.Retire
import SentinelSoc.Core.Stores
import SentinelSoc.Core.Loads
import SentinelSoc.Core.PcTaint
import SentinelSoc.Core.OldMode
import SentinelSoc.Core.Alerts
import SentinelSoc.Dift.ByteTaint
import SentinelSoc.Lib.Sha512
import SentinelSoc.Sha.Engine
import SentinelSoc.Sha.Padding
import SentinelSoc.Sha.Digest
import SentinelSoc.Sha.Twins
import SentinelSoc.Ed.Alu
import SentinelSoc.Ed.Mult
import SentinelSoc.Ed.Microcode
import SentinelSoc.Ed.Top
import SentinelSoc.Ed.Sequencer
import SentinelSoc.Lib.Barrett
import SentinelSoc.Ed.Barrett
import SentinelSoc.Lib.Ladder
import SentinelSoc.Lib.Lucas
import SentinelSoc.Ed.Prime
import SentinelSoc.Lib.Edwards
import SentinelSoc.Lib.EdwardsGroup
import SentinelSoc.Ed.Field
import SentinelSoc.Ed.Points
import SentinelSoc.Ed.Sequences
import SentinelSoc.Lib.Roots
import SentinelSoc.Ed.Decompress
import SentinelSoc.Ed.ScalarMult
import SentinelSoc.Ed.Verify
import SentinelSoc.Ed.Order
import SentinelSoc.Ed.Verdict
import SentinelSoc.Lib.ShiftReg
import SentinelSoc.Crypto.TopMost
import SentinelSoc.Crypto.Otp
import SentinelSoc.Crypto.Feed
import SentinelSoc.Crypto.Session
import SentinelSoc.Crypto.Protocol
import SentinelSoc.Crypto.Loading
import SentinelSoc.Crypto.SameR
import SentinelSoc.Crypto.Alike
import SentinelSoc.Crypto.Isolation
import SentinelSoc.Buf.SocBuffer
import SentinelSoc.Buf.Delivery
import SentinelSoc.Buf.Interrupts
import SentinelSoc.Buf.Abort
import SentinelSoc.Buf.Pointers
import SentinelSoc.Irq.Clint
import SentinelSoc.Irq.Plic
import SentinelSoc.Lib.ShiftFifo
import SentinelSoc.Fetch.Fifo
import SentinelSoc.Fetch.Prefetch
import SentinelSoc.Fetch.Stream
import SentinelSoc.Exec.Mult
import SentinelSoc.Exec.Div
import SentinelSoc.Lib.LongDivision
import SentinelSoc.Exec.Runs
import SentinelSoc.Lib.Ranked
import SentinelSoc.Irq.Claims
import SentinelSoc.Lib.ByteMem
import SentinelSoc.Core.LsuData
import SentinelSoc.Core.ByteMemory
import SentinelSoc.Top.Wiring
import SentinelSoc.Lib.Rv32
import SentinelSoc.Lib.Rvc
import SentinelSoc.Fetch.Compressed
import SentinelSoc.Fetch.CompressedTable
import SentinelSoc.Fetch.CompressedRuns
import SentinelSoc.Fetch.IfStage
import SentinelSoc.Lib.RvcFrames
import SentinelSoc.Fetch.Frames
