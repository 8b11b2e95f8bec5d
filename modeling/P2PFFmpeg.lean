import P2PFFmpeg.Library.Linked
import P2PFFmpeg.Library.Program
import P2PFFmpeg.Library.Transition
import P2PFFmpeg.Signal.Json
import P2PFFmpeg.Signal.Message
import P2PFFmpeg.Signal.Codec
import P2PFFmpeg.Peer.Context
import P2PFFmpeg.Peer.Connection
import P2PFFmpeg.Peer.Probe
import P2PFFmpeg.Peer.Tracks
import P2PFFmpeg.Peer.Signaling
import P2PFFmpeg.Receiver.Handler
import P2PFFmpeg.Receiver.ConnectThread
import P2PFFmpeg.Receiver.Runs
import P2PFFmpeg.Receiver.Discipline
import P2PFFmpeg.Sender.Handler
import P2PFFmpeg.Sender.Muxer
import P2PFFmpeg.Sender.Runs
import P2PFFmpeg.Sender.Selection
import P2PFFmpeg.Sender.StartUp
import P2PFFmpeg.Library.Mutex
import P2PFFmpeg.Sender.WakeUp
import P2PFFmpeg.Session.LinkedSelection
import P2PFFmpeg.Session.ErrorMessages
import P2PFFmpeg.Session.NullSafety
import P2PFFmpeg.Library.Network
import P2PFFmpeg.Session.Network
import P2PFFmpeg.Session.Agreement
import P2PFFmpeg.Rtp.Context
import P2PFFmpeg.Rtp.Parse
import P2PFFmpeg.Rtp.Steps
import P2PFFmpeg.Rtp.Ownership
import P2PFFmpeg.Rtp.Reordering
import P2PFFmpeg.Rtp.MultiFrame
import P2PFFmpeg.Whep.Delivery
import P2PFFmpeg.Demux.Context
import P2PFFmpeg.Demux.Steps
import P2PFFmpeg.Demux.Switching
import P2PFFmpeg.Demux.Conservation
import P2PFFmpeg.Demux.Playback
import P2PFFmpeg.Library.Scan
import P2PFFmpeg.Payload.Startcode
import P2PFFmpeg.Payload.AccessUnit
import P2PFFmpeg.Payload.Packetizer
import P2PFFmpeg.Payload.Emission
import P2PFFmpeg.Payload.RoundTrip
import P2PFFmpeg.Session.Correspondence
import P2PFFmpeg.Receiver.Probing
import P2PFFmpeg.Library.Handover
import P2PFFmpeg.Peer.Candidates
import P2PFFmpeg.Session.Candidates
import P2PFFmpeg.Payload.Hevc
import P2PFFmpeg.Payload.Muxer
import P2PFFmpeg.Payload.PacketSize
import P2PFFmpeg.Payload.NalSizes
import P2PFFmpeg.Payload.SizeDiscipline
import P2PFFmpeg.Library.Keystream
import P2PFFmpeg.Srtp.Context
import P2PFFmpeg.Srtp.RoundTrip
import P2PFFmpeg.Output.Context
import P2PFFmpeg.Output.Restream
import P2PFFmpeg.Output.Switch
import P2PFFmpeg.Library.LazySection
import P2PFFmpeg.Output.Exclusion
import P2PFFmpeg.Library.Ring
import P2PFFmpeg.Util.Fifo
import P2PFFmpeg.Player.PacketQueue
import P2PFFmpeg.Player.FrameOrder
import P2PFFmpeg.Library.Monitor
import P2PFFmpeg.Tools.ObjPool
import P2PFFmpeg.Tools.ThreadQueue
import P2PFFmpeg.Tools.ThreadDelivery
import P2PFFmpeg.Library.Watermark
import P2PFFmpeg.Tools.SyncQueue
import P2PFFmpeg.Tools.SyncFifos
import P2PFFmpeg.Tools.SyncPrefix
import P2PFFmpeg.Tools.SyncOrder
import P2PFFmpeg.Library.BoundedQueue
import P2PFFmpeg.Util.FifoQueue
import P2PFFmpeg.Library.Comparison
import P2PFFmpeg.Util.Tree
import P2PFFmpeg.Util.TreeBalance
import P2PFFmpeg.Util.TreeSet
import P2PFFmpeg.Util.TreeRuns
import P2PFFmpeg.Util.BPrint
import P2PFFmpeg.Util.BPrintText
import P2PFFmpeg.Util.Dict
import P2PFFmpeg.Library.Conditions
import P2PFFmpeg.Util.MessageQueue
import P2PFFmpeg.Util.MessageDelivery
import P2PFFmpeg.Library.HeapList
import P2PFFmpeg.Mux.Interleave
import P2PFFmpeg.Mux.InterleaveList
import P2PFFmpeg.Mux.InterleaveRuns
import P2PFFmpeg.Mux.InterleaveOrder
import P2PFFmpeg.Util.AudioFifo
import P2PFFmpeg.Util.AudioChannels
import P2PFFmpeg.Bsf.ListFilter
import P2PFFmpeg.Bsf.Composition
import P2PFFmpeg.Avio.Context
import P2PFFmpeg.Avio.Writing
import P2PFFmpeg.Avio.Reading
import P2PFFmpeg.Annexb.Filter
import P2PFFmpeg.Annexb.Stream
import P2PFFmpeg.Annexb.Avcc
import P2PFFmpeg.Bits.PutBits
import P2PFFmpeg.Library.BitField
import P2PFFmpeg.Bits.GetBits
import P2PFFmpeg.Bits.Golomb
import P2PFFmpeg.Bits.RoundTrip
import P2PFFmpeg.H2645.Parse
import P2PFFmpeg.H2645.Escape
import P2PFFmpeg.H2645.Rbsp
import P2PFFmpeg.H2645.RoundTrip
import P2PFFmpeg.Library.Selection
import P2PFFmpeg.Receiver.BestNode
import P2PFFmpeg.Peer.Invariant
import P2PFFmpeg.Sender.Routing
import P2PFFmpeg.Peer.RemoteTracks
import P2PFFmpeg.Peer.Classification
import P2PFFmpeg.Peer.TrackFailure
import P2PFFmpeg.Library.Coverage
import P2PFFmpeg.Peer.ProbeLoss
import P2PFFmpeg.Peer.ProbeMessage
import P2PFFmpeg.Receiver.MetricsHistory
import P2PFFmpeg.Peer.ClockOffset
import P2PFFmpeg.Receiver.ClockOffset
import P2PFFmpeg.Library.Deadline
import P2PFFmpeg.Receiver.Waiting
import P2PFFmpeg.Demux.Interleaving
import P2PFFmpeg.Demux.StreamTypes
import P2PFFmpeg.Demux.NalUnits
import P2PFFmpeg.Demux.ScanBounds
import P2PFFmpeg.Demux.CdnParams
import P2PFFmpeg.Sdp.Media
import P2PFFmpeg.Sdp.Profile
import P2PFFmpeg.Sdp.Descriptions
import P2PFFmpeg.Rtp.Timestamps
import P2PFFmpeg.Rtp.LossReports
import P2PFFmpeg.Rtp.JitterBuffer
import P2PFFmpeg.Rtp.Nack
import P2PFFmpeg.Rtp.Repair
import P2PFFmpeg.Rtp.Headers
import P2PFFmpeg.Library.Rounding
import P2PFFmpeg.Srtp.FailedCalls
import P2PFFmpeg.Util.Rescale
import P2PFFmpeg.Library.Bisection
import P2PFFmpeg.Seek.Index
import P2PFFmpeg.Seek.IndexSearch
import P2PFFmpeg.Demux.WrapReference
import P2PFFmpeg.Seek.GenSearch
import P2PFFmpeg.Payload.Aggregates
import P2PFFmpeg.Tools.FrameQueue
import P2PFFmpeg.Tools.FrameRegrouping
import P2PFFmpeg.Tools.FrameRuns
import P2PFFmpeg.Tools.FrameOrder
import P2PFFmpeg.Tools.SyncLimit
import P2PFFmpeg.Library.Window
import P2PFFmpeg.Output.ReorderedDts
import P2PFFmpeg.Mux.Shift
import P2PFFmpeg.Library.Digits
import P2PFFmpeg.Util.CompareTs
import P2PFFmpeg.Util.Integer
import P2PFFmpeg.Util.IntegerDivision
import P2PFFmpeg.Util.Uuid
import P2PFFmpeg.Library.ShiftRegister
import P2PFFmpeg.Util.Crc
import P2PFFmpeg.Util.Timecode
import P2PFFmpeg.Util.Base64
import P2PFFmpeg.Library.NearestFraction
import P2PFFmpeg.Util.Reduce
import P2PFFmpeg.Annexb.ParameterSets
import P2PFFmpeg.Payload.Mpeg4Generic
import P2PFFmpeg.Payload.StartcodeReads
import P2PFFmpeg.Peer.NodeList
import P2PFFmpeg.Encoder.AudioFrameQueue
import P2PFFmpeg.Util.DictMap
import P2PFFmpeg.Avio.SeekFailure
import P2PFFmpeg.Bits.SliceData
import P2PFFmpeg.Annexb.Bounds
import P2PFFmpeg.Annexb.Pipeline
import P2PFFmpeg.Payload.Transmission
