import Trtp.Lib.Bytes
import Trtp.Lib.Transition
import Trtp.Lib.Progress
import Trtp.Lib.Serial
import Trtp.Lib.Cells
import Trtp.Lib.Buffers
import Trtp.Lib.Extremes
import Trtp.Lib.Crc
import Trtp.Packet
import Trtp.Packet.Payload
import Trtp.Codec
import Trtp.Codec.Decode
import Trtp.Codec.Accept
import Trtp.Codec.RoundTrip
import Trtp.Codec.Contract
import Trtp.Codec.Size
import Trtp.Codec.Canonical
import Trtp.Codec.Burst
import Trtp.Window
import Trtp.Window.Order
import Trtp.Window.Insert
import Trtp.LinkedList
import Trtp.LinkedList.Refine
import Trtp.Receiver
import Trtp.Fec
import Trtp.Fec.Recovery
import Trtp.Fec.Wire
import Trtp.Sender
import Trtp.Protocol
import Trtp.Protocol.Sender
import Trtp.Protocol.Numbering
import Trtp.Protocol.Contiguity
import Trtp.Protocol.Clean
import Trtp.Receiver.Receive
import Trtp.Receiver.Order
import Trtp.Receiver.Stale
import Trtp.Receiver.Exposed
import Trtp.Protocol.Receiver
import Trtp.Protocol.Acknowledgement
import Trtp.Protocol.Delivery
import Trtp.Protocol.EmptyFile
import Trtp.File
import Trtp.Window.Rel
import Trtp.Network
import Trtp.Sender.Response
import Trtp.Refine.Carry
import Trtp.Refine.Sender
import Trtp.Refine.Conditions
import Trtp.Sender.Run
import Trtp.Sender.Cumulative
import Trtp.Sender.Ignored
import Trtp.Sender.Loop
import Trtp.Sender.Timer
import Trtp.Sender.Fill
import Trtp.Sender.FlowControl
import Trtp.Sender.Ending
import Trtp.Sender.Accumulator
import Trtp.Sender.Rtt
import Trtp.Sender.GiveUp
import Trtp.Refine.Receiver
import Trtp.Receiver.Run
import Trtp.Receiver.Loop
import Trtp.Receiver.Output
import Trtp.Receiver.Nack
import Trtp.Receiver.Capacity
import Trtp.Receiver.Advance
import Trtp.Receiver.Accounting
import Trtp.Receiver.Response
import Trtp.Refine.Network
import Trtp.Network.Transfer
import Trtp.Network.Acknowledgement
import Trtp.Protocol.Undamaged
import Trtp.Network.Undamaged
import Trtp.Network.Turns
import Trtp.Protocol.Completion
import Trtp.Network.Completion
import Trtp.LinkedList.Run
import Trtp.LinkedList.Sender
import Trtp.LinkedList.Receiver
import Trtp.Sender.Access
import Trtp.Sender.Sent
import Trtp.Sender.Silence
import Trtp.Sender.FecEnable
import Trtp.Fec.Deal
import Trtp.Network.Damage
import Trtp.Network.Noise
