import PqcDtls.Lib.Mem
import PqcDtls.Lib.OnesSum
import PqcDtls.Lib.Run
import PqcDtls.Lib.Fifo
import PqcDtls.Lib.Wrap
import PqcDtls.Lib.Words
import PqcDtls.Lib.BigEndian
import PqcDtls.Lib.Excerpt
import PqcDtls.Lib.Binary64
import PqcDtls.Lib.Hex
import PqcDtls.Lib.Python
import PqcDtls.Liteeth
import PqcDtls.Checksum
import PqcDtls.Frame
import PqcDtls.Send
import PqcDtls.SendFrame
import PqcDtls.DtlsIo
import PqcDtls.RxIrq
import PqcDtls.Receive
import PqcDtls.Codec
import PqcDtls.StaleSlot
import PqcDtls.Timer
import PqcDtls.Handshake
import PqcDtls.Retransmit
import PqcDtls.Driver
import PqcDtls.Near
import PqcDtls.TxIrq
import PqcDtls.TxSlots
import PqcDtls.RxService
import PqcDtls.Server
import PqcDtls.Progress
import PqcDtls.RamInit
import PqcDtls.Replay
import PqcDtls.Epochs
import PqcDtls.Record
import PqcDtls.Channel
import PqcDtls.Reassembly
import PqcDtls.Fragments
import PqcDtls.HandshakeRecv
import PqcDtls.Delivery
import PqcDtls.Flight
import PqcDtls.Acks
import PqcDtls.Arp
import PqcDtls.Icmp
