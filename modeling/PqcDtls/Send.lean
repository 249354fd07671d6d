/-
# `dtls_send_cb` and `udp_send`, statement by statement

An interrupt can fire between any two statements of a send, and the MAC can
work through its queue there, so the send is a program: a list of `Instr`, one
for each statement of `dtls_send_cb`, `udp_send` and `send_packet` in the order
of the source, each acting on the call's state `Call` (the stack's globals and
the locals). Run without a break it is the function itself (`dtlsSendCb`).
-/
import PqcDtls.Liteeth

namespace PqcDtls

open Lib

/-- The largest record the transport takes (`DTLS_MAX_DGRAM`). -/
def dtlsMaxDgram : ℕ := 1536

/-- wolfSSL's I/O callback codes (`wolfio.h`). -/
def cbioErrGeneral : ℤ := -1
def cbioErrWantWrite : ℤ := -2

/-- The statements of a send. Those with an index are one round of a loop. -/
inductive Instr where
  /-- `tx = udp_get_tx_buffer()` -/
  | getTxBuffer
  /-- `memcpy(tx, buf, sz)`, byte `i` -/
  | copy (i : ℕ)
  /-- `cached_mac[i] == 0` -/
  | testMac (i : Fin 6)
  /-- `return 0`, and `WANT_WRITE` from there, when the tests all held -/
  | returnIfZero
  /-- `txlen = length + 42` -/
  | txLen
  /-- `if(txlen < ARP_PACKET_LENGTH) txlen = ARP_PACKET_LENGTH` -/
  | padTxLen
  | destMac (i : Fin 6)
  | srcMac (i : Fin 6)
  | etherType
  | ipVersion
  | ipDiffServices
  | ipTotalLength
  | ipIdentification
  | ipFragmentOffset
  | ipTtl
  | ipProto
  | ipChecksumZero
  | ipSrc
  | ipDst
  /-- `ip_checksum(0, &ip, 20, 1)` -/
  | ipSum
  | ipChecksumStore
  | udpSrcPort
  | udpDstPort
  | udpLength
  | udpChecksumZero
  | pseudoZero
  /-- `r = ip_checksum(0, &h, 12, 0)` -/
  | pseudoSum
  /-- `if(length & 1) { payload[length] = 0; length++; }` -/
  | padOdd
  /-- `r = ip_checksum(r, &udp, 8 + length, 1)` -/
  | udpSum
  | udpChecksumStore
  /-- `while(!ready)`, left once the MAC reports ready -/
  | awaitReady
  | slotWrite
  | lengthWrite
  | startWrite
  | nextSlot
  | nextBuffer
  /-- `return sz` -/
  | done
  deriving DecidableEq

/-- A call of `dtls_send_cb` under way. -/
structure Call where
  eth : Eth
  /-- The caller's record. -/
  buf : Mem
  sz : ℕ
  srcPort : UInt16
  dstPort : UInt16
  tx : ℕ
  /-- `udp_send`'s parameter, rounded up to even on the way. -/
  length : ℕ
  /-- The tests of `cached_mac` so far all found a zero. -/
  macZero : Bool
  /-- `struct pseudo_header h`: source 0, destination 4, zero 8, proto 9, length 10. -/
  h : Mem
  /-- The IP checksum between its sum and its store. -/
  ipSum : UInt16
  r : UInt32
  /-- The value returned, once the call has returned. -/
  ret : Option ℤ

/-- The call as `dtls_send_cb` starts it. -/
def Call.start (eth : Eth) (buf : Mem) (sz : ℕ) (srcPort dstPort : UInt16) : Call :=
  { eth, buf, sz, srcPort, dstPort, tx := 0, length := sz, macZero := true, h := fun _ => 0,
    ipSum := 0, r := 0, ret := none }

/-- What one statement does. -/
def Instr.act (soc : Soc) (c : Call) : Instr → Call
  | .getTxBuffer => { c with tx := c.eth.txBuffer + 42 }
  | .copy i => { c with eth := { c.eth with mem := c.eth.mem.set (c.tx + i) (c.buf i) } }
  | .testMac i => { c with macZero := c.macZero && c.eth.cachedMac i == 0 }
  | .returnIfZero => if c.macZero then { c with ret := some cbioErrWantWrite } else c
  | .txLen => { c with eth := { c.eth with txLen := c.length + 42 } }
  | .padTxLen => if c.eth.txLen < 60 then { c with eth := { c.eth with txLen := 60 } } else c
  | .destMac i => { c with eth := c.eth.put8 i (c.eth.cachedMac i) }
  | .srcMac i => { c with eth := c.eth.put8 (6 + i) (c.eth.myMac i) }
  | .etherType => { c with eth := c.eth.put16 12 (htons 0x0800) }
  | .ipVersion => { c with eth := c.eth.put8 14 0x45 }
  | .ipDiffServices => { c with eth := c.eth.put8 15 0 }
  | .ipTotalLength => { c with eth := c.eth.put16 16 (htons (UInt16.ofNat (c.length + 28))) }
  | .ipIdentification => { c with eth := c.eth.put16 18 (htons 0) }
  | .ipFragmentOffset => { c with eth := c.eth.put16 20 (htons 0x4000) }
  | .ipTtl => { c with eth := c.eth.put8 22 64 }
  | .ipProto => { c with eth := c.eth.put8 23 0x11, h := c.h.set 9 0x11 }
  | .ipChecksumZero => { c with eth := c.eth.put16 24 0 }
  | .ipSrc => { c with eth := c.eth.put32 26 (htonl c.eth.myIp), h := c.h.store32 0 (htonl c.eth.myIp) }
  | .ipDst =>
    { c with eth := c.eth.put32 30 (htonl c.eth.cachedIp), h := c.h.store32 4 (htonl c.eth.cachedIp) }
  | .ipSum => { c with ipSum := Eth.ipChecksum 0 c.eth.mem (c.eth.txBuffer + 14) 20 true }
  | .ipChecksumStore => { c with eth := c.eth.put16 24 (htons c.ipSum) }
  | .udpSrcPort => { c with eth := c.eth.put16 34 (htons c.srcPort) }
  | .udpDstPort => { c with eth := c.eth.put16 36 (htons c.dstPort) }
  | .udpLength =>
    { c with
      eth := c.eth.put16 38 (htons (UInt16.ofNat (c.length + 8)))
      h := c.h.store16 10 (htons (UInt16.ofNat (c.length + 8))) }
  | .udpChecksumZero => { c with eth := c.eth.put16 40 0 }
  | .pseudoZero => { c with h := c.h.set 8 0 }
  | .pseudoSum => { c with r := (Eth.ipChecksum 0 c.h 0 12 false).toUInt32 }
  | .padOdd =>
    if c.length % 2 = 1 then { c with eth := c.eth.put8 (42 + c.length) 0, length := c.length + 1 }
    else c
  | .udpSum =>
    { c with r := (Eth.ipChecksum c.r c.eth.mem (c.eth.txBuffer + 34) (8 + c.length) true).toUInt32 }
  | .udpChecksumStore => { c with eth := c.eth.put16 40 (htons c.r.toUInt16) }
  | .awaitReady => c
  | .slotWrite => { c with eth := c.eth.slotWrite }
  | .lengthWrite => { c with eth := c.eth.lengthWrite }
  | .startWrite => { c with eth := c.eth.startWrite soc }
  | .nextSlot => { c with eth := c.eth.nextSlot soc }
  | .nextBuffer => { c with eth := c.eth.nextBuffer soc }
  | .done => { c with ret := some c.sz }

/-- A call that has returned does nothing more. -/
def Instr.exec (soc : Soc) (c : Call) (i : Instr) : Call :=
  if c.ret.isSome then c else i.act soc c

def execAll (soc : Soc) (c : Call) (is : List Instr) : Call := is.foldl (Instr.exec soc) c

/-- The copy of the record into the transmit slot. -/
def fillProg (sz : ℕ) : List Instr := .getTxBuffer :: (List.range sz).map .copy

/-- `udp_send` up to its early return, and the frame length. -/
def checkProg : List Instr :=
  (List.finRange 6).map .testMac ++ [.returnIfZero, .txLen, .padTxLen]

def destProg : List Instr := (List.finRange 6).map .destMac

/-- The rest of the headers, up to the last checksum. -/
def headerProg : List Instr :=
  (List.finRange 6).map .srcMac ++
  [.etherType, .ipVersion, .ipDiffServices, .ipTotalLength, .ipIdentification, .ipFragmentOffset,
    .ipTtl, .ipProto, .ipChecksumZero, .ipSrc, .ipDst, .ipSum, .ipChecksumStore, .udpSrcPort,
    .udpDstPort, .udpLength, .udpChecksumZero, .pseudoZero, .pseudoSum, .padOdd, .udpSum,
    .udpChecksumStore]

/-- `send_packet` up to the start write. -/
def startProg : List Instr := [.awaitReady, .slotWrite, .lengthWrite, .startWrite]

/-- The rest of `send_packet`, and the return. -/
def finishProg : List Instr := [.nextSlot, .nextBuffer, .done]

/-- The whole send of a record of `sz` bytes. -/
def sendProg (sz : ℕ) : List Instr :=
  fillProg sz ++ checkProg ++ destProg ++ headerProg ++ startProg ++ finishProg

end PqcDtls
