/-
# The liteeth UDP stack (`libliteeth/udp.c`, `inet.h`)

The stack as the firmware links it: hardware preamble and CRC, no broadcast
callback, a little-endian CPU. Its globals are the record `Eth`; addresses are
offsets from `ETHMAC_BASE`, so receive slot `i` starts at `2048 i` and transmit
slot `i` at `2048 (ETHMAC_RX_SLOTS + i)`. The MAC is not part of the source:
of its transmit side the record keeps the slot and length registers and the
list of start writes, each with the bytes its slot held then.

Offsets inside an Ethernet frame, from the packed structs:

    0 destmac     6 srcmac      12 ethertype
    14 hwtype     16 proto      18 hwsize      19 protosize   20 opcode
    22 sender_mac 28 sender_ip  32 target_mac  38 target_ip   42 padding
    14 version    15 diff_services  16 total_length  18 identification
    20 fragment_offset  22 ttl  23 proto  24 checksum  26 src_ip  30 dst_ip
    34 src_port   36 dst_port   38 length      40 checksum    42 payload
    34 type       35 code       36 checksum    38 identifier
    40 sequence_number          42 payload

The functions that build a reply write the transmit slot statement by
statement; `udp_send`, which an interrupt can cut between any two statements,
is the program of `PqcDtls.Send`.
-/
import PqcDtls.Lib.Mem

namespace PqcDtls

open Lib

/-! ### Byte order (`inet.h`) -/

def bswap16 (x : UInt16) : UInt16 := (x <<< 8) ||| (x >>> 8)

def bswap32 (x : UInt32) : UInt32 :=
  (x >>> 24) ||| ((x >>> 8) &&& (0xff00 : UInt32)) ||| ((x <<< 8) &&& (0xff0000 : UInt32)) |||
    (x <<< 24)

def htons (x : UInt16) : UInt16 := bswap16 x
def ntohs (x : UInt16) : UInt16 := bswap16 x
def htonl (x : UInt32) : UInt32 := bswap32 x
def ntohl (x : UInt32) : UInt32 := bswap32 x

/-! ### The SoC and the stack's globals -/

/-- The slot counts of the generated SoC (`ETHMAC_RX_SLOTS`, `ETHMAC_TX_SLOTS`). -/
structure Soc where
  rxSlots : ℕ
  txSlots : ℕ
  rxPos : 0 < rxSlots
  txPos : 0 < txSlots

/-- The SoC of `csr.json`. -/
def Soc.sim : Soc := ⟨2, 2, by decide, by decide⟩

/-- The address of a receive slot (`ETHMAC_SLOT_SIZE` is 2048). -/
def rxAddr (slot : ℕ) : ℕ := 2048 * slot

/-- The address of a transmit slot. -/
def Soc.txAddr (soc : Soc) (slot : ℕ) : ℕ := 2048 * (soc.rxSlots + slot)

abbrev MacAddr := Fin 6 → UInt8

/-- One start write of the transmit side: the slot and length registers, and
the bytes of the slot at that moment. -/
structure TxStart where
  slot : ℕ
  length : ℕ
  frame : List UInt8

/-- The globals of `udp.c` and the memory and registers it works on. -/
structure Eth where
  mem : Mem
  rxSlot : ℕ
  rxLen : ℕ
  rxBuffer : ℕ
  txSlot : ℕ
  txLen : ℕ
  txBuffer : ℕ
  myMac : MacAddr
  myIp : UInt32
  cachedMac : MacAddr
  cachedIp : UInt32
  pingSeqNumber : UInt32
  pingTsSend : UInt64
  /-- `rx_callback` is installed. -/
  rxCallback : Bool
  /-- The `sram_reader` slot and length registers. -/
  readerSlot : ℕ
  readerLength : ℕ
  /-- The start writes so far. -/
  started : List TxStart

namespace Eth

variable (soc : Soc)

/-! ### Access to the slots -/

def put8 (s : Eth) (off : ℕ) (v : UInt8) : Eth := { s with mem := s.mem.set (s.txBuffer + off) v }
def put16 (s : Eth) (off : ℕ) (v : UInt16) : Eth :=
  { s with mem := s.mem.store16 (s.txBuffer + off) v }
def put32 (s : Eth) (off : ℕ) (v : UInt32) : Eth :=
  { s with mem := s.mem.store32 (s.txBuffer + off) v }

def rx8 (s : Eth) (off : ℕ) : UInt8 := s.mem (s.rxBuffer + off)
def rx16 (s : Eth) (off : ℕ) : UInt16 := s.mem.load16 (s.rxBuffer + off)
def rx32 (s : Eth) (off : ℕ) : UInt32 := s.mem.load32 (s.rxBuffer + off)
def rxMac (s : Eth) (off : ℕ) : MacAddr := fun i => s.mem (s.rxBuffer + (off + i))

/-- The six bytes of an address, one after the other. -/
def putMac (s : Eth) (off : ℕ) (a : MacAddr) : Eth :=
  (List.finRange 6).foldl (fun s (i : Fin 6) => s.put8 (off + i) (a i)) s

def fillEthHeader (s : Eth) (destmac srcmac : MacAddr) (ethertype : UInt16) : Eth :=
  ((s.putMac 0 destmac).putMac 6 srcmac).put16 12 (htons ethertype)

/-! ### `send_packet` -/

def slotWrite (s : Eth) : Eth := { s with readerSlot := s.txSlot }
def lengthWrite (s : Eth) : Eth := { s with readerLength := s.txLen }

def startWrite (s : Eth) : Eth :=
  { s with started := s.started ++
      [⟨s.readerSlot, s.readerLength, s.mem.read (soc.txAddr s.readerSlot) s.readerLength⟩] }

def nextSlot (s : Eth) : Eth := { s with txSlot := (s.txSlot + 1) % soc.txSlots }
def nextBuffer (s : Eth) : Eth := { s with txBuffer := soc.txAddr s.txSlot }

/-- The wait for the MAC's ready bit changes nothing. -/
def sendPacket (s : Eth) : Eth :=
  ((((s.slotWrite).lengthWrite).startWrite soc).nextSlot soc).nextBuffer soc

/-! ### `ip_checksum` -/

/-- The big-endian word at an address, as the loop reads it. -/
def word (m : Mem) (a : ℕ) : UInt32 := ((m a).toUInt32 <<< 8) ||| (m (a + 1)).toUInt32

/-- `while(r >> 16) r = (r & 0xffff) + (r >> 16)`, `k` rounds at most. -/
def addOverflows : ℕ → UInt32 → UInt32
  | 0, r => r
  | k + 1, r => if r >>> 16 = 0 then r else addOverflows k ((r &&& (0xffff : UInt32)) + (r >>> 16))

def ipChecksum (r : UInt32) (m : Mem) (buffer length : ℕ) (complete : Bool) : UInt16 :=
  let r := (List.range (length / 2)).foldl (fun r i => r + word m (buffer + 2 * i)) r
  let r := addOverflows 32 r
  if complete then
    let r := ~~~r &&& (0xffff : UInt32)
    (if r = 0 then 0xffff else r).toUInt16
  else r.toUInt16

/-! ### ARP -/

/-- The reply to an ARP request, built in the transmit slot and sent. -/
def arpReply (s : Eth) : Eth :=
  let s := s.fillEthHeader (s.rxMac 22) s.myMac 0x0806
  let s := { s with txLen := 60 }
  let s := s.put16 14 (htons 1)
  let s := s.put16 16 (htons 0x0800)
  let s := s.put8 18 6
  let s := s.put8 19 4
  let s := s.put16 20 (htons 2)
  let s := s.put32 28 (htonl s.myIp)
  let s := (List.range 18).foldl (fun s i => s.put8 (42 + i) 0) s
  let s := s.putMac 22 s.myMac
  let s := s.put32 38 (htonl (ntohl (s.rx32 28)))
  let s := s.putMac 32 (s.rxMac 22)
  s.sendPacket soc

def processArp (s : Eth) : Eth :=
  if s.rxLen < 60 then s
  else if ntohs (s.rx16 14) ≠ 1 then s
  else if ntohs (s.rx16 16) ≠ 0x0800 then s
  else if s.rx8 18 ≠ 6 then s
  else if s.rx8 19 ≠ 4 then s
  else if ntohs (s.rx16 20) = 2 then
    if ntohl (s.rx32 28) = s.cachedIp then { s with cachedMac := s.rxMac 22 } else s
  else if ntohs (s.rx16 20) = 1 then
    if ntohl (s.rx32 38) = s.myIp then s.arpReply soc else s
  else s

/-! ### ICMP -/

/-- The echo reply to `length` bytes of payload. The copy trusts the IP length
field, not the slot size. -/
def echoReply (s : Eth) (length : ℕ) : Eth :=
  let s := s.fillEthHeader (s.rxMac 6) s.myMac 0x0800
  let s := s.put8 14 0x45
  let s := s.put8 15 0
  let s := s.put16 16 (htons (UInt16.ofNat (length + 28)))
  let s := s.put16 18 (htons 0)
  let s := s.put16 20 (htons 0x4000)
  let s := s.put8 22 64
  let s := s.put8 23 1
  let s := s.put16 24 0
  let s := s.put32 26 (htonl s.myIp)
  let s := s.put32 30 (s.rx32 26)
  let s := s.put16 24 (htons (ipChecksum 0 s.mem (s.txBuffer + 14) 20 true))
  let s := s.put8 34 0
  let s := s.put8 35 0
  let s := s.put16 38 (s.rx16 38)
  let s := s.put16 40 (s.rx16 40)
  let s := (List.range length).foldl (fun s i => s.put8 (42 + i) (s.rx8 (42 + i))) s
  let s := s.put16 36 0
  let s := s.put16 36 (htons (ipChecksum 0 s.mem (s.txBuffer + 34) (length + 8) true))
  let s := { s with txLen := length + 42 }
  s.sendPacket soc

/-- An echo reply that answers our own ping ends the wait; what else it does is print. -/
def processIcmp (s : Eth) : Eth :=
  if s.rxLen < 42 then s
  else if (ntohs (s.rx16 16)).toNat < 28 then s
  else
    let length := (ntohs (s.rx16 16)).toNat - 28
    if s.rx8 34 = 8 then s.echoReply soc length
    else if s.rx8 34 = 0 then
      if (s.rx16 40).toUInt32 ≠ s.pingSeqNumber then s
      else if s.rx16 38 ≠ 0xbe7c then s
      else { s with pingTsSend := 0 }
    else s

/-! ### UDP receive -/

/-- The arguments of a call of the receive callback; `data` is an address. -/
structure Delivery where
  srcIp : UInt32
  srcPort : UInt16
  dstPort : UInt16
  data : ℕ
  length : ℕ

/-- The call of `rx_callback` that `process_udp` makes, if it makes one. -/
def processUdp (s : Eth) : Option Delivery :=
  if s.rxLen < 42 then none
  else if (ntohs (s.rx16 16)).toNat < 28 then none
  else if s.rx8 23 ≠ 0x11 then none
  else if (ntohs (s.rx16 38)).toNat < 8 then none
  else if ntohl (s.rx32 30) ≠ s.myIp then none
  else if s.rxCallback then
    some ⟨ntohl (s.rx32 26), ntohs (s.rx16 34), ntohs (s.rx16 36), s.rxBuffer + 42,
      (ntohs (s.rx16 38)).toNat - 8⟩
  else none

/-- `process_frame`, with the callback it makes left to the caller: nothing
follows the callback. -/
def processFrame (s : Eth) : Eth × Option Delivery :=
  if ntohs (s.rx16 12) = 0x0806 then (s.processArp soc, none)
  else if ntohs (s.rx16 12) = 0x0800 then
    if s.rx8 14 ≠ 0x45 then (s, none)
    else if ntohl (s.rx32 30) ≠ s.myIp then (s, none)
    else if s.rx8 23 = 0x11 then (s, s.processUdp)
    else if s.rx8 23 = 0x01 then (s.processIcmp soc, none)
    else (s, none)
  else (s, none)

/-- `udp_start`: the addresses are set, the ARP cache is empty, both sides start
at slot 0 and no callback is installed. -/
def udpStart (s : Eth) (macaddr : MacAddr) (ip : UInt32) : Eth :=
  { s with
    myIp := ip
    myMac := macaddr
    cachedIp := 0
    cachedMac := fun _ => 0
    txSlot := 0
    readerSlot := 0
    txBuffer := soc.txAddr 0
    rxSlot := 0
    rxBuffer := rxAddr 0
    rxCallback := false }

/-! ### The transmit buffer -/

/-- The transmit buffer is the slot that the transmit index names. -/
structure TxOk (s : Eth) : Prop where
  slot_lt : s.txSlot < soc.txSlots
  buffer : s.txBuffer = soc.txAddr s.txSlot

theorem txOk_udpStart (s : Eth) (macaddr : MacAddr) (ip : UInt32) :
    (s.udpStart soc macaddr ip).TxOk soc := ⟨soc.txPos, rfl⟩

theorem txOk_sendPacket (s : Eth) : (s.sendPacket soc).TxOk soc :=
  ⟨Nat.mod_lt _ soc.txPos, rfl⟩

/-- A frame leaves the index and the buffer, or a reply to it has set them both. -/
theorem processFrame_tx (s : Eth) : ((s.processFrame soc).1.txSlot = s.txSlot ∧
    (s.processFrame soc).1.txBuffer = s.txBuffer) ∨ (s.processFrame soc).1.TxOk soc := by
  have harp : ((s.processArp soc).txSlot = s.txSlot ∧ (s.processArp soc).txBuffer = s.txBuffer) ∨
      (s.processArp soc).TxOk soc := by
    unfold processArp
    split_ifs
    all_goals first | exact Or.inl ⟨rfl, rfl⟩ | exact Or.inr (txOk_sendPacket soc _)
  have hicmp : ((s.processIcmp soc).txSlot = s.txSlot ∧ (s.processIcmp soc).txBuffer = s.txBuffer) ∨
      (s.processIcmp soc).TxOk soc := by
    unfold processIcmp
    dsimp only
    split_ifs
    all_goals first | exact Or.inl ⟨rfl, rfl⟩ | exact Or.inr (txOk_sendPacket soc _)
  unfold processFrame
  split_ifs
  all_goals first | exact Or.inl ⟨rfl, rfl⟩ | exact harp | exact hicmp

/-- Whatever frame arrives, the transmit buffer stays in step with its index. -/
theorem txOk_processFrame {s : Eth} (h : s.TxOk soc) : (s.processFrame soc).1.TxOk soc := by
  rcases processFrame_tx soc s with ⟨hslot, hbuffer⟩ | hok
  · exact ⟨hslot ▸ h.slot_lt, by rw [hslot, hbuffer, h.buffer]⟩
  · exact hok

/-! ### What a frame leaves alone -/

/-- The node's own address, the one it has resolved, and the frame being
processed. -/
structure Keeps (s t : Eth) : Prop where
  myIp : t.myIp = s.myIp
  cachedIp : t.cachedIp = s.cachedIp
  rxBuffer : t.rxBuffer = s.rxBuffer
  rxLen : t.rxLen = s.rxLen

/-- The copy of the echo payload writes the memory only. -/
theorem echoCopy_keeps (s : Eth) : ∀ k,
    Keeps s ((List.range k).foldl (fun s i => s.put8 (42 + i) (s.rx8 (42 + i))) s)
  | 0 => ⟨rfl, rfl, rfl, rfl⟩
  | k + 1 => by
    rw [List.range_succ, List.foldl_append]
    obtain ⟨h1, h2, h3, h4⟩ := echoCopy_keeps s k
    exact ⟨h1, h2, h3, h4⟩

theorem echoReply_keeps (s : Eth) (length : ℕ) : Keeps s (s.echoReply soc length) := by
  unfold echoReply
  exact ⟨(echoCopy_keeps _ length).myIp, (echoCopy_keeps _ length).cachedIp,
    (echoCopy_keeps _ length).rxBuffer, (echoCopy_keeps _ length).rxLen⟩

/-- Whatever frame it processes, `process_frame` keeps the addresses and the
globals that name the frame. -/
theorem processFrame_keeps (s : Eth) : Keeps s (s.processFrame soc).1 := by
  have harp : Keeps s (s.processArp soc) := by
    unfold processArp
    split_ifs <;> exact ⟨rfl, rfl, rfl, rfl⟩
  have hicmp : Keeps s (s.processIcmp soc) := by
    unfold processIcmp
    dsimp only
    split_ifs
    all_goals first | exact ⟨rfl, rfl, rfl, rfl⟩ | exact echoReply_keeps soc s _
  unfold processFrame
  split_ifs
  all_goals first | exact ⟨rfl, rfl, rfl, rfl⟩ | exact harp | exact hicmp

end Eth
end PqcDtls
