/-
# Reassembling handshake messages

`DtlsMsgSet`, `DtlsMsgCombineFragBuckets` and `DtlsMsgAssembleCompleteMessage`
(`internal.c`): the fragments of one handshake message are kept in buckets,
ranges of the message in the order of their offsets, and a fragment that meets a
bucket is merged into it, with the buckets it covers and the one it reaches.

A fragment is stray (`Stray`) when the merge is wrong for it: it lies in a gap
between two buckets without touching either, or it covers the front of a bucket
but not its end. Everything else is merged as it should be (`Stored.part`).
-/
import Mathlib.Data.List.TakeWhile
import PqcDtls.Lib.Run
import PqcDtls.Lib.Excerpt
import PqcDtls.Lib.BigEndian

namespace PqcDtls
namespace Reassembly

open Lib

/-! ### Buffers -/

/-- `XMEMCPY` or `XMEMMOVE` of `count` bytes from place `j` of `src` to place `i`
of `dst`; nothing if that leaves one of the two. -/
def memcpy (dst : List UInt8) (i : ℕ) (src : List UInt8) (j count : ℕ) : Option (List UInt8) :=
  if i + count ≤ dst.length ∧ j + count ≤ src.length then
    some (dst.take i ++ excerpt src j count ++ dst.drop (i + count))
  else none

/-- What the allocator does: whether it has the memory, and what the memory holds. -/
structure Heap where
  ok : Bool
  junk : ℕ → UInt8

/-- `XREALLOC` of a buffer. -/
def realloc (heap : Heap) (buf : List UInt8) (size : ℕ) : List UInt8 :=
  buf.take size ++ (List.range (size - buf.length)).map heap.junk

/-- A difference of `word32`s. -/
def sub32 (a b : ℕ) : ℕ := (a + (2 ^ 32 - b % 2 ^ 32)) % 2 ^ 32

/-! ### Buckets and messages -/

/-- `DtlsFragBucket`; its `sz` is the length of the buffer. -/
structure FragBucket where
  offset : ℕ
  buf : List UInt8
  deriving DecidableEq, Repr

/-- Where a bucket ends. -/
def FragBucket.stop (b : FragBucket) : ℕ := b.offset + b.buf.length

/-- `no_shake`. -/
def NO_SHAKE : UInt8 := 255

/-- `DTLS_FRAG_POOL_SZ`. -/
def FRAG_POOL_SZ : ℕ := 10

/-- `DtlsMsg`; `raw` is the message with the header in front, once it is
complete. -/
structure DtlsMsg where
  fragBucketList : List FragBucket := []
  raw : List UInt8 := []
  bytesReceived : ℕ := 0
  epoch : BitVec 16 := 0
  seq : ℕ := 0
  sz : ℕ
  type : UInt8 := NO_SHAKE
  fragBucketListCount : ℕ := 0
  ready : Bool := false
  encrypted : Bool := false
  deriving DecidableEq, Repr

/-- The merged range of `DtlsMsgCombineFragBuckets`, in the buffer that holds
`next` (if it is reached) at its place already: the bytes of the fragment and of
`cur`. `curBuf` is `cur->buf`, which is the buffer itself when that was `cur`'s. -/
def fillMerged (inPlace : Bool) (cur : FragBucket) (newOffset newOffsetEnd offset : ℕ) (data buf : List UInt8) :
    Option (List UInt8) :=
  let offsetEnd := offset + data.length
  let curBuf := if inPlace then buf else cur.buf
  if newOffset = offset then
    if newOffsetEnd ≤ offsetEnd then
      -- data encompasses cur, only copy data
      memcpy buf 0 data 0 (min data.length (newOffsetEnd - newOffset))
    else
      -- data -> cur
      (memcpy buf data.length curBuf 0 (sub32 cur.buf.length (sub32 offsetEnd cur.offset))).bind fun buf =>
        memcpy buf 0 data 0 data.length
  else
    -- cur -> data
    (if inPlace then some buf else memcpy buf 0 curBuf 0 cur.buf.length).bind fun buf =>
      memcpy buf cur.buf.length data (cur.stop - offset) (newOffsetEnd - cur.stop)

/-- `DtlsMsgCombineFragBuckets`: the bucket that takes the place of `cur`, of the
buckets the fragment covers and, when the fragment reaches it, of `next`. -/
def combineBucket (heap : Heap) (cur : FragBucket) (next : Option FragBucket) (offset : ℕ) (data : List UInt8) :
    Option FragBucket :=
  let offsetEnd := offset + data.length
  let newOffset := min cur.offset offset
  match next with
  | none =>
    let newOffsetEnd := max cur.stop offsetEnd
    let buf := realloc heap cur.buf (newOffsetEnd - newOffset)
    (fillMerged true cur newOffset newOffsetEnd offset data buf).map (⟨newOffset, ·⟩)
  | some next =>
    -- the larger of the two buckets is expanded
    let inPlace := decide (next.buf.length ≤ cur.buf.length)
    let buf := realloc heap (if inPlace then cur.buf else next.buf) (next.stop - newOffset)
    (memcpy buf (next.offset - newOffset) (if inPlace then next.buf else buf) 0 next.buf.length).bind fun buf =>
      (fillMerged inPlace cur newOffset next.offset offset data buf).map (⟨newOffset, ·⟩)

/-- The sizes of buckets together. -/
def sizes (l : List FragBucket) : ℕ := (l.map (·.buf.length)).sum

/-- The merge of a fragment into the bucket `cur`, with the list behind it:
the list that takes their place, how many buckets went, and how many bytes were
new. -/
def mergeAt (heap : Heap) (cur : FragBucket) (tail : List FragBucket) (offset : ℕ) (data : List UInt8) :
    Option (List FragBucket × ℕ × ℕ) :=
  let offsetEnd := offset + data.length
  let covered := tail.takeWhile fun b => b.stop ≤ offsetEnd
  match tail.dropWhile fun b => b.stop ≤ offsetEnd with
  | next :: rest =>
    if next.offset ≤ offsetEnd then
      (combineBucket heap cur (some next) offset data).map fun b =>
        (b :: rest, covered.length + 1, sub32 b.buf.length (sizes (cur :: covered) + next.buf.length))
    else
      (combineBucket heap cur none offset data).map fun b =>
        (b :: next :: rest, covered.length, sub32 b.buf.length (sizes (cur :: covered)))
  | [] =>
    (combineBucket heap cur none offset data).map fun b =>
      ([b], covered.length, sub32 b.buf.length (sizes (cur :: covered)))

/-- What `DtlsMsgSet` returns. -/
inductive SetResult where
  | ok
  | badFuncArg
  | sequenceError
  | memoryError
  | tooManyFragments
  deriving DecidableEq, Repr

/-- The handshake header in front of a complete message. -/
def handshakeHeader (type : UInt8) (seq sz : ℕ) : List UInt8 :=
  type :: (bigEndian 3 sz ++ bigEndian 2 seq ++ bigEndian 3 0 ++ bigEndian 3 sz)

/-- `DtlsMsgAssembleCompleteMessage`. -/
def dtlsMsgAssembleCompleteMessage (msg : DtlsMsg) : DtlsMsg :=
  match msg.fragBucketList with
  | [] => msg
  | b :: _ =>
    if msg.fragBucketListCount ≠ 1 ∨ b.offset ≠ 0 ∨ b.buf.length ≠ msg.sz then msg
    else
      { msg with
        raw := handshakeHeader msg.type msg.seq msg.sz ++ b.buf
        ready := true
        fragBucketList := []
        fragBucketListCount := 0 }

/-- The end of `DtlsMsgSet`. -/
def finishSet (msg : DtlsMsg) : DtlsMsg :=
  if msg.bytesReceived = msg.sz then dtlsMsgAssembleCompleteMessage msg else msg

/-- The middle of `DtlsMsgSet`: the fragment goes into the list of buckets.
Nothing if a copy would leave its buffer. -/
def storeFragment (heap : Heap) (msg : DtlsMsg) (fragOffset : ℕ) (data : List UInt8) : Option (DtlsMsg × SetResult) :=
  let fragOffsetEnd := fragOffset + data.length
  -- the buckets that end before the fragment
  let before := msg.fragBucketList.takeWhile fun b => b.stop < fragOffset
  match msg.fragBucketList.dropWhile fun b => b.stop < fragOffset with
  | [] =>
    if msg.fragBucketList = [] then
      if heap.ok then
        some (finishSet { msg with
          fragBucketList := [⟨fragOffset, data⟩]
          bytesReceived := data.length
          fragBucketListCount := msg.fragBucketListCount + 1 }, .ok)
      else some (msg, .memoryError)
    else if FRAG_POOL_SZ ≤ msg.fragBucketListCount then some (msg, .tooManyFragments)
    else if heap.ok then
      some (finishSet { msg with
        fragBucketList := before ++ [⟨fragOffset, data⟩]
        bytesReceived := msg.bytesReceived + data.length
        fragBucketListCount := msg.fragBucketListCount + 1 }, .ok)
    else some (finishSet msg, .ok)
  | cur :: tail =>
    if cur.offset ≤ fragOffset ∧ fragOffsetEnd ≤ cur.stop then
      -- we already have this fragment
      some (finishSet msg, .ok)
    else if before = [] ∧ fragOffsetEnd < cur.offset then
      -- the new first fragment
      if FRAG_POOL_SZ ≤ msg.fragBucketListCount then some (msg, .tooManyFragments)
      else if heap.ok then
        some (finishSet { msg with
          fragBucketList := ⟨fragOffset, data⟩ :: cur :: tail
          bytesReceived := msg.bytesReceived + data.length
          fragBucketListCount := msg.fragBucketListCount + 1 }, .ok)
      else some (finishSet msg, .ok)
    else if heap.ok then
      (mergeAt heap cur tail fragOffset data).map fun (merged, gone, new) =>
        (finishSet { msg with
          fragBucketList := before ++ merged
          bytesReceived := (msg.bytesReceived + new) % 2 ^ 32
          fragBucketListCount := msg.fragBucketListCount - gone }, .ok)
    else some (finishSet msg, .ok)

/-- A fragment as `DtlsMsgSet` is given it. -/
structure Frag where
  seq : ℕ
  epoch : BitVec 16
  type : UInt8
  fragOffset : ℕ
  data : List UInt8
  totalLen : ℕ
  encrypted : Bool

/-- `DtlsMsgSet`. -/
def dtlsMsgSet (heap : Heap) (msg : DtlsMsg) (f : Frag) : Option (DtlsMsg × SetResult) :=
  if msg.sz ≠ f.totalLen ∨ f.totalLen < f.fragOffset + f.data.length then some (msg, .badFuncArg)
  else if msg.ready then some (msg, .ok)
  else if msg.type ≠ NO_SHAKE then
    if msg.type ≠ f.type ∨ msg.epoch ≠ f.epoch ∨ msg.seq ≠ f.seq then some (msg, .sequenceError)
    else storeFragment heap { msg with encrypted := msg.encrypted && f.encrypted } f.fragOffset f.data
  else
    storeFragment heap { msg with type := f.type, epoch := f.epoch, seq := f.seq, encrypted := f.encrypted }
      f.fragOffset f.data

/-! ### What the copies do -/

theorem memcpy_eq {dst src : List UInt8} {i j count : ℕ} (hi : i + count ≤ dst.length) (hj : j + count ≤ src.length) :
    memcpy dst i src j count = some (dst.take i ++ excerpt src j count ++ dst.drop (i + count)) :=
  if_pos ⟨hi, hj⟩

/-- A copy over the middle of a buffer. -/
theorem memcpy_mid {a b c src : List UInt8} {j count : ℕ} (hb : b.length = count) (hj : j + count ≤ src.length) :
    memcpy (a ++ b ++ c) a.length src j count = some (a ++ excerpt src j count ++ c) := by
  have htake : (a ++ b ++ c).take a.length = a := by rw [List.append_assoc, List.take_left]
  have hdrop : (a ++ b ++ c).drop (a.length + count) = c := by rw [← hb, ← List.length_append, List.drop_left]
  rw [memcpy_eq (by simp only [List.length_append]; omega) hj, htake, hdrop]

/-- A copy to the end of a buffer. -/
theorem memcpy_to_end {a b src : List UInt8} {j count : ℕ} (hb : b.length = count) (hj : j + count ≤ src.length) :
    memcpy (a ++ b) a.length src j count = some (a ++ excerpt src j count) := by
  have h := memcpy_mid (a := a) (b := b) (c := []) hb hj
  rwa [List.append_nil, List.append_nil] at h

/-- A copy to the front of a buffer. -/
theorem memcpy_to_front {a b src : List UInt8} {j count : ℕ} (ha : a.length = count) (hj : j + count ≤ src.length) :
    memcpy (a ++ b) 0 src j count = some (excerpt src j count ++ b) :=
  memcpy_mid (a := []) ha hj

theorem realloc_eq (heap : Heap) {buf : List UInt8} {size : ℕ} (h : buf.length ≤ size) :
    realloc heap buf size = buf ++ (List.range (size - buf.length)).map heap.junk := by
  rw [realloc, List.take_of_length_le h]

@[simp] theorem length_realloc (heap : Heap) (buf : List UInt8) (size : ℕ) : (realloc heap buf size).length = size := by
  simp only [realloc, List.length_append, List.length_take, List.length_map, List.length_range]
  omega

theorem sub32_eq {a b : ℕ} (hle : b ≤ a) (ha : a < 2 ^ 32) : sub32 a b = a - b := by
  unfold sub32
  rw [Nat.mod_eq_of_lt (by omega : b < 2 ^ 32)]
  have : a + (2 ^ 32 - b) = (a - b) + 2 ^ 32 := by omega
  rw [this, Nat.add_mod_right, Nat.mod_eq_of_lt (by omega)]

section Combine

variable (heap : Heap) {cur next : FragBucket} {offset newOffset : ℕ} {data : List UInt8}

/-- A fragment that covers the bucket takes its place. -/
theorem combine_covers (ho : offset ≤ cur.offset) (he : cur.stop ≤ offset + data.length) :
    combineBucket heap cur none offset data = some ⟨offset, data⟩ := by
  unfold combineBucket fillMerged
  dsimp only
  rw [Nat.min_eq_right ho, Nat.max_eq_right he, if_pos rfl, if_pos le_rfl, Nat.add_sub_cancel_left, Nat.min_self]
  have hnil : realloc heap cur.buf data.length = realloc heap cur.buf data.length ++ [] := by simp
  rw [hnil, memcpy_to_front (length_realloc heap _ _) (by omega), excerpt_all, List.append_nil]
  rfl

/-- A fragment that goes on behind the bucket is appended to it. -/
theorem combine_after (ho : cur.offset < offset) (hm : offset ≤ cur.stop) (he : cur.stop ≤ offset + data.length) :
    combineBucket heap cur none offset data = some ⟨cur.offset, cur.buf ++ data.drop (cur.stop - offset)⟩ := by
  have hstop : cur.stop = cur.offset + cur.buf.length := rfl
  unfold combineBucket fillMerged
  dsimp only
  rw [Nat.min_eq_left ho.le, Nat.max_eq_right he, if_neg (by omega), if_pos rfl, Option.bind_some,
    realloc_eq heap (by omega), memcpy_to_end]
  · have hexcerpt : excerpt data (cur.stop - offset) (offset + data.length - cur.stop) =
        data.drop (cur.stop - offset) := by
      rw [excerpt, List.take_of_length_le]
      rw [List.length_drop]
      omega
    rw [hexcerpt]
    rfl
  · rw [List.length_map, List.length_range]
    omega
  · omega

/-- A fragment that starts before the bucket and ends before the bucket's end:
the bucket's bytes are taken from its front, `count` of them, whatever they are. -/
theorem combine_before (ho : offset < cur.offset) (he : offset + data.length < cur.stop) (hlt : cur.stop < 2 ^ 32) :
    combineBucket heap cur none offset data =
      some ⟨offset, data ++ (realloc heap cur.buf (cur.stop - offset)).take (cur.stop - (offset + data.length))⟩ := by
  have hstop : cur.stop = cur.offset + cur.buf.length := rfl
  have hcount : sub32 cur.buf.length (sub32 (offset + data.length) cur.offset) =
      cur.stop - (offset + data.length) := by
    rcases Nat.le_total cur.offset (offset + data.length) with h | h
    · rw [sub32_eq h (by omega), sub32_eq (by omega) (by omega)]
      omega
    · -- the difference is negative and wraps, and wraps back
      rcases Nat.eq_or_lt_of_le h with heq | hlt'
      · rw [heq, sub32_eq le_rfl (by omega), sub32_eq (by omega) (by omega)]
        omega
      · unfold sub32
        rw [Nat.mod_eq_of_lt (by omega : cur.offset < 2 ^ 32),
          Nat.mod_eq_of_lt (by omega : offset + data.length + (2 ^ 32 - cur.offset) < 2 ^ 32),
          Nat.mod_eq_of_lt (by omega : offset + data.length + (2 ^ 32 - cur.offset) < 2 ^ 32)]
        have : cur.buf.length + (2 ^ 32 - (offset + data.length + (2 ^ 32 - cur.offset))) =
            cur.stop - (offset + data.length) := by omega
        rw [this, Nat.mod_eq_of_lt (by omega)]
  unfold combineBucket fillMerged
  dsimp only
  rw [Nat.min_eq_right ho.le, Nat.max_eq_left he.le, if_pos rfl, if_neg (by omega), if_pos rfl, hcount]
  generalize hbuf : realloc heap cur.buf (cur.stop - offset) = buf
  have hlen : buf.length = cur.stop - offset := by rw [← hbuf, length_realloc]
  have hsplit : buf = buf.take data.length ++ buf.drop data.length := (List.take_append_drop _ _).symm
  have hfirst : memcpy buf data.length buf 0 (cur.stop - (offset + data.length)) =
      some (buf.take data.length ++ excerpt buf 0 (cur.stop - (offset + data.length))) := by
    rw [memcpy_eq (by omega) (by omega), List.drop_of_length_le (by omega), List.append_nil]
  rw [hfirst, Option.bind_some, memcpy_to_front (by rw [List.length_take]; omega) (by omega), excerpt_all]
  rfl

/-- The next bucket is put at the end of the buffer first. -/
theorem place_next (hn : newOffset ≤ next.offset) (chosen : List UInt8) (inPlace : Bool)
    (hc : inPlace = false → chosen = next.buf) :
    let buf := realloc heap chosen (next.stop - newOffset)
    memcpy buf (next.offset - newOffset) (if inPlace then next.buf else buf) 0 next.buf.length =
      some (buf.take (next.offset - newOffset) ++ next.buf) := by
  intro buf
  have hlen : buf.length = next.stop - newOffset := length_realloc heap _ _
  have hstop : next.stop = next.offset + next.buf.length := rfl
  have hsrc : excerpt (if inPlace then next.buf else buf) 0 next.buf.length = next.buf := by
    cases inPlace with
    | true => exact excerpt_all next.buf
    | false =>
      have hbuf : buf = realloc heap next.buf (next.stop - newOffset) := by rw [← hc rfl]
      rw [if_neg Bool.false_ne_true, hbuf, realloc_eq heap (by omega)]
      simp [excerpt]
  have hle : 0 + next.buf.length ≤ (if inPlace then next.buf else buf).length := by
    cases inPlace with
    | true => simp
    | false =>
      rw [if_neg Bool.false_ne_true, hlen]
      omega
  rw [memcpy_eq (by omega) hle, hsrc, List.drop_of_length_le (by omega), List.append_nil]

/-- A fragment that covers the bucket and reaches the next. -/
theorem combine_covers_next (ho : offset ≤ cur.offset) (hsep : cur.stop < next.offset)
    (hn : next.offset ≤ offset + data.length) :
    combineBucket heap cur (some next) offset data =
      some ⟨offset, data.take (next.offset - offset) ++ next.buf⟩ := by
  have hstop : cur.stop = cur.offset + cur.buf.length := rfl
  have hnstop : next.stop = next.offset + next.buf.length := rfl
  unfold combineBucket
  dsimp only
  rw [Nat.min_eq_right ho, place_next heap (by omega) _ _ (fun h => by rw [h]; rfl), Option.bind_some]
  generalize hbuf : realloc heap _ (next.stop - offset) = buf
  have hlen : buf.length = next.stop - offset := by rw [← hbuf, length_realloc]
  unfold fillMerged
  rw [if_pos rfl, if_pos hn, Nat.min_eq_right (by omega),
    memcpy_to_front (by rw [List.length_take]; omega) (by omega)]
  rfl

/-- A fragment that goes on behind the bucket and reaches the next. -/
theorem combine_after_next (ho : cur.offset < offset) (hm : offset ≤ cur.stop) (hsep : cur.stop < next.offset)
    (hn : next.offset ≤ offset + data.length) :
    combineBucket heap cur (some next) offset data =
      some ⟨cur.offset, cur.buf ++ excerpt data (cur.stop - offset) (next.offset - cur.stop) ++ next.buf⟩ := by
  have hstop : cur.stop = cur.offset + cur.buf.length := rfl
  have hnstop : next.stop = next.offset + next.buf.length := rfl
  unfold combineBucket
  dsimp only
  rw [Nat.min_eq_left ho.le, place_next heap (by omega) _ _ (fun h => by rw [h]; rfl), Option.bind_some]
  generalize hbuf : realloc heap _ (next.stop - cur.offset) = buf
  have hlen : buf.length = next.stop - cur.offset := by rw [← hbuf, length_realloc]
  -- what stands before the next bucket, once the bucket's own bytes are there
  have hcur : ∃ gap : List UInt8, gap.length = next.offset - cur.stop ∧
      (if decide (next.buf.length ≤ cur.buf.length) = true then
          some (buf.take (next.offset - cur.offset) ++ next.buf)
        else memcpy (buf.take (next.offset - cur.offset) ++ next.buf) 0
          (if decide (next.buf.length ≤ cur.buf.length) = true then buf.take (next.offset - cur.offset) ++ next.buf
            else cur.buf) 0 cur.buf.length) =
        some (cur.buf ++ gap ++ next.buf) := by
    have hgap : ((buf.take (next.offset - cur.offset)).drop cur.buf.length).length = next.offset - cur.stop := by
      rw [List.length_drop, List.length_take]
      omega
    refine ⟨_, hgap, ?_⟩
    by_cases hin : next.buf.length ≤ cur.buf.length
    · have hbuf' : buf = cur.buf ++ (List.range (next.stop - cur.offset - cur.buf.length)).map heap.junk := by
        rw [← hbuf, if_pos (decide_eq_true hin), realloc_eq heap (by omega)]
      rw [if_pos (decide_eq_true hin)]
      have hfront : (buf.take (next.offset - cur.offset)).take cur.buf.length = cur.buf := by
        rw [List.take_take, Nat.min_eq_left (by omega), hbuf', List.take_left]
      conv_lhs => rw [← List.take_append_drop cur.buf.length (buf.take (next.offset - cur.offset)), hfront]
    · have hno : ¬decide (next.buf.length ≤ cur.buf.length) = true := by rwa [decide_eq_true_eq]
      rw [if_neg hno, if_neg hno]
      conv_lhs => rw [← List.take_append_drop cur.buf.length (buf.take (next.offset - cur.offset)), List.append_assoc]
      rw [memcpy_to_front (by rw [List.length_take, List.length_take]; omega) (by omega), excerpt_all,
        List.append_assoc]
  obtain ⟨gap, hgap, hfill⟩ := hcur
  unfold fillMerged
  dsimp only
  rw [if_neg (by omega), hfill, Option.bind_some, memcpy_mid hgap (by omega)]
  rfl

end Combine

/-! ### The ranges of the buckets -/

/-- Buckets in the order of their offsets, with a byte missing between any two,
and none past the end of a message of `sz` bytes. -/
structure Shaped (sz : ℕ) (l : List FragBucket) : Prop where
  apart : l.Pairwise fun a b => a.stop < b.offset
  le : ∀ b ∈ l, b.stop ≤ sz

/-- Whether byte `i` of the message is in one of the buckets. -/
def Has (l : List FragBucket) (i : ℕ) : Prop := ∃ b ∈ l, b.offset ≤ i ∧ i < b.stop

theorem has_append (l l' : List FragBucket) (i : ℕ) : Has (l ++ l') i ↔ Has l i ∨ Has l' i := by
  simp only [Has, List.mem_append, or_and_right, exists_or]

theorem has_cons (b : FragBucket) (l : List FragBucket) (i : ℕ) :
    Has (b :: l) i ↔ (b.offset ≤ i ∧ i < b.stop) ∨ Has l i := by
  simp only [Has, List.mem_cons, or_and_right, exists_or, exists_eq_left]

/-- A bucket that holds the bytes `M` has there. -/
def Part (M : List UInt8) (b : FragBucket) : Prop := b.stop ≤ M.length ∧ b.buf = excerpt M b.offset b.buf.length

theorem part_excerpt {M : List UInt8} {o n : ℕ} (h : o + n ≤ M.length) : Part M ⟨o, excerpt M o n⟩ := by
  simp only [Part, FragBucket.stop, length_excerpt h]
  exact ⟨h, trivial⟩

/-- Buckets apart fill their span but for a byte between any two. -/
theorem sizes_le (lo hi : ℕ) : ∀ {l : List FragBucket}, l.Pairwise (fun a b => a.stop < b.offset) →
    (∀ b ∈ l, lo ≤ b.offset ∧ b.stop ≤ hi) → lo ≤ hi + 1 → lo + sizes l + l.length ≤ hi + 1
  | [], _, _, h => by simpa [sizes] using h
  | b :: l, hp, hb, _ => by
    obtain ⟨hhead, htail⟩ := List.pairwise_cons.mp hp
    obtain ⟨hlo, hhi⟩ := hb b List.mem_cons_self
    have ih := sizes_le (b.stop + 1) hi htail
      (fun c hc => ⟨hhead c hc, (hb c (List.mem_cons_of_mem _ hc)).2⟩) (by omega)
    have hstop : b.stop = b.offset + b.buf.length := rfl
    simp only [sizes, List.map_cons, List.sum_cons, List.length_cons] at ih ⊢
    omega

theorem sizes_append (l l' : List FragBucket) : sizes (l ++ l') = sizes l + sizes l' := by
  simp [sizes, List.map_append]

theorem sizes_cons (b : FragBucket) (l : List FragBucket) : sizes (b :: l) = b.buf.length + sizes l := by
  simp [sizes]

theorem sizes_le_sz {sz : ℕ} {l : List FragBucket} (hl : Shaped sz l) : sizes l + l.length ≤ sz + 1 := by
  have h := sizes_le 0 sz hl.apart (fun b hb => ⟨Nat.zero_le _, hl.le b hb⟩) (by omega)
  omega

/-- **Buckets that hold a whole message are one bucket.** -/
theorem eq_of_sizes_eq {sz : ℕ} {l : List FragBucket} (hl : Shaped sz l) (hne : l ≠ []) (h : sizes l = sz) :
    ∃ b, l = [b] ∧ b.offset = 0 ∧ b.buf.length = sz := by
  have hle := sizes_le_sz hl
  cases l with
  | nil => exact absurd rfl hne
  | cons b l =>
    cases l with
    | nil =>
      have hb : b.offset + b.buf.length ≤ sz := hl.le b List.mem_cons_self
      have hlen : b.buf.length = sz := by simpa [sizes] using h
      exact ⟨b, rfl, by omega, hlen⟩
    | cons c l =>
      simp only [List.length_cons] at hle
      omega

/-! ### What a fragment does to the buckets -/

/-- What the merge of a fragment into `cur` leaves: the bucket `m`, in place of
`cur` and of the buckets `absorbed` behind it. -/
structure Merge (cur : FragBucket) (absorbed rest : List FragBucket) (offset : ℕ) (data : List UInt8)
    (m : FragBucket) : Prop where
  offset_eq : m.offset = min cur.offset offset
  le_stop : ∀ b ∈ cur :: absorbed, b.stop ≤ m.stop
  end_le : offset + data.length ≤ m.stop
  stop_lt : ∀ b ∈ rest, m.stop < b.offset
  stop_cases : m.stop = max cur.stop (offset + data.length) ∨
    ∃ next ∈ absorbed, m.stop = next.stop ∧ next.offset ≤ offset + data.length
  part : ∀ M, (∀ b ∈ cur :: absorbed, Part M b) → Part M ⟨offset, data⟩ → cur.offset ≤ offset + data.length →
    ¬(offset < cur.offset ∧ cur.offset < offset + data.length ∧ offset + data.length < cur.stop) → Part M m

section Merging

variable {cur next : FragBucket} {offset : ℕ} {data M : List UInt8}

/-- The merge with the bucket alone. -/
theorem combine_none (heap : Heap) (hlt : cur.stop < 2 ^ 32) (hm : offset ≤ cur.stop)
    (hnew : ¬(cur.offset ≤ offset ∧ offset + data.length ≤ cur.stop)) {covered : List FragBucket}
    (hcov : ∀ b ∈ covered, b.stop ≤ offset + data.length) (rest : List FragBucket)
    (hrest : ∀ b ∈ rest, cur.stop < b.offset ∧ offset + data.length < b.offset) :
    ∃ m, combineBucket heap cur none offset data = some m ∧ Merge cur covered rest offset data m := by
  have hstop : cur.stop = cur.offset + cur.buf.length := rfl
  -- the range is the same in all three cases, only the bytes differ
  suffices h : ∃ m, combineBucket heap cur none offset data = some m ∧ m.offset = min cur.offset offset ∧
      m.stop = max cur.stop (offset + data.length) ∧
      (∀ M, Part M cur → Part M ⟨offset, data⟩ → cur.offset ≤ offset + data.length →
        ¬(offset < cur.offset ∧ cur.offset < offset + data.length ∧ offset + data.length < cur.stop) → Part M m) by
    obtain ⟨m, heq, hoff, hst, hpart⟩ := h
    refine ⟨m, heq, hoff, ?_, ?_, ?_, Or.inl hst, ?_⟩
    · intro b hb
      rcases List.mem_cons.mp hb with rfl | hb
      · omega
      · have := hcov b hb
        omega
    · omega
    · intro b hb
      have := hrest b hb
      omega
    · intro M hb
      exact hpart M (hb cur List.mem_cons_self)
  by_cases ho : offset ≤ cur.offset
  · by_cases he : cur.stop ≤ offset + data.length
    · refine ⟨_, combine_covers heap ho he, (Nat.min_eq_right ho).symm, (Nat.max_eq_right he).symm, ?_⟩
      intro M _ hd _ _
      exact hd
    · have hlt' : offset < cur.offset := by omega
      refine ⟨_, combine_before heap hlt' (by omega) hlt, (Nat.min_eq_right ho).symm, ?_, ?_⟩
      · simp only [FragBucket.stop, List.length_append, List.length_take, length_realloc]
        have : cur.offset + cur.buf.length = cur.stop := rfl
        omega
      · intro M hc hd hmeet hfront
        -- the fragment ends where the bucket starts
        have hend : offset + data.length = cur.offset := by omega
        have htake : (realloc heap cur.buf (cur.stop - offset)).take (cur.stop - (offset + data.length)) = cur.buf := by
          rw [realloc_eq heap (by omega), hend, show cur.stop - cur.offset = cur.buf.length by omega, List.take_left]
        have hbytes : data ++ cur.buf = excerpt M offset (data.length + cur.buf.length) := by
          rw [← excerpt_append, hend]
          exact congrArg₂ (· ++ ·) hd.2 hc.2
        rw [htake, hbytes]
        apply part_excerpt
        have := hc.1
        omega
  · refine ⟨_, combine_after heap (by omega) hm (by omega), (Nat.min_eq_left (Nat.le_of_not_le ho)).symm, ?_, ?_⟩
    · simp only [FragBucket.stop, List.length_append, List.length_drop]
      have : cur.offset + cur.buf.length = cur.stop := rfl
      omega
    · intro M hc hd _ _
      have hbytes : cur.buf ++ data.drop (cur.stop - offset) =
          excerpt M cur.offset (cur.buf.length + (data.length - (cur.stop - offset))) := by
        have hdrop : data.drop (cur.stop - offset) = excerpt M cur.stop (data.length - (cur.stop - offset)) := by
          conv_lhs => rw [show data = excerpt M offset data.length from hd.2]
          rw [drop_excerpt, show offset + (cur.stop - offset) = cur.stop by omega]
        rw [← excerpt_append, ← hstop]
        exact congrArg₂ (· ++ ·) hc.2 hdrop
      rw [hbytes]
      apply part_excerpt
      have hd' : offset + data.length ≤ M.length := hd.1
      have hc' := hc.1
      omega

/-- The merge that reaches the next bucket left. -/
theorem combine_some (heap : Heap) (hm : offset ≤ cur.stop) (hsep : cur.stop < next.offset)
    (hn : next.offset ≤ offset + data.length) (hne : offset + data.length < next.stop) {covered rest : List FragBucket}
    (hcov : ∀ b ∈ covered, b.stop ≤ offset + data.length) (hrest : ∀ b ∈ rest, next.stop < b.offset) :
    ∃ m, combineBucket heap cur (some next) offset data = some m ∧
      Merge cur (covered ++ [next]) rest offset data m := by
  have hstop : cur.stop = cur.offset + cur.buf.length := rfl
  have hnstop : next.stop = next.offset + next.buf.length := rfl
  suffices h : ∃ m, combineBucket heap cur (some next) offset data = some m ∧ m.offset = min cur.offset offset ∧
      m.stop = next.stop ∧ (∀ M, Part M cur → Part M next → Part M ⟨offset, data⟩ → Part M m) by
    obtain ⟨m, heq, hoff, hst, hpart⟩ := h
    refine ⟨m, heq, hoff, ?_, ?_, ?_, Or.inr ⟨next, by simp, hst, hn⟩, ?_⟩
    · intro b hb
      rcases List.mem_cons.mp hb with rfl | hb
      · omega
      · rcases List.mem_append.mp hb with hb | hb
        · have := hcov b hb
          omega
        · rw [List.mem_singleton.mp hb, hst]
    · omega
    · intro b hb
      rw [hst]
      exact hrest b hb
    · intro M hb hd _ _
      exact hpart M (hb cur List.mem_cons_self) (hb next (by simp)) hd
  by_cases ho : offset ≤ cur.offset
  · refine ⟨_, combine_covers_next heap ho hsep hn, (Nat.min_eq_right ho).symm, ?_, ?_⟩
    · simp only [FragBucket.stop, List.length_append, List.length_take]
      omega
    · intro M _ hx hd
      have hbytes : data.take (next.offset - offset) ++ next.buf =
          excerpt M offset (next.offset - offset + next.buf.length) := by
        have htake : data.take (next.offset - offset) = excerpt M offset (next.offset - offset) := by
          conv_lhs => rw [show data = excerpt M offset data.length from hd.2]
          exact take_excerpt M (by omega)
        rw [← excerpt_append, show offset + (next.offset - offset) = next.offset by omega]
        exact congrArg₂ (· ++ ·) htake hx.2
      rw [hbytes]
      apply part_excerpt
      have := hx.1
      omega
  · refine ⟨_, combine_after_next heap (by omega) hm hsep hn, (Nat.min_eq_left (Nat.le_of_not_le ho)).symm, ?_, ?_⟩
    · simp only [FragBucket.stop, List.length_append]
      rw [length_excerpt (by omega)]
      omega
    · intro M hc hx hd
      have hmid : excerpt data (cur.stop - offset) (next.offset - cur.stop) =
          excerpt M cur.stop (next.offset - cur.stop) := by
        have hdata : data = excerpt M offset data.length := hd.2
        rw [excerpt, hdata, drop_excerpt, take_excerpt _ (by omega),
          show offset + (cur.stop - offset) = cur.stop by omega]
      have hbytes : cur.buf ++ excerpt data (cur.stop - offset) (next.offset - cur.stop) ++ next.buf =
          excerpt M cur.offset (cur.buf.length + (next.offset - cur.stop) + next.buf.length) := by
        rw [hmid, ← excerpt_append, ← excerpt_append, ← hstop,
          show cur.offset + (cur.buf.length + (next.offset - cur.stop)) = next.offset by omega]
        exact congrArg₂ (· ++ ·) (congrArg (· ++ _) hc.2) hx.2
      rw [hbytes]
      apply part_excerpt
      have := hx.1
      omega

end Merging

theorem pairwise_suffix {before l : List FragBucket} (h : (before ++ l).Pairwise fun a b => a.stop < b.offset) :
    l.Pairwise fun a b => a.stop < b.offset :=
  (List.pairwise_append.mp h).2.1

/-- **The merge takes a run of buckets and leaves one in their place.** -/
theorem mergeAt_eq (heap : Heap) {sz offset : ℕ} {cur : FragBucket} {tail : List FragBucket} {data : List UInt8}
    (hl : Shaped sz (cur :: tail)) (hsz : sz < 2 ^ 32) (hm : offset ≤ cur.stop)
    (hnew : ¬(cur.offset ≤ offset ∧ offset + data.length ≤ cur.stop)) :
    ∃ m absorbed rest, tail = absorbed ++ rest ∧ Merge cur absorbed rest offset data m ∧
      mergeAt heap cur tail offset data =
        some (m :: rest, absorbed.length, sub32 m.buf.length (sizes (cur :: absorbed))) := by
  obtain ⟨hhead, htail⟩ := List.pairwise_cons.mp hl.apart
  have hcur : cur.stop < 2 ^ 32 := lt_of_le_of_lt (hl.le cur List.mem_cons_self) hsz
  set covered := tail.takeWhile fun b => b.stop ≤ offset + data.length with hcovered
  have hcov : ∀ b ∈ covered, b.stop ≤ offset + data.length := by
    intro b hb
    simpa using List.mem_takeWhile_imp hb
  have hsplit : tail = covered ++ tail.dropWhile fun b => b.stop ≤ offset + data.length :=
    (List.takeWhile_append_dropWhile).symm
  unfold mergeAt
  dsimp only
  rw [← hcovered]
  cases hdrop : tail.dropWhile fun b => b.stop ≤ offset + data.length with
  | nil =>
    rw [hdrop] at hsplit
    obtain ⟨m, heq, hmerge⟩ := combine_none heap hcur hm hnew hcov [] (by simp)
    refine ⟨m, covered, [], hsplit, hmerge, ?_⟩
    rw [heq]
    rfl
  | cons next rest =>
    rw [hdrop] at hsplit
    have hend : offset + data.length < next.stop := by
      have h := List.head_dropWhile_not (fun b : FragBucket => decide (b.stop ≤ offset + data.length))
        (l := tail) (by rw [hdrop]; simp)
      simp only [hdrop, List.head_cons, decide_eq_false_iff_not] at h
      omega
    have hsep : ∀ b ∈ next :: rest, cur.stop < b.offset := fun b hb =>
      hhead b (hsplit ▸ List.mem_append_right _ hb)
    have hnext : ∀ b ∈ rest, next.stop < b.offset :=
      (List.pairwise_cons.mp (pairwise_suffix (hsplit ▸ htail))).1
    dsimp only
    by_cases hn : next.offset ≤ offset + data.length
    · obtain ⟨m, heq, hmerge⟩ :=
        combine_some heap hm (hsep next List.mem_cons_self) hn hend hcov hnext
      refine ⟨m, covered ++ [next], rest, by rw [hsplit]; simp, hmerge, ?_⟩
      rw [if_pos hn, heq, Option.map_some, List.length_append, sizes_cons, sizes_cons, sizes_append, Nat.add_assoc]
      rfl
    · obtain ⟨m, heq, hmerge⟩ := combine_none heap hcur hm hnew hcov (next :: rest) (fun b hb => by
        refine ⟨hsep b hb, ?_⟩
        rcases List.mem_cons.mp hb with rfl | hb
        · omega
        · have := hnext b hb
          have : next.stop = next.offset + next.buf.length := rfl
          omega)
      refine ⟨m, covered, next :: rest, hsplit, hmerge, ?_⟩
      rw [if_neg hn, heq]
      rfl

/-- What a fragment that is not dropped does to the buckets: it is there already,
it becomes the first or the last of them, or it is merged. -/
inductive Stored (l : List FragBucket) (offset : ℕ) (data : List UInt8) : List FragBucket → Prop
  | had {b : FragBucket} (hb : b ∈ l) (ho : b.offset ≤ offset) (he : offset + data.length ≤ b.stop) :
    Stored l offset data l
  | added {before after : List FragBucket} (hl : l = before ++ after) (hb : ∀ b ∈ before, b.stop < offset)
    (ha : ∀ b ∈ after, offset + data.length < b.offset) (hends : before = [] ∨ after = []) :
    Stored l offset data (before ++ ⟨offset, data⟩ :: after)
  | merged {before absorbed rest : List FragBucket} {cur m : FragBucket}
    (hl : l = before ++ cur :: (absorbed ++ rest)) (hb : ∀ b ∈ before, b.stop < offset) (hm : offset ≤ cur.stop)
    (hmerge : Merge cur absorbed rest offset data m) (hgap : offset + data.length < cur.offset → before ≠ []) :
    Stored l offset data (before ++ m :: rest)

/-- The fragment lies between two buckets and touches none. -/
def InGap (l : List FragBucket) (offset stop : ℕ) : Prop :=
  (∃ a ∈ l, a.stop < offset) ∧ (∃ b ∈ l, stop < b.offset) ∧ ∀ b ∈ l, b.stop < offset ∨ stop < b.offset

/-- The first bucket the fragment reaches starts inside it and ends behind it. -/
def CutsFront (l : List FragBucket) (offset stop : ℕ) : Prop :=
  ∃ b ∈ l, (offset < b.offset ∧ b.offset < stop ∧ stop < b.stop) ∧ ∀ a ∈ l, a.offset < b.offset → a.stop < offset

/-- A fragment the merge goes wrong for. -/
def Stray (l : List FragBucket) (offset stop : ℕ) : Prop := InGap l offset stop ∨ CutsFront l offset stop

instance (l : List FragBucket) (offset stop : ℕ) : Decidable (InGap l offset stop) :=
  inferInstanceAs (Decidable (_ ∧ _))

instance (l : List FragBucket) (offset stop : ℕ) : Decidable (CutsFront l offset stop) :=
  inferInstanceAs (Decidable (∃ _ ∈ _, _))

instance (l : List FragBucket) (offset stop : ℕ) : Decidable (Stray l offset stop) :=
  inferInstanceAs (Decidable (_ ∨ _))

namespace Stored

variable {sz offset : ℕ} {l l' : List FragBucket} {data M : List UInt8}

/-- A bucket is an old one, the fragment, or the merged one. -/
theorem mem_cases (h : Stored l offset data l') {b : FragBucket} (hb : b ∈ l') :
    b ∈ l ∨ b = ⟨offset, data⟩ ∨
      ∃ cur absorbed rest, (∀ a ∈ cur :: absorbed, a ∈ l) ∧ Merge cur absorbed rest offset data b := by
  cases h with
  | had => exact Or.inl hb
  | @added before after hl' _ _ _ =>
    subst hl'
    rcases List.mem_append.mp hb with hm | hm
    · exact Or.inl (List.mem_append_left _ hm)
    · rcases List.mem_cons.mp hm with rfl | hm
      · exact Or.inr (Or.inl rfl)
      · exact Or.inl (List.mem_append_right _ hm)
  | @merged before absorbed rest cur m hl' _ _ hmerge _ =>
    subst hl'
    rcases List.mem_append.mp hb with hm | hm
    · exact Or.inl (List.mem_append_left _ hm)
    · rcases List.mem_cons.mp hm with rfl | hm
      · refine Or.inr (Or.inr ⟨cur, absorbed, rest, fun a ha => List.mem_append_right _ ?_, hmerge⟩)
        rw [← List.cons_append]
        exact List.mem_append_left _ ha
      · exact Or.inl (by simp [hm])

/-- The buckets stay apart, whatever the fragment is. -/
theorem shaped (h : Stored l offset data l') (hl : Shaped sz l) (hsz : offset + data.length ≤ sz) : Shaped sz l' := by
  refine ⟨?_, ?_⟩
  · cases h with
    | had => exact hl.apart
    | @added before after hl' hb ha _ =>
      subst hl'
      obtain ⟨h₁, h₂, h₃⟩ := List.pairwise_append.mp hl.apart
      refine List.pairwise_append.mpr ⟨h₁, List.pairwise_cons.mpr ⟨ha, h₂⟩, ?_⟩
      intro a hm b hm'
      rcases List.mem_cons.mp hm' with rfl | hm'
      · exact hb a hm
      · exact h₃ a hm b hm'
    | @merged before absorbed rest cur m hl' hb hm hmerge hgap =>
      subst hl'
      obtain ⟨h₁, h₂, h₃⟩ := List.pairwise_append.mp hl.apart
      have hrest : rest.Pairwise fun a b => a.stop < b.offset := pairwise_suffix (List.pairwise_cons.mp h₂).2
      refine List.pairwise_append.mpr ⟨h₁, List.pairwise_cons.mpr ⟨hmerge.stop_lt, hrest⟩, ?_⟩
      intro a ha b hm'
      rcases List.mem_cons.mp hm' with rfl | hm'
      · have hcur := h₃ a ha cur List.mem_cons_self
        have := hb a ha
        rw [hmerge.offset_eq]
        omega
      · exact h₃ a ha b (List.mem_cons_of_mem _ (List.mem_append_right _ hm'))
  · intro b hb
    rcases h.mem_cases hb with hb | rfl | ⟨cur, absorbed, rest, hold, hmerge⟩
    · exact hl.le b hb
    · exact hsz
    · have hcur := hl.le cur (hold cur List.mem_cons_self)
      rcases hmerge.stop_cases with h | ⟨next, hnext, h, _⟩
      · omega
      · rw [h]
        exact hl.le next (hold next (List.mem_cons_of_mem _ hnext))

/-- In a merge that is not in a gap the fragment meets the bucket. -/
theorem not_gap {before absorbed rest : List FragBucket} {cur : FragBucket}
    (hl : Shaped sz (before ++ cur :: (absorbed ++ rest))) (hb : ∀ b ∈ before, b.stop < offset)
    (hgap : offset + data.length < cur.offset → before ≠ [])
    (h : ¬InGap (before ++ cur :: (absorbed ++ rest)) offset (offset + data.length)) :
    cur.offset ≤ offset + data.length := by
  by_contra hlt
  obtain ⟨a, ha⟩ := List.exists_mem_of_ne_nil _ (hgap (by omega))
  refine h ⟨⟨a, List.mem_append_left _ ha, hb a ha⟩, ⟨cur, by simp, by omega⟩, ?_⟩
  intro b hm
  rcases List.mem_append.mp hm with hm | hm
  · exact Or.inl (hb b hm)
  · right
    rcases List.mem_cons.mp hm with rfl | hm
    · omega
    · have hcur := (List.pairwise_cons.mp (pairwise_suffix hl.apart)).1 b hm
      have : cur.stop = cur.offset + cur.buf.length := rfl
      omega

/-- A fragment that is not stray leaves parts of the message. -/
theorem part (h : Stored l offset data l') (hl : Shaped sz l) (hp : ∀ b ∈ l, Part M b) (hd : Part M ⟨offset, data⟩)
    (hs : ¬Stray l offset (offset + data.length)) : ∀ b ∈ l', Part M b := by
  cases h with
  | had => exact hp
  | @added before after hl' hb ha _ =>
    subst hl'
    intro b hm
    rcases List.mem_append.mp hm with hm | hm
    · exact hp b (List.mem_append_left _ hm)
    · rcases List.mem_cons.mp hm with rfl | hm
      · exact hd
      · exact hp b (List.mem_append_right _ hm)
  | @merged before absorbed rest cur m hl' hb hm hmerge hgap =>
    subst hl'
    have hmeet := not_gap hl hb hgap fun h => hs (Or.inl h)
    have hfront : ¬(offset < cur.offset ∧ cur.offset < offset + data.length ∧ offset + data.length < cur.stop) := by
      intro hf
      refine hs (Or.inr ⟨cur, by simp, hf, ?_⟩)
      intro a ha hlt
      rcases List.mem_append.mp ha with ha | ha
      · exact hb a ha
      · rcases List.mem_cons.mp ha with rfl | ha
        · omega
        · have hcur := (List.pairwise_cons.mp (pairwise_suffix hl.apart)).1 a ha
          have : cur.stop = cur.offset + cur.buf.length := rfl
          omega
    intro b hm'
    rcases List.mem_append.mp hm' with hm' | hm'
    · exact hp b (List.mem_append_left _ hm')
    · rcases List.mem_cons.mp hm' with rfl | hm'
      · refine hmerge.part M (fun c hc => hp c ?_) hd hmeet hfront
        rcases List.mem_cons.mp hc with rfl | hc
        · simp
        · simp [hc]
      · exact hp b (by simp [hm'])

/-- A fragment that is not in a gap adds its own bytes and no others. -/
theorem has_iff (h : Stored l offset data l') (hl : Shaped sz l) (hs : ¬InGap l offset (offset + data.length)) (i : ℕ) :
    Has l' i ↔ Has l i ∨ (offset ≤ i ∧ i < offset + data.length) := by
  cases h with
  | @had b hb ho he =>
    constructor
    · exact Or.inl
    · rintro (h | h)
      · exact h
      · exact ⟨b, hb, by omega, by omega⟩
  | @added before after hl' hb ha _ =>
    subst hl'
    rw [has_append, has_append, has_cons, or_assoc]
    exact or_congr_right or_comm
  | @merged before absorbed rest cur m hl' hb hm hmerge hgap =>
    subst hl'
    have hmeet := not_gap hl hb hgap hs
    have hoff := hmerge.offset_eq
    have hcs : cur.stop = cur.offset + cur.buf.length := rfl
    have hsep := (List.pairwise_cons.mp (pairwise_suffix hl.apart)).1
    have hmid : (m.offset ≤ i ∧ i < m.stop) ↔ Has (cur :: absorbed) i ∨ (offset ≤ i ∧ i < offset + data.length) := by
      constructor
      · rintro ⟨h₁, h₂⟩
        by_cases hcur : cur.offset ≤ i ∧ i < cur.stop
        · exact Or.inl ⟨cur, List.mem_cons_self, hcur⟩
        · by_cases hfrag : offset ≤ i ∧ i < offset + data.length
          · exact Or.inr hfrag
          · rcases hmerge.stop_cases with h | ⟨next, hnext, h, hle⟩
            · omega
            · exact Or.inl ⟨next, List.mem_cons_of_mem _ hnext, by omega, by omega⟩
      · rintro (⟨b, hb', h₁, h₂⟩ | ⟨h₁, h₂⟩)
        · have hle := hmerge.le_stop b hb'
          rcases List.mem_cons.mp hb' with rfl | hb'
          · omega
          · have := hsep b (List.mem_append_left _ hb')
            omega
        · have := hmerge.end_le
          omega
    have hmove : ∀ p q r t : Prop, (p ∨ (q ∨ t) ∨ r) ↔ ((p ∨ q ∨ r) ∨ t) := by tauto
    rw [has_append, has_cons, hmid, hmove, ← List.cons_append, has_append, has_append]

/-- Every end of a bucket was an end of one before, or is one of the fragment. -/
theorem ends {P : ℕ → Prop} (h : Stored l offset data l') (hl : ∀ b ∈ l, P b.offset ∧ P b.stop) (ho : P offset)
    (he : P (offset + data.length)) : ∀ b ∈ l', P b.offset ∧ P b.stop := by
  intro b hb
  rcases h.mem_cases hb with hb | rfl | ⟨cur, absorbed, rest, hold, hmerge⟩
  · exact hl b hb
  · exact ⟨ho, he⟩
  · obtain ⟨hco, hcs⟩ := hl cur (hold cur List.mem_cons_self)
    refine ⟨?_, ?_⟩
    · rw [hmerge.offset_eq]
      rcases Nat.le_total cur.offset offset with h | h
      · rwa [Nat.min_eq_left h]
      · rwa [Nat.min_eq_right h]
    · rcases hmerge.stop_cases with h | ⟨next, hnext, h, _⟩
      · rw [h]
        rcases Nat.le_total cur.stop (offset + data.length) with h' | h'
        · rwa [Nat.max_eq_right h']
        · rwa [Nat.max_eq_left h']
      · rw [h]
        exact (hl next (hold next (List.mem_cons_of_mem _ hnext))).2

/-- No bucket becomes empty. -/
theorem nonempty (h : Stored l offset data l') (hl : ∀ b ∈ l, b.buf ≠ []) (hd : data ≠ []) : ∀ b ∈ l', b.buf ≠ [] := by
  intro b hb
  rcases h.mem_cases hb with hb | rfl | ⟨cur, absorbed, rest, hold, hmerge⟩
  · exact hl b hb
  · exact hd
  · have hlen := List.length_pos_iff.mpr hd
    have hoff := hmerge.offset_eq
    have hend := hmerge.end_le
    have hstop : b.stop = b.offset + b.buf.length := rfl
    apply List.ne_nil_of_length_pos
    omega

end Stored

/-! ### The message while it is incomplete -/

/-- What holds of a message until it is complete. -/
structure Open (msg : DtlsMsg) : Prop where
  shaped : Shaped msg.sz msg.fragBucketList
  count : msg.fragBucketListCount = msg.fragBucketList.length
  received : msg.fragBucketList ≠ [] → msg.bytesReceived = sizes msg.fragBucketList
  short : msg.fragBucketList ≠ [] → sizes msg.fragBucketList ≠ msg.sz

/-- A message with other buckets. -/
def DtlsMsg.setBuckets (msg : DtlsMsg) (l : List FragBucket) : DtlsMsg :=
  { msg with fragBucketList := l, bytesReceived := sizes l, fragBucketListCount := l.length }

/-- The message once it is complete. -/
def DtlsMsg.assembled (msg : DtlsMsg) (buf : List UInt8) : DtlsMsg :=
  { msg with
    raw := handshakeHeader msg.type msg.seq msg.sz ++ buf
    bytesReceived := msg.sz
    ready := true
    fragBucketList := []
    fragBucketListCount := 0 }

/-- The end of `DtlsMsgSet`: the message is complete, or its buckets do not fill
it. -/
theorem finishSet_cases (msg : DtlsMsg) {l : List FragBucket} (hl : Shaped msg.sz l) (hne : l ≠ []) :
    (sizes l ≠ msg.sz ∧ finishSet (msg.setBuckets l) = msg.setBuckets l) ∨
      ∃ b, l = [b] ∧ b.offset = 0 ∧ b.buf.length = msg.sz ∧ finishSet (msg.setBuckets l) = msg.assembled b.buf := by
  by_cases h : sizes l = msg.sz
  · obtain ⟨b, rfl, ho, hb⟩ := eq_of_sizes_eq hl hne h
    refine Or.inr ⟨b, rfl, ho, hb, ?_⟩
    simp [finishSet, DtlsMsg.setBuckets, DtlsMsg.assembled, dtlsMsgAssembleCompleteMessage, sizes, ho, hb]
  · exact Or.inl ⟨h, if_neg h⟩

theorem finishSet_self {msg : DtlsMsg} (h : Open msg) (hne : msg.fragBucketList ≠ []) : finishSet msg = msg := by
  apply if_neg
  rw [h.received hne]
  exact h.short hne

/-- The bytes a merge reports as new are those the buckets gained. -/
theorem merge_received {sz offset : ℕ} {data : List UInt8} {before absorbed rest : List FragBucket}
    {cur m : FragBucket} (hl : Shaped sz (before ++ cur :: (absorbed ++ rest))) (hsz : sz < 2 ^ 32)
    (hl' : Shaped sz (before ++ m :: rest)) (hmerge : Merge cur absorbed rest offset data m) :
    (sizes (before ++ cur :: (absorbed ++ rest)) + sub32 m.buf.length (sizes (cur :: absorbed))) % 2 ^ 32 =
      sizes (before ++ m :: rest) := by
  have hm : m.stop = m.offset + m.buf.length := rfl
  have hoff := hmerge.offset_eq
  have hsep := (List.pairwise_cons.mp (pairwise_suffix hl.apart)).1
  have hcs : cur.stop = cur.offset + cur.buf.length := rfl
  have hsub : (cur :: absorbed).Pairwise fun a b => a.stop < b.offset := by
    have h := pairwise_suffix hl.apart
    rw [← List.cons_append] at h
    exact (List.pairwise_append.mp h).1
  have hlo := sizes_le m.offset m.stop hsub (fun b hb => by
    refine ⟨?_, hmerge.le_stop b hb⟩
    rcases List.mem_cons.mp hb with rfl | hb
    · omega
    · have := hsep b (List.mem_append_left _ hb)
      omega) (by omega)
  have hall := sizes_le_sz hl'
  simp only [sizes_append, sizes_cons, List.length_append, List.length_cons] at hlo hall ⊢
  rw [sub32_eq (by omega) (by omega), Nat.mod_eq_of_lt (by omega)]
  omega

/-- **What storing a fragment does.** No copy leaves its buffer, and the fragment
is stored unless there is no memory or no bucket left for it. -/
theorem storeFragment_cases (heap : Heap) {msg : DtlsMsg} (h : Open msg) (hsz : msg.sz < 2 ^ 32) {offset : ℕ}
    {data : List UInt8} (hend : offset + data.length ≤ msg.sz) :
    (∃ r, storeFragment heap msg offset data = some (msg, r) ∧
        (heap.ok = false ∨ FRAG_POOL_SZ ≤ msg.fragBucketListCount)) ∨
      ∃ l, Stored msg.fragBucketList offset data l ∧ (l ≠ [] ∧ l.length ≤ max FRAG_POOL_SZ msg.fragBucketListCount) ∧
        storeFragment heap msg offset data = some (finishSet (msg.setBuckets l), .ok) := by
  have hcount := h.count
  have hsplit : msg.fragBucketList = (msg.fragBucketList.takeWhile fun b => b.stop < offset) ++
      msg.fragBucketList.dropWhile fun b => b.stop < offset := List.takeWhile_append_dropWhile.symm
  have hbefore : ∀ b ∈ msg.fragBucketList.takeWhile fun b => b.stop < offset, b.stop < offset := by
    intro b hb
    simpa using List.mem_takeWhile_imp hb
  unfold storeFragment
  dsimp only
  generalize msg.fragBucketList.takeWhile (fun b => b.stop < offset) = before at hsplit hbefore ⊢
  cases hdrop : msg.fragBucketList.dropWhile fun b => b.stop < offset with
  | nil =>
    rw [hdrop, List.append_nil] at hsplit
    have hstored : Stored msg.fragBucketList offset data (before ++ [⟨offset, data⟩]) :=
      .added (by rw [hsplit, List.append_nil]) hbefore (by simp) (Or.inr rfl)
    dsimp only
    by_cases hnil : msg.fragBucketList = []
    · rw [if_pos hnil]
      cases hok : heap.ok with
      | false => exact Or.inl ⟨_, rfl, Or.inl rfl⟩
      | true =>
        have hb : before = [] := hsplit ▸ hnil
        refine Or.inr ⟨_, hstored, ⟨by simp, by simp [hb, FRAG_POOL_SZ]⟩, ?_⟩
        simp [DtlsMsg.setBuckets, hb, h.count, hnil, sizes]
    · rw [if_neg hnil]
      by_cases hpool : FRAG_POOL_SZ ≤ msg.fragBucketListCount
      · rw [if_pos hpool]
        exact Or.inl ⟨_, rfl, Or.inr hpool⟩
      · rw [if_neg hpool]
        cases hok : heap.ok with
        | false => exact Or.inl ⟨.ok, by simp [finishSet_self h hnil], Or.inl rfl⟩
        | true =>
          refine Or.inr ⟨_, hstored, ⟨by simp, ?_⟩, ?_⟩
          · rw [← hsplit, List.length_append, List.length_singleton]
            omega
          rw [if_pos rfl, h.received hnil, h.count, hsplit, DtlsMsg.setBuckets, sizes_append, List.length_append]
          rfl
  | cons cur tail =>
    rw [hdrop] at hsplit
    have hnil : msg.fragBucketList ≠ [] := by
      rw [hsplit]
      simp
    have hm : offset ≤ cur.stop := by
      have h' := List.head_dropWhile_not (fun b : FragBucket => decide (b.stop < offset)) (l := msg.fragBucketList)
        (by rw [hdrop]; simp)
      simp only [hdrop, List.head_cons, decide_eq_false_iff_not] at h'
      omega
    dsimp only
    by_cases hhad : cur.offset ≤ offset ∧ offset + data.length ≤ cur.stop
    · rw [if_pos hhad]
      refine Or.inr ⟨_, .had (by rw [hsplit]; simp) hhad.1 hhad.2, ⟨hnil, by omega⟩, ?_⟩
      rw [DtlsMsg.setBuckets, ← h.received hnil, ← h.count]
    · rw [if_neg hhad]
      by_cases hfirst : before = [] ∧ offset + data.length < cur.offset
      · rw [if_pos hfirst]
        have hcs : cur.stop = cur.offset + cur.buf.length := rfl
        obtain ⟨rfl, hlt⟩ := hfirst
        have hsep := (List.pairwise_cons.mp (pairwise_suffix (hsplit ▸ h.shaped.apart))).1
        have hstored : Stored msg.fragBucketList offset data (⟨offset, data⟩ :: cur :: tail) :=
          .added (by rw [hsplit, List.nil_append]) (by simp) (fun b hb => by
            rcases List.mem_cons.mp hb with rfl | hb
            · exact hlt
            · have := hsep b hb
              omega) (Or.inl rfl)
        by_cases hpool : FRAG_POOL_SZ ≤ msg.fragBucketListCount
        · rw [if_pos hpool]
          exact Or.inl ⟨_, rfl, Or.inr hpool⟩
        · rw [if_neg hpool]
          cases hok : heap.ok with
          | false => exact Or.inl ⟨.ok, by simp [finishSet_self h hnil], Or.inl rfl⟩
          | true =>
            refine Or.inr ⟨_, hstored, ⟨by simp, ?_⟩, ?_⟩
            · rw [hsplit, List.nil_append] at hcount
              rw [List.length_cons]
              omega
            rw [if_pos rfl, h.received hnil, h.count, hsplit, DtlsMsg.setBuckets, sizes_cons, Nat.add_comm]
            rfl
      · rw [if_neg hfirst]
        cases hok : heap.ok with
        | false => exact Or.inl ⟨.ok, by simp [finishSet_self h hnil], Or.inl rfl⟩
        | true =>
          have hshaped : Shaped msg.sz (before ++ cur :: tail) := hsplit ▸ h.shaped
          obtain ⟨m, absorbed, rest, rfl, hmerge, heq⟩ := mergeAt_eq heap
            ⟨pairwise_suffix hshaped.apart, fun b hb => hshaped.le b (List.mem_append_right _ hb)⟩ hsz hm hhad
          have hstored : Stored msg.fragBucketList offset data (before ++ m :: rest) :=
            .merged hsplit hbefore hm hmerge (fun hlt hb => hfirst ⟨hb, hlt⟩)
          refine Or.inr ⟨_, hstored, ⟨by simp, ?_⟩, ?_⟩
          · rw [hcount, hsplit]
            simp only [List.length_append, List.length_cons]
            omega
          rw [if_pos rfl, heq, Option.map_some]
          dsimp only
          rw [h.received hnil, h.count, DtlsMsg.setBuckets, hsplit,
            merge_received hshaped hsz (hstored.shaped h.shaped hend) hmerge]
          congr 4
          simp only [List.length_append, List.length_cons]
          omega

end Reassembly
end PqcDtls
