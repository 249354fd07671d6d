/-
# The RAM image of the simulator (`gen_raminit.py`, LiteX's `get_mem_data`)

The simulated memory is loaded from a text of words, one a line. LiteX writes it
while it builds the gateware: `get_mem_data` cuts the firmware into words, with
the main memory's offset, and `_memory_generate_verilog` prints them.
`gen_raminit.py` writes it again for a new firmware: `get_mem_data` without an
offset, and a loop of its own that prints. The host's files, its memory and
`json.load` are parameters.

`ramInit_refreshed`: for every firmware of up to `2 ^ 53` bytes whose words the
host has memory for, and every endianness and offset, both writers give the same
text, of one line of eight digits for each four bytes, from which the firmware
can be read back. From `2 ^ 53 + 1` bytes on the division
`data_size/bytes_per_data`, which is one of doubles, may round a word away
(`not_fits_succ`); `ramInit_iff` says for every length when the image is right.
-/
import PqcDtls.Lib.Python

namespace PqcDtls
namespace RamInit

open Lib Lib.Python

inductive Endianness where
  | little
  | big
  deriving DecidableEq

def Endianness.name : Endianness → Text
  | .little => "little".toList
  | .big => "big".toList

def Endianness.ofName (s : Text) : Option Endianness :=
  if s = "big".toList then some .big else if s = "little".toList then some .little else none

/-- What the scripts see of the host. -/
structure Host where
  /-- The files, by name. -/
  files : Text → Option (List UInt8)
  /-- `json.load`, of a file of regions. -/
  jsonLoad : List UInt8 → Except Error (List (Text × Text))
  /-- The pointers for which there is memory, in one list. -/
  listRoom : ℕ

/-! ### `get_mem_regions` -/

/-- `filename_or_regions`: a region is a file name and the address of its first byte. -/
inductive Source where
  | file (filename : Text)
  | regions (regions : List (Text × Text))

def unableToFind (filename : Text) : Error :=
  .osError ("Unable to find ".toList ++ filename ++ " memory content file.".toList)

/-- `get_mem_regions` -/
def getMemRegions (host : Host) (source : Source) (offset : ℕ) : Except Error (List (Text × Text)) :=
  match source with
  | .regions regions => .ok regions
  | .file filename =>
    match host.files filename with
    | none => .error (unableToFind filename)
    | some bytes =>
      if extension filename = ".json".toList then
        (host.jsonLoad bytes).map fun regions =>
          regions.foldl (fun dict r => setKey dict (join (dirname filename) r.1) r.2) []
      else .ok [(filename, hexText 8 offset)]

/-! ### `get_mem_data` -/

/-- `data_size` after one more region. -/
def maxSize (host : Host) (offset : ℕ) (dataSize : ℤ) (region : Text × Text) : Except Error ℤ :=
  match host.files region.1 with
  | none => .error (unableToFind region.1)
  | some bytes => (int16 region.2).map fun base => max (base + bytes.length - offset) dataSize

/-- The assertions on `data_size`. -/
def checkSize (memSize : Option ℕ) (dataSize : ℤ) : Except Error ℕ :=
  if dataSize ≤ 0 then .error (.assertionError [])
  else match memSize with
    | none => .ok dataSize.toNat
    | some size =>
      if dataSize < size then .ok dataSize.toNat
      else .error (.assertionError ("file is too big: ".toList ++ Nat.toDigits 10 dataSize.toNat ++ ['/'] ++
        Nat.toDigits 10 size ++ " bytes".toList))

/-- `struct.unpack` of a word of four bytes. -/
def unpack : Endianness → List UInt8 → ℕ
  | .little, w => Nat.ofDigits 256 (w.map UInt8.toNat)
  | .big, w => Nat.ofDigits 256 (w.reverse.map UInt8.toNat)

/-- `data[k] |= ...`, for one 32-bit part of the word. -/
def fillPart (endianness : Endianness) (w : List UInt8) (k : ℤ) (data : List ℕ) (part : ℕ) :
    Except Error (List ℕ) := do
  let old ← getItem data k
  setItem data k (old ||| unpack endianness ((w.drop (4 * part)).take 4) <<< (32 * part))

/-- The loop over a file, of which `rest` is to be read. -/
def fillFile (endianness : Endianness) (dataWidth : ℕ) (start : ℤ) (rest : List UInt8) (i : ℕ) (data : List ℕ) :
    Except Error (List ℕ) :=
  if h : rest.take (dataWidth / 8) = [] then .ok data
  else do
    let w := (rest.take (dataWidth / 8)).rightpad (dataWidth / 8) 0
    let data ← setItem data (start + i) 0
    let data ← (List.range (dataWidth / 32)).foldlM (fillPart endianness w (start + i)) data
    fillFile endianness dataWidth start (rest.drop (dataWidth / 8)) (i + 1) data
termination_by rest.length
decreasing_by
  rw [List.take_eq_nil_iff, not_or] at h
  have := List.length_pos_of_ne_nil h.2
  rw [List.length_drop]
  omega

def fillRegion (host : Host) (endianness : Endianness) (dataWidth offset : ℕ) (data : List ℕ)
    (region : Text × Text) : Except Error (List ℕ) := do
  let base ← int16 region.2
  match host.files region.1 with
  | none => .error (unableToFind region.1)
  | some bytes => fillFile endianness dataWidth ((base - offset) / (dataWidth / 8 : ℕ)) bytes 0 data

/-- `get_mem_data` -/
def getMemData (host : Host) (source : Option Source) (dataWidth : ℕ) (endianness : Text) (memSize : Option ℕ)
    (offset : ℕ) : Except Error (List ℕ) :=
  if dataWidth % 32 ≠ 0 then .error (.assertionError [])
  else match Endianness.ofName endianness with
    | none => .error (.assertionError [])
    | some endianness =>
      match source with
      | none => .ok []
      | some source => do
        let regions ← getMemRegions host source offset
        let dataSize ← regions.foldlM (maxSize host offset) 0
        let dataSize ← checkSize memSize dataSize
        let words ← trueDiv dataSize (dataWidth / 8)
        let data ← repeatItem host.listRoom 0 ⌈words⌉.toNat
        regions.foldlM (fillRegion host endianness dataWidth offset) data

/-! ### The two writers -/

/-- The content `_memory_generate_verilog` gives the `.init` file of a memory. -/
def memoryInit (width : ℕ) (init : List ℕ) : Except Error Text :=
  (trueDiv width 4).map fun digits => init.flatMap fun d => hexText ⌊digits⌋.toNat d ++ ['\n']

/-- The text of LiteX for a memory of `width` bits, initialised from a file. -/
def litexInit (host : Host) (filename : Text) (width : ℕ) (endianness : Text) (offset : ℕ) : Except Error Text := do
  let init ← getMemData host (some (.file filename)) width endianness none offset
  memoryInit width init

/-- What a run of `gen_raminit.py` leaves: a file and a line printed. -/
structure Written where
  outPath : Text
  text : Text
  message : Text

/-- `main` of `gen_raminit.py` -/
def main (host : Host) : List Text → Except Error Written
  | _ :: binPath :: outPath :: rest => do
    let endianness := rest.head?.getD "little".toList
    let data ← getMemData host (some (.file binPath)) 32 endianness none 0
    return {
      outPath
      text := data.flatMap fun word => hexText 8 word ++ ['\n']
      message := "gen_raminit: wrote ".toList ++ Nat.toDigits 10 data.length ++ " words (".toList ++ endianness ++
        ") to ".toList ++ outPath }
  | _ => .error (.systemExit "usage: gen_raminit.py <firmware.bin> <out.init> [little|big]".toList)

/-! ### Filling the words -/

/-- The words of a firmware, the last one filled up with zeros. -/
def words (endianness : Endianness) : List UInt8 → List ℕ
  | [] => []
  | [a] => [unpack endianness [a, 0, 0, 0]]
  | [a, b] => [unpack endianness [a, b, 0, 0]]
  | [a, b, c] => [unpack endianness [a, b, c, 0]]
  | a :: b :: c :: d :: rest => unpack endianness [a, b, c, d] :: words endianness rest

theorem words_cons (e : Endianness) : ∀ {rest : List UInt8}, rest ≠ [] →
    words e rest = unpack e ((rest.take 4).rightpad 4 0) :: words e (rest.drop 4)
  | [], h => absurd rfl h
  | [_], _ => rfl
  | [_, _], _ => rfl
  | [_, _, _], _ => rfl
  | _ :: _ :: _ :: _ :: _, _ => rfl

theorem length_words (e : Endianness) : ∀ bytes : List UInt8, (words e bytes).length = (bytes.length + 3) / 4
  | [] => rfl
  | [_] => by simp [words]
  | [_, _] => by simp [words]
  | [_, _, _] => by simp [words]
  | _ :: _ :: _ :: _ :: rest => by
    simp only [words, List.length_cons, length_words e rest]
    omega

theorem fillFile_nil (e : Endianness) (dataWidth : ℕ) (start : ℤ) (i : ℕ) (data : List ℕ) :
    fillFile e dataWidth start [] i data = .ok data := by
  rw [fillFile, List.take_nil, dif_pos rfl]

/-- There is no room for another word. -/
theorem fillFile_full (e : Endianness) {rest : List UInt8} (hne : rest ≠ []) (data : List ℕ) :
    fillFile e 32 0 rest data.length data = .error .indexError := by
  rw [fillFile, dif_neg (by simpa using hne), zero_add, setItem_natCast, if_neg (lt_irrefl _),
    error_bind]

/-- The one part of a 32-bit word. -/
theorem fillPart_zero (e : Endianness) {w : List UInt8} (hw : w.length = 4) (before after : List ℕ) :
    fillPart e w before.length (before ++ 0 :: after) 0 = .ok (before ++ unpack e w :: after) := by
  have hget : (before ++ 0 :: after)[before.length]? = some 0 := by simp
  have hset (x : ℕ) : (before ++ 0 :: after).set before.length x = before ++ x :: after := by simp
  have hpart : (w.drop (4 * 0)).take 4 = w := List.take_of_length_le hw.le
  unfold fillPart
  rw [getItem_natCast hget, ok_bind, hpart, setItem_natCast, if_pos (by simp), hset, Nat.zero_or, Nat.mul_zero,
    Nat.shiftLeft_zero]

/-- One turn of the loop stores the next word. -/
theorem fillFile_word (e : Endianness) {rest : List UInt8} (hne : rest ≠ []) (before after : List ℕ) :
    fillFile e 32 0 rest before.length (before ++ 0 :: after) =
      fillFile e 32 0 (rest.drop 4) (before.length + 1)
        (before ++ unpack e ((rest.take 4).rightpad 4 0) :: after) := by
  have hlen : ((rest.take 4).rightpad 4 0).length = 4 := by
    simp only [List.rightpad, List.length_append, List.length_replicate, List.length_take]
    omega
  have hset : setItem (before ++ 0 :: after) (before.length : ℤ) 0 = .ok (before ++ 0 :: after) := by
    rw [setItem_natCast, if_pos (by simp)]
    simp
  rw [fillFile, dif_neg (by simpa using hne), zero_add, hset]
  show (do
    let data ← (List.range 1).foldlM (fillPart e ((rest.take 4).rightpad 4 0) before.length) (before ++ 0 :: after)
    fillFile e 32 0 (rest.drop 4) (before.length + 1) data) = _
  rw [List.range_one, List.foldlM_cons, fillPart_zero e hlen]
  rfl

/-- **What the loop leaves.** The words of the file, and zeros in the room left,
if there is room for them all. -/
theorem fillFile_words (e : Endianness) (rest : List UInt8) (before : List ℕ) (room : ℕ) :
    fillFile e 32 0 rest before.length (before ++ List.replicate room 0) =
      if (words e rest).length ≤ room then
        .ok (before ++ words e rest ++ List.replicate (room - (words e rest).length) 0)
      else .error .indexError := by
  induction room generalizing rest before with
  | zero =>
    by_cases hne : rest = []
    · subst hne
      simp [fillFile_nil, words]
    · rw [List.replicate_zero, List.append_nil, fillFile_full e hne, words_cons e hne]
      simp
  | succ room ih =>
    by_cases hne : rest = []
    · subst hne
      simp [fillFile_nil, words]
    · have hstep := ih (rest.drop 4) (before ++ [unpack e ((rest.take 4).rightpad 4 0)])
      rw [List.length_append, List.length_singleton, List.append_assoc, List.singleton_append] at hstep
      rw [List.replicate_succ, fillFile_word e hne, hstep, words_cons e hne, List.length_cons]
      simp only [Nat.succ_le_succ_iff, Nat.add_sub_add_right, List.append_assoc, List.singleton_append]

/-! ### A single file -/

theorem ofName_name (e : Endianness) : Endianness.ofName e.name = some e := by
  cases e <;> decide

/-- There is memory for a list of `k` items. -/
def ListFits (host : Host) (k : ℕ) : Prop := k ≤ (2 ^ 63 - 1) / 8 ∧ k ≤ host.listRoom

section Single

variable {host : Host} {filename : Text} {bytes : List UInt8} (hfile : host.files filename = some bytes)
include hfile

theorem getMemRegions_file (hext : extension filename ≠ ".json".toList) (offset : ℕ) :
    getMemRegions host (.file filename) offset = .ok [(filename, hexText 8 offset)] := by
  unfold getMemRegions
  simp only [hfile, if_neg hext]

/-- The offset is printed, read back, and cancels. -/
theorem maxSize_file (offset : ℕ) :
    maxSize host offset 0 (filename, hexText 8 offset) = .ok (bytes.length : ℤ) := by
  have hsize : max ((offset : ℤ) + bytes.length - offset) 0 = bytes.length := by omega
  unfold maxSize
  simp only [hfile, int16_hexText, Except.map, hsize]

theorem fillRegion_file (e : Endianness) (offset room : ℕ) :
    fillRegion host e 32 offset (List.replicate room 0) (filename, hexText 8 offset) =
      if (bytes.length + 3) / 4 ≤ room then
        .ok (words e bytes ++ List.replicate (room - (bytes.length + 3) / 4) 0)
      else .error .indexError := by
  have hfill := fillFile_words e bytes [] room
  rw [List.nil_append, List.nil_append, length_words] at hfill
  rw [← hfill]
  unfold fillRegion
  simp only [int16_hexText, hfile, ok_bind, sub_self]
  rfl

/-- **What `get_mem_data` does with one file.** Its words are stored in a list of
the length the division gives; the offset does not matter. -/
theorem getMemData_file (hne : bytes ≠ []) (hext : extension filename ≠ ".json".toList) (e : Endianness)
    (offset : ℕ) :
    getMemData host (some (.file filename)) 32 e.name none offset =
      if round53 bytes.length < 2 ^ 1026 then do
        let data ← repeatItem host.listRoom 0 ((round53 bytes.length + 3) / 4)
        fillRegion host e 32 offset data (filename, hexText 8 offset)
      else .error .overflowError := by
  have hpos : 0 < bytes.length := List.length_pos_of_ne_nil hne
  have hcheck : checkSize none (bytes.length : ℤ) = .ok bytes.length := by
    unfold checkSize
    rw [if_neg (by omega)]
    simp
  unfold getMemData
  rw [if_neg (by norm_num), ofName_name]
  dsimp only
  simp only [getMemRegions_file hfile hext, ok_bind, List.foldlM_cons, List.foldlM_nil, bind_pure,
    maxSize_file hfile, hcheck]
  rw [trueDiv_four hpos]
  split_ifs with hover
  · rw [ok_bind, ceil_div_four, Int.toNat_natCast]
  · rfl

/-- **What `get_mem_data` gives for one file.** A list is given exactly when the
length can be divided, there is memory for the list and the words go into it. -/
theorem getMemData_eq_ok_iff (hne : bytes ≠ []) (hext : extension filename ≠ ".json".toList) (e : Endianness)
    (offset : ℕ) {data : List ℕ} :
    getMemData host (some (.file filename)) 32 e.name none offset = .ok data ↔
      round53 bytes.length < 2 ^ 1026 ∧ ListFits host ((round53 bytes.length + 3) / 4) ∧
        (bytes.length + 3) / 4 ≤ (round53 bytes.length + 3) / 4 ∧
        data = words e bytes ++ List.replicate ((round53 bytes.length + 3) / 4 - (bytes.length + 3) / 4) 0 := by
  rw [getMemData_file hfile hne hext]
  generalize (round53 bytes.length + 3) / 4 = room
  constructor
  · intro h
    split_ifs at h with hover
    cases hlist : repeatItem host.listRoom 0 room with
    | error err =>
      rw [hlist, error_bind] at h
      cases h
    | ok zeros =>
      obtain ⟨haddr, hroom, rfl⟩ := repeatItem_eq_ok_iff.mp hlist
      rw [hlist, ok_bind, fillRegion_file hfile] at h
      split_ifs at h with hle
      exact ⟨hover, ⟨haddr, hroom⟩, hle, (Except.ok.inj h).symm⟩
  · rintro ⟨hover, ⟨haddr, hroom⟩, hle, rfl⟩
    rw [if_pos hover, repeatItem_eq_ok_iff.mpr ⟨haddr, hroom, rfl⟩, ok_bind, fillRegion_file hfile, if_pos hle]

end Single

/-! ### The text and back -/

/-- The text of a list of words, one a line. -/
def textOf (data : List ℕ) : Text := data.flatMap fun word => hexText 8 word ++ ['\n']

/-- The lines of a text. -/
def lines : Text → List Text
  | [] => []
  | c :: cs =>
    if c = '\n' then [] :: lines cs
    else match lines cs with
      | [] => [[c]]
      | l :: ls => (c :: l) :: ls

/-- The four bytes of a word. -/
def pack : Endianness → ℕ → List UInt8
  | .little, n => [UInt8.ofNat n, UInt8.ofNat (n / 256), UInt8.ofNat (n / 256 ^ 2), UInt8.ofNat (n / 256 ^ 3)]
  | .big, n => [UInt8.ofNat (n / 256 ^ 3), UInt8.ofNat (n / 256 ^ 2), UInt8.ofNat (n / 256), UInt8.ofNat n]

/-- The bytes a text of words stands for. -/
def decode (endianness : Endianness) (text : Text) : Option (List UInt8) :=
  ((lines text).mapM (hexValue 0)).map fun data => data.flatMap (pack endianness)

theorem lines_append {l : Text} (hl : '\n' ∉ l) (rest : Text) : lines (l ++ '\n' :: rest) = l :: lines rest := by
  induction l with
  | nil => simp [lines]
  | cons c cs ih =>
    rw [List.mem_cons, not_or] at hl
    rw [List.cons_append, lines, if_neg (Ne.symm hl.1), ih hl.2]

theorem newline_hexText (width n : ℕ) : '\n' ∉ hexText width n := by
  intro hmem
  exact absurd (hexDigit_hexText width n _ hmem) (by decide)

theorem lines_textOf (data : List ℕ) : lines (textOf data) = data.map (hexText 8) := by
  induction data with
  | nil => rfl
  | cons word data ih =>
    have hcons : textOf (word :: data) = hexText 8 word ++ '\n' :: textOf data := by
      simp [textOf]
    rw [hcons, lines_append (newline_hexText 8 word), ih, List.map_cons]

/-- Reading the text back gives the bytes of the words. -/
theorem decode_textOf (e : Endianness) (data : List ℕ) : decode e (textOf data) = some (data.flatMap (pack e)) := by
  have hread : (data.map (hexText 8)).mapM (hexValue 0) = some data := by
    induction data with
    | nil => rfl
    | cons word data ih =>
      rw [List.map_cons, List.mapM_cons, hexValue_hexText, ih]
      rfl
  unfold decode
  rw [lines_textOf, hread]
  rfl

theorem ofDigits_four (a b c d : ℕ) : Nat.ofDigits 256 [a, b, c, d] = a + 256 * (b + 256 * (c + 256 * d)) := by
  simp [Nat.ofDigits_cons]

theorem unpack_lt (e : Endianness) {w : List UInt8} (hw : w.length = 4) : unpack e w < 16 ^ 8 := by
  have hlt (v : List UInt8) (hv : v.length = 4) : Nat.ofDigits 256 (v.map UInt8.toNat) < 16 ^ 8 := by
    calc Nat.ofDigits 256 (v.map UInt8.toNat) < 256 ^ (v.map UInt8.toNat).length := by
          apply Nat.ofDigits_lt_base_pow_length (by norm_num)
          intro x hx
          obtain ⟨b, -, rfl⟩ := List.mem_map.mp hx
          exact b.toNat_lt
      _ = 16 ^ 8 := by
          rw [List.length_map, hv]
          norm_num
  cases e with
  | little => exact hlt w hw
  | big => exact hlt w.reverse (by rw [List.length_reverse, hw])

theorem pack_unpack (e : Endianness) (a b c d : UInt8) : pack e (unpack e [a, b, c, d]) = [a, b, c, d] := by
  have ha := a.toNat_lt
  have hb := b.toNat_lt
  have hc := c.toNat_lt
  have hd := d.toNat_lt
  have hbyte (x : UInt8) (n : ℕ) (h : n % 256 = x.toNat) : UInt8.ofNat n = x := by
    apply UInt8.toNat_inj.mp
    rw [UInt8.toNat_ofNat', h]
  cases e with
  | little =>
    simp only [unpack, pack, List.map_cons, List.map_nil, ofDigits_four]
    rw [hbyte a _ (by omega), hbyte b _ (by omega), hbyte c _ (by omega), hbyte d _ (by omega)]
  | big =>
    simp only [unpack, pack, List.reverse_cons, List.reverse_nil, List.nil_append, List.cons_append, List.map_cons,
      List.map_nil, ofDigits_four]
    rw [hbyte a _ (by omega), hbyte b _ (by omega), hbyte c _ (by omega), hbyte d _ (by omega)]

/-- The words of a firmware are its bytes, and at most three zeros. -/
theorem pack_words (e : Endianness) : ∀ bytes : List UInt8,
    ∃ zeros ≤ 3, (words e bytes).flatMap (pack e) = bytes ++ List.replicate zeros 0
  | [] => ⟨0, by norm_num, rfl⟩
  | [a] => ⟨3, by norm_num, by simp [words, pack_unpack, List.replicate]⟩
  | [a, b] => ⟨2, by norm_num, by simp [words, pack_unpack, List.replicate]⟩
  | [a, b, c] => ⟨1, by norm_num, by simp [words, pack_unpack, List.replicate]⟩
  | a :: b :: c :: d :: rest => by
    obtain ⟨zeros, hle, hrest⟩ := pack_words e rest
    refine ⟨zeros, hle, ?_⟩
    simp only [words, List.flatMap_cons, pack_unpack, hrest, List.cons_append, List.nil_append]

/-- A word has eight digits. -/
theorem words_lt (e : Endianness) : ∀ bytes : List UInt8, ∀ word ∈ words e bytes, word < 16 ^ 8
  | [] => List.forall_mem_nil _
  | [_] => List.forall_mem_singleton.mpr (unpack_lt e rfl)
  | [_, _] => List.forall_mem_singleton.mpr (unpack_lt e rfl)
  | [_, _, _] => List.forall_mem_singleton.mpr (unpack_lt e rfl)
  | _ :: _ :: _ :: _ :: rest => List.forall_mem_cons.mpr ⟨unpack_lt e rfl, words_lt e rest⟩

/-! ### Both writers -/

/-- The refreshed image is the firmware, and LiteX's: both writers give the same
text, of a line of eight digits for each four bytes, and the text stands for the
firmware with at most three zeros behind it. -/
def Refreshed (host : Host) (args : List Text) (filename : Text) (endianness : Endianness) (offset : ℕ)
    (bytes : List UInt8) : Prop :=
  ∃ out, main host args = .ok out ∧ litexInit host filename 32 endianness.name offset = .ok out.text ∧
    (lines out.text).length = (bytes.length + 3) / 4 ∧
    (∀ line ∈ lines out.text, line.length = 8 ∧ ∀ c ∈ line, (hexDigit c).isSome = true) ∧
    ∃ zeros ≤ 3, decode endianness out.text = some (bytes ++ List.replicate zeros 0)

/-- A length that rounding to a double leaves in the same number of words. -/
def Fits (n : ℕ) : Prop := round53 n < 2 ^ 1026 ∧ (round53 n + 3) / 4 = (n + 3) / 4

theorem fits_of_le {n : ℕ} (hn : n ≤ 2 ^ 53) : Fits n := by
  unfold Fits
  rw [round53_eq_self hn]
  refine ⟨?_, rfl⟩
  apply Nat.lt_of_le_of_lt hn
  apply Nat.pow_lt_pow_right one_lt_two
  decide

/-- The bound is sharp: one byte more is rounded away, and its word with it. -/
theorem not_fits_succ : ¬ Fits (2 ^ 53 + 1) := by
  rintro ⟨-, hsame⟩
  rw [round53_first] at hsame
  norm_num at hsame

theorem memoryInit_32 (init : List ℕ) : memoryInit 32 init = .ok (textOf init) := by
  have hle : 32 ≤ 2 ^ 53 := by norm_num
  have hdigits : ⌊((32 : ℕ) : ℚ) / 4⌋ = 8 := by norm_num
  unfold memoryInit
  rw [trueDiv_four (by norm_num), if_pos (fits_of_le hle).1, round53_eq_self hle]
  simp only [Except.map, hdigits]
  rfl

section Writers

variable {host : Host} {filename : Text} {e : Endianness} {rest : List Text}

theorem litexInit_eq {offset : ℕ} {data : List ℕ}
    (hdata : getMemData host (some (.file filename)) 32 e.name none offset = .ok data) :
    litexInit host filename 32 e.name offset = .ok (textOf data) := by
  unfold litexInit
  rw [hdata, ok_bind, memoryInit_32]

theorem main_ok (prog outPath : Text) (hargs : rest.head?.getD "little".toList = e.name) {data : List ℕ}
    (hdata : getMemData host (some (.file filename)) 32 e.name none 0 = .ok data) :
    ∃ out, main host (prog :: filename :: outPath :: rest) = .ok out ∧ out.text = textOf data := by
  unfold main
  dsimp only
  rw [hargs, hdata, ok_bind]
  exact ⟨_, rfl, rfl⟩

/-- The script ends without a file when `get_mem_data` raises an exception. -/
theorem getMemData_of_main {prog outPath : Text} (hargs : rest.head?.getD "little".toList = e.name) {out : Written}
    (hout : main host (prog :: filename :: outPath :: rest) = .ok out) :
    ∃ data, getMemData host (some (.file filename)) 32 e.name none 0 = .ok data ∧ out.text = textOf data := by
  unfold main at hout
  dsimp only at hout
  rw [hargs] at hout
  cases hdata : getMemData host (some (.file filename)) 32 e.name none 0 with
  | error err =>
    rw [hdata, error_bind] at hout
    cases hout
  | ok data =>
    rw [hdata, ok_bind] at hout
    cases hout
    exact ⟨data, rfl, rfl⟩

section Firmware

variable (prog outPath : Text) {bytes : List UInt8} {offset : ℕ} (hargs : rest.head?.getD "little".toList = e.name)
  (hfile : host.files filename = some bytes) (hne : bytes ≠ []) (hext : extension filename ≠ ".json".toList)
include hargs hfile hne hext

/-- A list that is too short ends the script, and one that is too long makes lines too many. -/
theorem fits_of_refreshed (h : Refreshed host (prog :: filename :: outPath :: rest) filename e offset bytes) :
    Fits bytes.length ∧ ListFits host ((bytes.length + 3) / 4) := by
  obtain ⟨out, hout, -, hlines, -⟩ := h
  obtain ⟨data, hdata, htext⟩ := getMemData_of_main hargs hout
  obtain ⟨hover, hroom, hle, rfl⟩ := (getMemData_eq_ok_iff hfile hne hext e 0).mp hdata
  rw [htext, lines_textOf, List.length_map, List.length_append, length_words, List.length_replicate] at hlines
  have hsame : (round53 bytes.length + 3) / 4 = (bytes.length + 3) / 4 := by omega
  exact ⟨⟨hover, hsame⟩, hsame ▸ hroom⟩

theorem refreshed_of_fits (h : Fits bytes.length) (hroom : ListFits host ((bytes.length + 3) / 4)) :
    Refreshed host (prog :: filename :: outPath :: rest) filename e offset bytes := by
  have hdata (offset : ℕ) : getMemData host (some (.file filename)) 32 e.name none offset = .ok (words e bytes) := by
    rw [getMemData_eq_ok_iff hfile hne hext, h.2, Nat.sub_self, List.replicate_zero, List.append_nil]
    exact ⟨h.1, hroom, le_rfl, rfl⟩
  obtain ⟨out, hout, htext⟩ := main_ok prog outPath hargs (hdata 0)
  obtain ⟨zeros, hzeros, hpack⟩ := pack_words e bytes
  refine ⟨out, hout, ?_, ?_, ?_, zeros, hzeros, ?_⟩
  · rw [htext]
    exact litexInit_eq (hdata offset)
  · rw [htext, lines_textOf, List.length_map, length_words]
  · rw [htext, lines_textOf]
    intro line hline
    obtain ⟨word, hword, rfl⟩ := List.mem_map.mp hline
    exact ⟨length_hexText (by norm_num) (words_lt e bytes word hword), hexDigit_hexText 8 word⟩
  · rw [htext, decode_textOf, hpack]

end Firmware

end Writers

/-- **When the refreshed image is the firmware.** For every length: rounding it
to a double must leave the number of words, and there must be memory for a list
of them. -/
theorem ramInit_iff (host : Host) (prog filename outPath : Text) (rest : List Text) (bytes : List UInt8)
    (e : Endianness) (offset : ℕ) (hargs : rest.head?.getD "little".toList = e.name)
    (hfile : host.files filename = some bytes) (hne : bytes ≠ []) (hext : extension filename ≠ ".json".toList) :
    Refreshed host (prog :: filename :: outPath :: rest) filename e offset bytes ↔
      Fits bytes.length ∧ ListFits host ((bytes.length + 3) / 4) :=
  ⟨fits_of_refreshed prog outPath hargs hfile hne hext,
    fun h => refreshed_of_fits prog outPath hargs hfile hne hext h.1 h.2⟩

/-- **The refreshed image is the firmware.** For every host, firmware of at least
one byte that is not a `.json`, endianness and offset: `gen_raminit.py` and LiteX
write the same text, of one line of eight digits for each four bytes, that stands
for the firmware and at most three zeros. The firmware has up to `2 ^ 53` bytes,
and the host memory for the list of its words. -/
theorem ramInit_refreshed (host : Host) (prog filename outPath : Text) (rest : List Text) (bytes : List UInt8)
    (e : Endianness) (offset : ℕ) (hargs : rest.head?.getD "little".toList = e.name)
    (hfile : host.files filename = some bytes) (hne : bytes ≠ []) (hext : extension filename ≠ ".json".toList)
    (hn : bytes.length ≤ 2 ^ 53) (hroom : (bytes.length + 3) / 4 ≤ host.listRoom) :
    Refreshed host (prog :: filename :: outPath :: rest) filename e offset bytes := by
  have haddr : (bytes.length + 3) / 4 ≤ (2 ^ 63 - 1) / 8 := by omega
  exact refreshed_of_fits prog outPath hargs hfile hne hext (fits_of_le hn) ⟨haddr, hroom⟩

def bootBin : Text := "boot.bin".toList

/-- A host with one firmware, and memory for a list of `2 ^ 20` items. -/
def bootHost (bytes : List UInt8) : Host where
  files name := if name = bootBin then some bytes else none
  jsonLoad _ := .error .valueError
  listRoom := 2 ^ 20

theorem bootHost_files (bytes : List UInt8) : (bootHost bytes).files bootBin = some bytes := by
  unfold bootHost
  dsimp only
  rw [if_pos rfl]

theorem extension_bootBin : extension bootBin ≠ ".json".toList := by decide

/-- Six bytes, with the offset of the main memory, in both orders. -/
theorem ramInit_refreshed_six :
    Refreshed (bootHost [0x6f, 0, 0, 0x0b, 0x13, 0]) ["gen_raminit.py".toList, bootBin, "main_ram.init".toList]
      bootBin .little 0x40000000 [0x6f, 0, 0, 0x0b, 0x13, 0] ∧
    Refreshed (bootHost [0x6f, 0, 0, 0x0b, 0x13, 0])
      ["gen_raminit.py".toList, bootBin, "main_ram.init".toList, "big".toList]
      bootBin .big 0x40000000 [0x6f, 0, 0, 0x0b, 0x13, 0] := by
  have hroom : (6 + 3) / 4 ≤ (bootHost [0x6f, 0, 0, 0x0b, 0x13, 0]).listRoom := by decide
  have hlen : ([0x6f, 0, 0, 0x0b, 0x13, 0] : List UInt8).length ≤ 2 ^ 53 := by simp
  constructor
  · exact ramInit_refreshed _ _ _ _ [] _ .little _ rfl (bootHost_files _) (by decide) extension_bootBin hlen hroom
  · exact ramInit_refreshed _ _ _ _ ["big".toList] _ .big _ rfl (bootHost_files _) (by decide) extension_bootBin
      hlen hroom

end RamInit
end PqcDtls
