import Mathlib.Data.List.Sort
import McuUpdater.Lib.Except
import McuUpdater.Uf2.Container

/-! `uf2_erase.py`: a container extended with the erased pages of one sector. -/
namespace McuUpdater.Uf2Erase
open Bytes Uf2

def sectorSize : Nat := 4096
def pageSize : Nat := 256

/-- What `_blocks` yields for a block: `(flags, target, payload, family)`. -/
structure Block where
  flags : Nat
  target : Nat
  payload : List UInt8
  family : Nat
deriving DecidableEq, Inhabited

def Block.isMain (b : Block) : Bool := !notMainFlash b.flags

/-- The body of the loop of `_blocks`. -/
def readBlock (uf2 : List UInt8) (offset : Nat) : Except String Block :=
  let size := word uf2 (offset + 16)
  if word uf2 offset ≠ magicStart0 ∨ word uf2 (offset + 4) ≠ magicStart1
      ∨ word uf2 (offset + blockSize - 4) ≠ magicEnd then .error (badMagic offset)
  else if maxPayload < size then .error (badPayload offset size)
  else .ok {
    flags := word uf2 (offset + 8)
    target := word uf2 (offset + 12)
    payload := slice uf2 (offset + headerSize) size
    family := word uf2 (offset + 28) }

/-- `uf2_erase._blocks` -/
def blocks (uf2 : List UInt8) : Except String (List Block) :=
  if uf2 = [] ∨ uf2.length % blockSize ≠ 0 then .error (badLength uf2)
  else (offsets uf2).mapM (readBlock uf2)

def erasedPages (flags family address : Nat) : List Block :=
  (List.range (sectorSize / pageSize)).map fun page =>
    { flags, target := address + pageSize * page, payload := List.replicate pageSize 0xff, family }

/-- `target < end and target + len(payload) > address` -/
def overlaps (address : Nat) (b : Block) : Bool :=
  b.target < address + sectorSize && address < b.target + b.payload.length

/-- `sorted(…, key=lambda b: b[1])`, which is stable. -/
def byTarget (bs : List Block) : List Block := bs.mergeSort fun a b => a.target ≤ b.target

/-- The header's fields of block `number` of `count`. -/
def fields (count number : Nat) (b : Block) : List Nat :=
  [magicStart0, magicStart1, b.flags, b.target, b.payload.length, number, count, b.family]

/-- `_HEADER.pack`, which raises where a field does not fit its word. -/
def pack (words : List Nat) : Except String (List UInt8) :=
  if words.all (· < 2 ^ 32) then .ok (words.flatMap (encode 4))
  else .error "'I' format requires 0 <= number <= 4294967295"

/-- `payload.ljust(UF2_BLOCK_SIZE - UF2_HEADER_SIZE - _END.size, b"\0") + _END.pack(…)` -/
def body (payload : List UInt8) : List UInt8 :=
  payload ++ List.replicate (maxPayload - payload.length) 0 ++ encode 4 magicEnd

def writeBlock (count : Nat) (numbered : Block × Nat) : Except String (List UInt8) := do
  let header ← pack (fields count numbered.2 numbered.1)
  return header ++ body numbered.1.payload

def writeBlocks (ordered : List Block) : Except String (List UInt8) := do
  let parts ← ordered.zipIdx.mapM (writeBlock ordered.length)
  return parts.flatten

def extend (bs : List Block) (address : Nat) : Except String (List UInt8) :=
  match bs.filter Block.isMain with
  | [] => .error "the image writes nothing to flash"
  | first :: rest =>
    match (first :: rest).find? (overlaps address) with
    | some b => .error (s!"the image already writes {hex 0 b.target}, which would overlap the " ++
        s!"application sector at {hex 0 address}")
    | none => writeBlocks (byTarget (bs ++ erasedPages first.flags first.family address))

def withErasedSector (uf2 : List UInt8) (address : Nat) : Except String (List UInt8) :=
  if address % sectorSize ≠ 0 then
    .error s!"application address {hex 0 address} is not on a {sectorSize}-byte sector boundary"
  else do
    let bs ← blocks uf2
    extend bs address

/-! The two parsers read the same containers, and refuse the others in the same words. -/

def toBlock (uf2 : List UInt8) (s : Span) : Block where
  flags := s.flags
  target := s.target
  payload := slice uf2 (s.offset + headerSize) s.payloadSize
  family := word uf2 (s.offset + 28)

theorem readBlock_eq (uf2 : List UInt8) (offset : Nat) :
    readBlock uf2 offset = (readSpan uf2 offset).map (toBlock uf2) := by
  unfold readBlock readSpan
  dsimp only
  split_ifs <;> rfl

theorem blocks_eq (uf2 : List UInt8) :
    blocks uf2 = (Uf2.blocks uf2).map (List.map (toBlock uf2)) := by
  unfold blocks Uf2.blocks
  rw [funext (readBlock_eq uf2), ExceptList.mapM_map]
  by_cases h : uf2 = [] ∨ uf2.length % blockSize ≠ 0
  · rw [if_pos h, if_pos h.symm]
    rfl
  · rw [if_neg h, if_neg fun h' => h h'.symm]

theorem spans_of_blocks {uf2 : List UInt8} {bs : List Block} (h : blocks uf2 = .ok bs) :
    ∃ spans, Uf2.blocks uf2 = .ok spans ∧ bs = spans.map (toBlock uf2) := by
  rw [blocks_eq] at h
  cases hspans : Uf2.blocks uf2 with
  | error e =>
    rw [hspans] at h
    cases h
  | ok spans =>
    rw [hspans] at h
    cases h
    exact ⟨spans, rfl, rfl⟩

theorem span_of_blocks {uf2 : List UInt8} {spans : List Span} (h : Uf2.blocks uf2 = .ok spans)
    {s : Span} (hs : s ∈ spans) :
    s.offset + blockSize ≤ uf2.length ∧ s.payloadSize ≤ maxPayload ∧ s.flags < 2 ^ 32
      ∧ s.target < 2 ^ 32 := by
  unfold Uf2.blocks at h
  split_ifs at h
  obtain ⟨offset, hoffset, hread⟩ := (ExceptList.mem_mapM h s).mp hs
  obtain ⟨i, hi, rfl⟩ := List.mem_map.mp hoffset
  rw [List.mem_range] at hi
  have hin : blockSize * (i + 1) ≤ blockSize * (uf2.length / blockSize) := Nat.mul_le_mul_left _ hi
  have hdiv := Nat.mul_div_le uf2.length blockSize
  rw [readSpan] at hread
  split_ifs at hread with hmagic hsize
  cases hread
  exact ⟨by rw [Nat.mul_succ] at hin; exact le_trans hin hdiv, Nat.le_of_not_lt hsize, word_lt _ _,
    word_lt _ _⟩

/-- The words of a block fit where the format puts them. -/
structure Block.Fits (b : Block) : Prop where
  flags : b.flags < 2 ^ 32
  target : b.target < 2 ^ 32
  payload : b.payload.length ≤ maxPayload
  family : b.family < 2 ^ 32

theorem fits_of_blocks {uf2 : List UInt8} {bs : List Block} (h : blocks uf2 = .ok bs)
    {b : Block} (hb : b ∈ bs) : b.Fits := by
  obtain ⟨spans, hspans, rfl⟩ := spans_of_blocks h
  obtain ⟨s, hs, rfl⟩ := List.mem_map.mp hb
  obtain ⟨-, hsize, hflags, htarget⟩ := span_of_blocks hspans hs
  exact ⟨hflags, htarget, by simp [toBlock, slice]; omega, word_lt _ _⟩

/-! What is written reads back. -/

def record (count : Nat) (numbered : Block × Nat) : List UInt8 :=
  (fields count numbered.2 numbered.1).flatMap (encode 4) ++ body numbered.1.payload

theorem pack_ok {words : List Nat} {header : List UInt8} (h : pack words = .ok header) :
    header = words.flatMap (encode 4) ∧ ∀ w ∈ words, w < 2 ^ 32 := by
  unfold pack at h
  split_ifs at h with hall
  cases h
  exact ⟨rfl, by simpa using hall⟩

theorem writeBlock_ok {count : Nat} {numbered : Block × Nat} {part : List UInt8}
    (h : writeBlock count numbered = .ok part) :
    part = record count numbered ∧ ∀ w ∈ fields count numbered.2 numbered.1, w < 2 ^ 32 := by
  obtain ⟨header, hheader, h⟩ := ExceptList.bind_ok h
  obtain ⟨rfl, hwords⟩ := pack_ok hheader
  cases h
  exact ⟨rfl, hwords⟩

theorem writeBlocks_ok {ordered : List Block} {out : List UInt8}
    (h : writeBlocks ordered = .ok out) :
    out = ordered.zipIdx.flatMap (record ordered.length) ∧
      ∀ nb ∈ ordered.zipIdx, ∀ w ∈ fields ordered.length nb.2 nb.1, w < 2 ^ 32 := by
  obtain ⟨parts, hparts, h⟩ := ExceptList.bind_ok h
  cases h
  have hmap := ExceptList.eq_map_of_mapM hparts fun nb _ part hpart => (writeBlock_ok hpart).1
  refine ⟨by rw [hmap, List.flatMap_def], fun nb hnb => ?_⟩
  obtain ⟨part, hpart⟩ := ExceptList.ok_of_mapM hparts hnb
  exact (writeBlock_ok hpart).2

theorem length_record {count : Nat} {nb : Block × Nat} (h : nb.1.payload.length ≤ maxPayload) :
    (record count nb).length = blockSize := by
  have hheader := length_flatMap_records (l := fields count nb.2 nb.1)
    fun n _ => length_encode 4 n
  have hpayload : nb.1.payload.length ≤ 476 := h
  rw [record, List.length_append, hheader, body]
  simp only [List.length_append, List.length_replicate, length_encode, fields, List.length_cons,
    List.length_nil, maxPayload, blockSize, headerSize]
  omega

theorem word_header {words : List Nat} (h : ∀ w ∈ words, w < 2 ^ 32) (rest : List UInt8)
    {i : Nat} (hi : i < words.length) :
    word (words.flatMap (encode 4) ++ rest) (4 * i) = words[i] := by
  rw [word, slice_record (fun n _ => length_encode 4 n) rest hi]
  exact decode_encode (h _ (List.getElem_mem hi))

theorem length_records {ordered : List Block} (hfits : ∀ b ∈ ordered, b.payload.length ≤ maxPayload)
    (count : Nat) : ∀ nb ∈ ordered.zipIdx, (record count nb).length = blockSize :=
  fun _ hnb => length_record (hfits _ (List.fst_mem_of_mem_zipIdx hnb))

section Written
variable {ordered : List Block} {out : List UInt8} (h : writeBlocks ordered = .ok out)
  (hfits : ∀ b ∈ ordered, b.payload.length ≤ maxPayload) {i : Nat} (hi : i < ordered.length)
include h hfits

theorem length_written : out.length = blockSize * ordered.length := by
  rw [(writeBlocks_ok h).1, length_flatMap_records (length_records hfits _),
    List.length_zipIdx]

include hi

theorem slice_written :
    slice out (blockSize * i) blockSize = record ordered.length (ordered[i], i) := by
  have hrecord := slice_record (length_records hfits ordered.length) [] (i := i) (by simpa using hi)
  rw [List.append_nil, ← (writeBlocks_ok h).1] at hrecord
  simpa using hrecord

theorem word_written {k : Nat} (hk : k < 8) :
    word out (blockSize * i + 4 * k) = (fields ordered.length i ordered[i])[k] := by
  have hmem : (ordered[i], i) ∈ ordered.zipIdx := by
    rw [List.mem_zipIdx_iff_getElem?]
    simp [hi]
  have hwords := (writeBlocks_ok h).2 _ hmem
  rw [← word_slice out (show 4 * k + 4 ≤ blockSize by simp [blockSize]; omega),
    slice_written h hfits hi, record]
  exact word_header hwords _ hk

theorem word_written_end : word out (blockSize * i + blockSize - 4) = magicEnd := by
  have hpayload : (ordered[i]).payload.length ≤ 476 := hfits _ (List.getElem_mem hi)
  have hheader := length_flatMap_records (l := fields ordered.length i ordered[i])
    fun n _ => length_encode 4 n
  have hend : record ordered.length (ordered[i], i) =
      ((fields ordered.length i ordered[i]).flatMap (encode 4) ++ (ordered[i].payload ++
        List.replicate (maxPayload - ordered[i].payload.length) 0)) ++
      (encode 4 magicEnd ++ []) := by
    simp [record, body]
  have hlength : ((fields ordered.length i ordered[i]).flatMap (encode 4) ++ (ordered[i].payload ++
      List.replicate (maxPayload - ordered[i].payload.length) 0)).length = 508 := by
    rw [List.length_append, hheader]
    simp only [List.length_append, List.length_replicate, fields, List.length_cons,
      List.length_nil, maxPayload, blockSize, headerSize]
    omega
  rw [show blockSize * i + blockSize - 4 = blockSize * i + 508 by simp [blockSize],
    ← word_slice out (show 508 + 4 ≤ blockSize by decide), slice_written h hfits hi, hend, word]
  have hright := slice_append_right ((fields ordered.length i ordered[i]).flatMap (encode 4) ++
    (ordered[i].payload ++ List.replicate (maxPayload - ordered[i].payload.length) 0))
    (encode 4 magicEnd ++ []) 0 4
  rw [hlength] at hright
  rw [hright]
  decide

theorem payload_written :
    slice out (blockSize * i + headerSize) ordered[i].payload.length = ordered[i].payload := by
  have hpayload : (ordered[i]).payload.length ≤ 476 := hfits _ (List.getElem_mem hi)
  have hheader := length_flatMap_records (l := fields ordered.length i ordered[i])
    fun n _ => length_encode 4 n
  rw [← slice_slice out (n := blockSize) (by simp only [headerSize, blockSize]; omega),
    slice_written h hfits hi, record, body, List.append_assoc]
  have hright := slice_append_right ((fields ordered.length i ordered[i]).flatMap (encode 4))
    (ordered[i].payload ++ (List.replicate (maxPayload - ordered[i].payload.length) 0 ++
      encode 4 magicEnd)) 0 ordered[i].payload.length
  rw [hheader] at hright
  rw [show headerSize = 4 * (fields ordered.length i ordered[i]).length + 0 from rfl, hright,
    slice_append_left]

theorem readBlock_written : readBlock out (blockSize * i) = .ok ordered[i] := by
  have word0 := word_written h hfits hi (k := 0) (by decide)
  have word1 := word_written h hfits hi (k := 1) (by decide)
  have word2 := word_written h hfits hi (k := 2) (by decide)
  have word3 := word_written h hfits hi (k := 3) (by decide)
  have word4 := word_written h hfits hi (k := 4) (by decide)
  have word7 := word_written h hfits hi (k := 7) (by decide)
  have hend := word_written_end h hfits hi
  have hpayload := hfits _ (List.getElem_mem hi)
  simp only [fields, List.getElem_cons_zero, List.getElem_cons_succ, Nat.mul_zero, Nat.add_zero,
    Nat.mul_one, Nat.reduceMul] at word0 word1 word2 word3 word4 word7
  simp only [readBlock, word0, word1, word2, word3, word4, word7, hend]
  rw [if_neg (by simp), if_neg (by omega), payload_written h hfits hi]

end Written

theorem offsets_written {ordered : List Block} {out : List UInt8}
    (h : writeBlocks ordered = .ok out)
    (hfits : ∀ b ∈ ordered, b.payload.length ≤ maxPayload) :
    offsets out = (List.range ordered.length).map (blockSize * ·) := by
  rw [offsets, length_written h hfits, Nat.mul_div_cancel_left _ (by decide)]

theorem blocks_written {ordered : List Block} {out : List UInt8}
    (h : writeBlocks ordered = .ok out) (hne : ordered ≠ [])
    (hfits : ∀ b ∈ ordered, b.payload.length ≤ maxPayload) : blocks out = .ok ordered := by
  have hpos : 0 < ordered.length := List.length_pos_iff.mpr hne
  have hlength := length_written h hfits
  have hvalid : ¬ (out = [] ∨ out.length % blockSize ≠ 0) := by
    rintro (rfl | hmod)
    · simp only [List.length_nil, blockSize] at hlength
      omega
    · exact hmod (by rw [hlength, Nat.mul_mod_right])
  have hread : ∀ o ∈ offsets out, readBlock out o = .ok (ordered.getD (o / blockSize) default) := by
    intro o ho
    rw [offsets_written h hfits] at ho
    obtain ⟨i, hi, rfl⟩ := List.mem_map.mp ho
    rw [List.mem_range] at hi
    rw [readBlock_written h hfits hi, Nat.mul_div_cancel_left _ (by decide)]
    simp [hi]
  rw [blocks, if_neg hvalid, ExceptList.mapM_ok hread, offsets_written h hfits, List.map_map]
  congr 1
  apply List.ext_getElem
  · simp
  · intro i h1 h2
    simp [blockSize, h2]

/-- The `(number, total)` that each block of a container claims. -/
def numbers (uf2 : List UInt8) : List (Nat × Nat) :=
  (offsets uf2).map fun offset => (word uf2 (offset + 20), word uf2 (offset + 24))

theorem numbers_written {ordered : List Block} {out : List UInt8}
    (h : writeBlocks ordered = .ok out)
    (hfits : ∀ b ∈ ordered, b.payload.length ≤ maxPayload) :
    numbers out = (List.range ordered.length).map fun i => (i, ordered.length) := by
  rw [numbers, offsets_written h hfits, List.map_map]
  apply List.map_congr_left
  intro i hi
  rw [List.mem_range] at hi
  have hnumber := word_written h hfits hi (k := 5) (by decide)
  have htotal := word_written h hfits hi (k := 6) (by decide)
  simp only [fields, List.getElem_cons_zero, List.getElem_cons_succ, Nat.reduceMul]
    at hnumber htotal
  simp [hnumber, htotal]

/-! The image a container carries, as the writes of its main blocks. -/

def Block.writes (b : Block) : List (Int × UInt8) :=
  b.payload.zipIdx.map fun w => ((b.target + w.2 : Int), w.1)

def imageWrites (bs : List Block) : List (Int × UInt8) :=
  (bs.filter Block.isMain).flatMap Block.writes

theorem imageWrites_append (bs bs' : List Block) :
    imageWrites (bs ++ bs') = imageWrites bs ++ imageWrites bs' := by
  simp [imageWrites]

theorem imageWrites_perm {bs bs' : List Block} (h : bs.Perm bs') :
    (imageWrites bs).Perm (imageWrites bs') :=
  (h.filter _).flatMap_right _

theorem mem_writes {b : Block} {w : Int × UInt8} :
    w ∈ b.writes ↔ ∃ i : Nat, b.payload[i]? = some w.2 ∧ w.1 = b.target + i := by
  obtain ⟨a, x⟩ := w
  simp only [Block.writes, List.mem_map, List.mem_zipIdx_iff_getElem?, Prod.exists, Prod.mk.injEq]
  constructor
  · rintro ⟨y, i, hi, rfl, rfl⟩
    exact ⟨i, hi, rfl⟩
  · rintro ⟨i, hi, rfl⟩
    exact ⟨x, i, hi, rfl, rfl⟩

theorem mem_imageWrites {bs : List Block} {w : Int × UInt8} :
    w ∈ imageWrites bs ↔ ∃ b ∈ bs, b.isMain ∧ w ∈ b.writes := by
  simp [imageWrites, and_assoc]

theorem writes_toBlock {uf2 : List UInt8} {s : Span} (hin : s.offset + blockSize ≤ uf2.length)
    (hsize : s.payloadSize ≤ maxPayload) : (toBlock uf2 s).writes = s.writes uf2 := by
  have hfit : s.offset + headerSize + s.payloadSize ≤ uf2.length := by
    simp only [blockSize, headerSize, maxPayload] at *
    omega
  apply List.ext_getElem
  · simp [Block.writes, Span.writes, toBlock, length_slice hfit]
  · intro i h1 h2
    have hi : i < s.payloadSize := by simpa [Span.writes] using h2
    have hget : s.offset + headerSize + i < uf2.length := by omega
    simp [Block.writes, Span.writes, toBlock, slice, List.getElem?_eq_getElem hget]

theorem mainWrites_eq {uf2 : List UInt8} {spans : List Span} (h : Uf2.blocks uf2 = .ok spans) :
    mainWrites uf2 spans = imageWrites (spans.map (toBlock uf2)) := by
  rw [mainWrites, imageWrites, List.filter_map, List.flatMap_map]
  apply List.flatMap_congr
  intro s hs
  obtain ⟨hin, hsize, -⟩ := span_of_blocks h (List.mem_of_mem_filter hs)
  exact (writes_toBlock hin hsize).symm

theorem extractImage_eq {uf2 : List UInt8} {bs : List Block} (h : blocks uf2 = .ok bs)
    {start length : Int} (hpos : 0 < length) :
    extractImage uf2 start length = finish start (imageOf start length (imageWrites bs)) := by
  obtain ⟨spans, hspans, rfl⟩ := spans_of_blocks h
  rw [extractImage_of_blocks hspans hpos, mainWrites_eq hspans]

def Block.Covers (b : Block) (x : Nat) : Prop := b.target ≤ x ∧ x < b.target + b.payload.length

def Block.Disjoint (a b : Block) : Prop := ∀ x, ¬ (a.Covers x ∧ b.Covers x)

theorem covers_of_mem_writes {b : Block} {w : Int × UInt8} (h : w ∈ b.writes) :
    ∃ x : Nat, w.1 = x ∧ b.Covers x := by
  obtain ⟨i, hi, hw⟩ := mem_writes.mp h
  obtain ⟨hlt, -⟩ := List.getElem?_eq_some_iff.mp hi
  exact ⟨b.target + i, by rw [hw]; push_cast; rfl, by omega, by omega⟩

theorem nodup_writes (b : Block) : (b.writes.map Prod.fst).Nodup := by
  have hmap : b.writes.map Prod.fst =
      (List.range b.payload.length).map fun i : Nat => ((b.target + i : Int)) := by
    rw [Block.writes, List.map_map, List.range_eq_range', ← List.zipIdx_map_snd 0 b.payload,
      List.map_map]
    rfl
  rw [hmap]
  exact List.nodup_range.map fun i j hij => by simpa using hij

theorem nodup_imageWrites {bs : List Block} (h : (bs.filter Block.isMain).Pairwise Block.Disjoint) :
    ((imageWrites bs).map Prod.fst).Nodup := by
  rw [imageWrites, List.map_flatMap, List.nodup_flatMap]
  refine ⟨fun b _ => nodup_writes b, h.imp ?_⟩
  intro a b hab x hxa hxb
  obtain ⟨w, hw, rfl⟩ := List.mem_map.mp hxa
  obtain ⟨w', hw', heq⟩ := List.mem_map.mp hxb
  obtain ⟨x, hx, hax⟩ := covers_of_mem_writes hw
  obtain ⟨y, hy, hby⟩ := covers_of_mem_writes hw'
  obtain rfl : x = y := by omega
  exact hab x ⟨hax, hby⟩

/-! The erased pages cover the sector and nothing else. -/

theorem mem_erasedPages {flags family address : Nat} {b : Block} :
    b ∈ erasedPages flags family address ↔ ∃ page < 16, b =
      { flags, target := address + pageSize * page, payload := List.replicate pageSize 0xff, family } := by
  simp only [erasedPages, List.mem_map, List.mem_range, eq_comm]
  rfl

theorem erasedPages_isMain {flags family address : Nat} (h : notMainFlash flags = false) {b : Block}
    (hb : b ∈ erasedPages flags family address) : b.isMain := by
  obtain ⟨page, -, rfl⟩ := mem_erasedPages.mp hb
  simpa [Block.isMain] using h

theorem erasedPages_covers {flags family address : Nat} {b : Block}
    (hb : b ∈ erasedPages flags family address) {x : Nat} (hx : b.Covers x) :
    address ≤ x ∧ x < address + sectorSize := by
  obtain ⟨page, hpage, rfl⟩ := mem_erasedPages.mp hb
  obtain ⟨hlo, hhi⟩ := hx
  simp only [List.length_replicate, pageSize, sectorSize] at *
  omega

theorem erasedPages_disjoint (flags family address : Nat) :
    (erasedPages flags family address).Pairwise Block.Disjoint := by
  rw [erasedPages, List.pairwise_map]
  refine List.pairwise_lt_range.imp ?_
  rintro i j hij x ⟨⟨-, hhi⟩, hlo, -⟩
  simp only [List.length_replicate, pageSize] at hhi hlo
  omega

theorem mem_erasedPages_writes {flags family address : Nat} (h : notMainFlash flags = false)
    {i : Nat} (hi : i < sectorSize) :
    ((address + i : Int), (0xff : UInt8)) ∈ imageWrites (erasedPages flags family address) := by
  have hpage : i / pageSize < 16 := by simp only [sectorSize, pageSize] at *; omega
  have hmem : _ ∈ erasedPages flags family address :=
    mem_erasedPages.mpr ⟨i / pageSize, hpage, rfl⟩
  refine mem_imageWrites.mpr ⟨_, hmem, erasedPages_isMain h hmem, mem_writes.mpr
    ⟨i % pageSize, ?_, ?_⟩⟩
  · simp [Nat.mod_lt i (show 0 < pageSize by decide)]
  · simp only [pageSize]
    omega

/-! The whole of `with_erased_sector`. -/

theorem withErasedSector_ok {uf2 out : List UInt8} {address : Nat} {bs : List Block}
    (hbs : blocks uf2 = .ok bs) (h : withErasedSector uf2 address = .ok out) :
    ∃ first rest, bs.filter Block.isMain = first :: rest ∧
      (∀ b ∈ bs.filter Block.isMain, overlaps address b = false) ∧
      writeBlocks (byTarget (bs ++ erasedPages first.flags first.family address)) = .ok out := by
  unfold withErasedSector at h
  split_ifs at h
  rw [hbs] at h
  change extend bs address = .ok out at h
  unfold extend at h
  split at h
  · cases h
  next first rest hmain =>
    split at h
    · cases h
    next hnone =>
      rw [List.find?_eq_none] at hnone
      exact ⟨first, rest, hmain, fun b hb => by simpa using hnone b (hmain ▸ hb), h⟩

theorem byTarget_perm (bs : List Block) : (byTarget bs).Perm bs := List.mergeSort_perm _ _

theorem byTarget_sorted (bs : List Block) :
    (byTarget bs).Pairwise fun a b => a.target ≤ b.target := by
  have htrans : ∀ a b c : Block, decide (a.target ≤ b.target) → decide (b.target ≤ c.target) →
      decide (a.target ≤ c.target) := fun a b c => by simpa using Nat.le_trans
  have h := List.pairwise_mergeSort htrans (fun a b => by simpa using Nat.le_total _ _) bs
  simpa [byTarget] using h

theorem not_covers_of_not_overlaps {address : Nat} {b : Block} (h : overlaps address b = false)
    {x : Nat} (hlo : address ≤ x) (hhi : x < address + sectorSize) : ¬ b.Covers x := by
  rintro ⟨h1, h2⟩
  simp only [overlaps, Bool.and_eq_false_iff, decide_eq_false_iff_not] at h
  omega

theorem writeBlocks_of_fits {ordered : List Block} (h : ∀ b ∈ ordered, b.Fits)
    (hcount : ordered.length < 2 ^ 32) : ∃ out, writeBlocks ordered = .ok out := by
  have hparts : ∀ nb ∈ ordered.zipIdx,
      writeBlock ordered.length nb = .ok (record ordered.length nb) := by
    intro nb hnb
    have hfits := h _ (List.fst_mem_of_mem_zipIdx hnb)
    have hnumber : nb.2 < ordered.length := List.snd_lt_of_mem_zipIdx hnb
    have hpayload : nb.1.payload.length ≤ 476 := hfits.payload
    have hall : (fields ordered.length nb.2 nb.1).all (· < 2 ^ 32) = true := by
      simp only [fields, magicStart0, magicStart1, List.all_cons, List.all_nil, Bool.and_eq_true,
        decide_eq_true_eq, hfits.flags, hfits.target, hfits.family, hcount, and_true, true_and]
      omega
    rw [writeBlock, pack, if_pos hall]
    rfl
  exact ⟨_, by rw [writeBlocks, ExceptList.mapM_ok hparts]; rfl⟩

/-- Which addresses are accepted, for a container that is read. -/
theorem withErasedSector_accepts {uf2 : List UInt8} {address : Nat} {bs : List Block}
    (hbs : blocks uf2 = .ok bs) (hcount : bs.length + 16 < 2 ^ 32) (haddress : address < 2 ^ 32) :
    (∃ out, withErasedSector uf2 address = .ok out) ↔ address % sectorSize = 0 ∧
      bs.filter Block.isMain ≠ [] ∧
      ∀ b ∈ bs.filter Block.isMain, overlaps address b = false := by
  constructor
  · rintro ⟨out, h⟩
    obtain ⟨first, rest, hmain, hclear, -⟩ := withErasedSector_ok hbs h
    refine ⟨?_, by simp [hmain], hclear⟩
    unfold withErasedSector at h
    split_ifs at h with haligned
    exact not_not.mp haligned
  · rintro ⟨haligned, hne, hclear⟩
    obtain ⟨first, rest, hmain⟩ := List.exists_cons_of_ne_nil hne
    have hfirst : first ∈ bs := (List.mem_filter.mp (hmain ▸ List.mem_cons_self)).1
    have hfits := fits_of_blocks hbs hfirst
    have hnone : (first :: rest).find? (overlaps address) = none := by
      rw [List.find?_eq_none, ← hmain]
      exact fun b hb => by simp [hclear b hb]
    have hperm := byTarget_perm (bs ++ erasedPages first.flags first.family address)
    have hwrite : ∃ out, writeBlocks
        (byTarget (bs ++ erasedPages first.flags first.family address)) = .ok out := by
      apply writeBlocks_of_fits
      · intro b hb
        rcases List.mem_append.mp (hperm.mem_iff.mp hb) with hb | hb
        · exact fits_of_blocks hbs hb
        · obtain ⟨page, hpage, rfl⟩ := mem_erasedPages.mp hb
          refine ⟨hfits.flags, ?_, by rw [List.length_replicate]; decide, hfits.family⟩
          simp only [sectorSize, pageSize] at haligned ⊢
          omega
      · rw [hperm.length_eq, List.length_append, erasedPages, List.length_map, List.length_range]
        exact hcount
    obtain ⟨out, hout⟩ := hwrite
    refine ⟨out, ?_⟩
    rw [withErasedSector, if_neg (by omega), hbs]
    change extend bs address = .ok out
    rw [extend, hmain]
    dsimp only
    rw [hnone]
    exact hout

/-- The extended container: what it holds, how it is numbered and ordered, and the image it
carries, which is the input's with the sector erased. -/
theorem withErasedSector_spec {uf2 out : List UInt8} {address : Nat} {bs : List Block}
    (hbs : blocks uf2 = .ok bs) (hdisjoint : (bs.filter Block.isMain).Pairwise Block.Disjoint)
    (h : withErasedSector uf2 address = .ok out) :
    ∃ first ordered spans, (bs.filter Block.isMain).head? = some first ∧
      blocks out = .ok ordered ∧ Uf2.blocks out = .ok spans ∧
      ordered.Perm (bs ++ erasedPages first.flags first.family address) ∧
      ordered.Pairwise (fun a b => a.target ≤ b.target) ∧
      numbers out = (List.range ordered.length).map (fun i => (i, ordered.length)) ∧
      extractImage out address sectorSize = .ok (List.replicate sectorSize 0xff) ∧
      ∀ start length : Int,
        (∀ x : Int, ¬ ((start ≤ x ∧ x < start + length) ∧
          (address ≤ x ∧ x < address + sectorSize))) →
        extractImage out start length = extractImage uf2 start length := by
  obtain ⟨first, rest, hmain, hclear, hwrite⟩ := withErasedSector_ok hbs h
  set pages := erasedPages first.flags first.family address with hpages
  have hfirst : first ∈ bs.filter Block.isMain := hmain ▸ List.mem_cons_self
  have hflags : notMainFlash first.flags = false := by
    simpa [Block.isMain] using (List.mem_filter.mp hfirst).2
  have hperm : (byTarget (bs ++ pages)).Perm (bs ++ pages) := byTarget_perm _
  have hfits : ∀ b ∈ byTarget (bs ++ pages), b.payload.length ≤ maxPayload := by
    intro b hb
    rcases List.mem_append.mp (hperm.mem_iff.mp hb) with hb | hb
    · exact (fits_of_blocks hbs hb).payload
    · obtain ⟨page, -, rfl⟩ := mem_erasedPages.mp hb
      rw [List.length_replicate]
      decide
  have hne : byTarget (bs ++ pages) ≠ [] := by
    intro hnil
    have hmem := hperm.mem_iff.mpr (List.mem_append_left _ (List.mem_filter.mp hfirst).1)
    rw [hnil] at hmem
    cases hmem
  have hblocks := blocks_written hwrite hne hfits
  obtain ⟨spans, hspans, -⟩ := spans_of_blocks hblocks
  -- the writes of the output are the input's and the pages', which nowhere meet
  have hwrites : (imageWrites (byTarget (bs ++ pages))).Perm
      (imageWrites bs ++ imageWrites pages) :=
    imageWrites_append bs pages ▸ imageWrites_perm hperm
  have hapart : ∀ b ∈ bs.filter Block.isMain, ∀ p ∈ pages, Block.Disjoint b p :=
    fun b hb p hp x hx =>
      not_covers_of_not_overlaps (hclear b hb) (erasedPages_covers hp hx.2).1
        (erasedPages_covers hp hx.2).2 hx.1
  have hallmain : pages.filter Block.isMain = pages :=
    List.filter_eq_self.mpr fun p hp => erasedPages_isMain hflags hp
  have hnodup : ((imageWrites (byTarget (bs ++ pages))).map Prod.fst).Nodup := by
    refine ((imageWrites_perm hperm).map Prod.fst).nodup_iff.mpr (nodup_imageWrites ?_)
    rw [List.filter_append, hallmain, List.pairwise_append]
    exact ⟨hdisjoint, erasedPages_disjoint _ _ _, hapart⟩
  refine ⟨first, _, spans, by rw [hmain, List.head?_cons], hblocks, hspans, hperm,
    byTarget_sorted _, numbers_written hwrite hfits, ?_, ?_⟩
  · rw [extractImage_eq hblocks (by decide)]
    refine finish_constant hnodup fun i hi => hwrites.mem_iff.mpr (List.mem_append_right _ ?_)
    exact mem_erasedPages_writes hflags hi
  · intro start length hrange
    by_cases hpos : length ≤ 0
    · rw [extractImage, extractImage, if_pos hpos, if_pos hpos]
    · rw [extractImage_eq hblocks (by omega), extractImage_eq hbs (by omega),
        imageOf_congr hnodup (nodup_imageWrites hdisjoint)]
      intro w hlo hhi
      rw [hwrites.mem_iff, List.mem_append, or_iff_left]
      -- a write of a page is in the sector
      intro hw
      obtain ⟨p, hp, -, hw⟩ := mem_imageWrites.mp hw
      obtain ⟨x, hx, hcovers⟩ := covers_of_mem_writes hw
      obtain ⟨hplo, hphi⟩ := erasedPages_covers hp hcovers
      exact hrange x ⟨by omega, by omega⟩

def twoBlocks : List Block :=
  [{ flags := 1, target := 0x10004000, payload := [1, 2], family := 0xe48bff56 },
   { flags := 0x2000, target := 0x10000100, payload := [3, 4, 5], family := 0xe48bff56 }]

def twoBlocksFile : List UInt8 := twoBlocks.zipIdx.flatMap (record 2)

theorem withErasedSector_spec_twoBlocks :
    ∃ out, withErasedSector twoBlocksFile 0x10004000 = .ok out ∧
      extractImage out 0x10004000 sectorSize = .ok (List.replicate sectorSize 0xff) ∧
      extractImage out 0x10000100 3 = extractImage twoBlocksFile 0x10000100 3 := by
  have hblocks : blocks twoBlocksFile = .ok twoBlocks := by decide +kernel
  have haccepts : ∃ out, withErasedSector twoBlocksFile 0x10004000 = .ok out :=
    (withErasedSector_accepts hblocks (by decide) (by decide)).mpr (by decide)
  obtain ⟨out, h⟩ := haccepts
  obtain ⟨first, ordered, spans, -, -, -, -, -, -, hsector, hothers⟩ :=
    withErasedSector_spec hblocks (by simp [twoBlocks, Block.isMain, notMainFlash]) h
  refine ⟨out, h, hsector, hothers _ _ ?_⟩
  rintro x ⟨⟨hlo, hhi⟩, hlo', -⟩
  norm_num at hlo hhi hlo'
  omega

end McuUpdater.Uf2Erase
