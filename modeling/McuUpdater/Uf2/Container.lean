import McuUpdater.Lib.Bytes
import McuUpdater.Lib.Overlay

/-! `uf2.py`: the blocks of a UF2 container and the flash image they carry. -/
namespace McuUpdater.Uf2
open Bytes

def blockSize : Nat := 512
def headerSize : Nat := 32
def maxPayload : Nat := blockSize - headerSize - 4
def magicStart0 : Nat := 0x0A324655
def magicStart1 : Nat := 0x9E5D5157
def magicEnd : Nat := 0x0AB16F30

/-- `flags & UF2_FLAG_NOT_MAIN_FLASH`, which is bit 0. -/
def notMainFlash (flags : Nat) : Bool := flags.testBit 0

/-- `{n:#x}`, padded with zeros to `width` digits. -/
def hex (width n : Nat) : String :=
  "0x" ++ String.ofList ((Nat.toDigits 16 n).leftpad width '0')

/-- `{n:#010x}` -/
def hex8 : Int → String
  | .ofNat n => hex 8 n
  | .negSucc n => "-" ++ hex 7 (n + 1)

def badLength (uf2 : List UInt8) : String :=
  s!"not a UF2 container: {uf2.length} bytes is not a positive multiple of {blockSize}"

def badMagic (offset : Nat) : String := s!"block at byte {offset} has bad magic"

def badPayload (offset size : Nat) : String :=
  s!"block at byte {offset} claims a {size}-byte payload"

/-- `range(0, len(uf2), UF2_BLOCK_SIZE)` -/
def offsets (uf2 : List UInt8) : List Nat :=
  (List.range (uf2.length / blockSize)).map (blockSize * ·)

/-- What `_blocks` yields for a block: `(offset, flags, target, payload_size)`. -/
structure Span where
  offset : Nat
  flags : Nat
  target : Nat
  payloadSize : Nat
deriving DecidableEq

/-- The body of the loop of `_blocks`. -/
def readSpan (uf2 : List UInt8) (offset : Nat) : Except String Span :=
  let flags := word uf2 (offset + 8)
  let target := word uf2 (offset + 12)
  let payloadSize := word uf2 (offset + 16)
  if word uf2 offset ≠ magicStart0 ∨ word uf2 (offset + 4) ≠ magicStart1
      ∨ word uf2 (offset + blockSize - 4) ≠ magicEnd then .error (badMagic offset)
  else if maxPayload < payloadSize then .error (badPayload offset payloadSize)
  else .ok { offset, flags, target, payloadSize }

/-- `uf2._blocks` -/
def blocks (uf2 : List UInt8) : Except String (List Span) :=
  if uf2.length % blockSize ≠ 0 ∨ uf2 = [] then .error (badLength uf2)
  else (offsets uf2).mapM (readSpan uf2)

/-- The two arrays of `extract_image`. -/
structure Image where
  image : List UInt8
  covered : List Bool

/-- One turn of the inner loop of `extract_image`. -/
def place (uf2 : List UInt8) (start length : Int) (s : Span) (img : Image) (index : Nat) : Image :=
  let slot : Int := s.target + index - start
  if 0 ≤ slot ∧ slot < length then
    { image := img.image.set slot.toNat (uf2.getD (s.offset + headerSize + index) 0)
      covered := img.covered.set slot.toNat true }
  else img

def placeSpan (uf2 : List UInt8) (start length : Int) (img : Image) (s : Span) : Image :=
  if notMainFlash s.flags then img
  else (List.range s.payloadSize).foldl (place uf2 start length s) img

/-- The end of `extract_image`: a gap is an error. -/
def finish (start : Int) (img : Image) : Except String (List UInt8) :=
  match img.covered.idxOf? false with
  | some missing =>
    .error s!"UF2 does not cover the whole image: no block supplies {hex8 (start + missing)}"
  | none => .ok img.image

def extractImage (uf2 : List UInt8) (start length : Int) : Except String (List UInt8) := do
  if length ≤ 0 then
    .error s!"image length must be positive, got {length}"
  else
    let spans ← blocks uf2
    finish start (spans.foldl (placeSpan uf2 start length)
      { image := List.replicate length.toNat 0, covered := List.replicate length.toNat false })

/-! A span as the writes it makes, and a whole image as the writes of its main blocks. -/

def Span.writes (uf2 : List UInt8) (s : Span) : List (Int × UInt8) :=
  (List.range s.payloadSize).map fun (index : Nat) =>
    ((s.target + index : Int), uf2.getD (s.offset + headerSize + index) 0)

def mainWrites (uf2 : List UInt8) (spans : List Span) : List (Int × UInt8) :=
  (spans.filter fun s => !notMainFlash s.flags).flatMap (Span.writes uf2)

/-- The image that a list of writes leaves in the window `[start, start + length)`. -/
def imageOf (start length : Int) (writes : List (Int × UInt8)) : Image where
  image := writes.foldl (Overlay.put start) (List.replicate length.toNat 0)
  covered := (writes.map fun w => (w.1, true)).foldl (Overlay.put start)
    (List.replicate length.toNat false)

def Image.put (start : Int) (img : Image) (w : Int × UInt8) : Image where
  image := Overlay.put start img.image w
  covered := Overlay.put start img.covered (w.1, true)

theorem foldl_imagePut (start : Int) (writes : List (Int × UInt8)) (img : Image) :
    writes.foldl (Image.put start) img =
      { image := writes.foldl (Overlay.put start) img.image
        covered := (writes.map fun w => (w.1, true)).foldl (Overlay.put start) img.covered } := by
  induction writes generalizing img with
  | nil => rfl
  | cons w writes ih =>
    rw [List.foldl_cons, ih]
    rfl

/-- Both arrays keep the length that was asked for. -/
def Image.Fits (length : Int) (img : Image) : Prop :=
  (img.image.length : Int) = length ∧ (img.covered.length : Int) = length

theorem Image.Fits.put {start length : Int} {img : Image} (h : img.Fits length)
    (w : Int × UInt8) : (img.put start w).Fits length := by
  simpa [Image.Fits, Image.put] using h

theorem Image.Fits.puts {start length : Int} {img : Image} (h : img.Fits length)
    (writes : List (Int × UInt8)) : (writes.foldl (Image.put start) img).Fits length := by
  rw [foldl_imagePut]
  simpa [Image.Fits] using h

theorem place_eq {uf2 : List UInt8} {start length : Int} {s : Span} {img : Image}
    (h : img.Fits length) (index : Nat) :
    place uf2 start length s img index =
      img.put start (s.target + index, uf2.getD (s.offset + headerSize + index) 0) := by
  simp only [place, Image.put, Overlay.put, h.1, h.2]
  split <;> rfl

theorem foldl_place {uf2 : List UInt8} {start length : Int} {s : Span} {img : Image}
    (h : img.Fits length) (indices : List Nat) :
    indices.foldl (place uf2 start length s) img =
      (indices.map fun (index : Nat) => ((s.target + index : Int),
        uf2.getD (s.offset + headerSize + index) 0)).foldl (Image.put start) img := by
  induction indices generalizing img with
  | nil => rfl
  | cons index indices ih =>
    rw [List.foldl_cons, place_eq h, ih (h.put _), List.map_cons, List.foldl_cons]

theorem foldl_placeSpan {uf2 : List UInt8} {start length : Int} {img : Image}
    (h : img.Fits length) (spans : List Span) :
    spans.foldl (placeSpan uf2 start length) img =
      (mainWrites uf2 spans).foldl (Image.put start) img := by
  induction spans generalizing img with
  | nil => rfl
  | cons s spans ih =>
    rw [List.foldl_cons, placeSpan, mainWrites, List.filter_cons]
    cases hmain : notMainFlash s.flags with
    | true =>
      rw [if_pos rfl, ih h]
      rfl
    | false =>
      rw [if_neg Bool.false_ne_true, foldl_place h, ih (h.puts _)]
      simp [mainWrites, Span.writes, List.foldl_append]

theorem extractImage_of_blocks {uf2 : List UInt8} {spans : List Span}
    (h : blocks uf2 = .ok spans) {start length : Int} (hpos : 0 < length) :
    extractImage uf2 start length =
      finish start (imageOf start length (mainWrites uf2 spans)) := by
  have hfits : Image.Fits length { image := List.replicate length.toNat 0
                                   covered := List.replicate length.toNat false } := by
    simp [Image.Fits]
    omega
  rw [extractImage, if_neg (by omega), h]
  change finish start _ = _
  rw [foldl_placeSpan hfits, foldl_imagePut, imageOf]

theorem imageOf_congr {start length : Int} {writes writes' : List (Int × UInt8)}
    (hnodup : (writes.map Prod.fst).Nodup) (hnodup' : (writes'.map Prod.fst).Nodup)
    (h : ∀ w : Int × UInt8, start ≤ w.1 → w.1 < start + length → (w ∈ writes ↔ w ∈ writes')) :
    imageOf start length writes = imageOf start length writes' := by
  have hmap : ∀ ws : List (Int × UInt8),
      (ws.map fun w => (w.1, true)).map Prod.fst = ws.map Prod.fst := fun ws => by simp
  have himage := Overlay.foldl_put_congr start (List.replicate length.toNat 0) hnodup hnodup' fun w hlo hhi =>
      h w hlo (by simp at hhi; omega)
  have hcovered := Overlay.foldl_put_congr start (List.replicate length.toNat false)
    ((hmap writes).symm ▸ hnodup)
    ((hmap writes').symm ▸ hnodup') fun w hlo hhi => by
      have hin : ∀ x : UInt8, (w.1, x) ∈ writes ↔ (w.1, x) ∈ writes' := fun x =>
        h (w.1, x) hlo (by simp at hhi ⊢; omega)
      obtain ⟨a, b⟩ := w
      simpa using fun _ => exists_congr hin
  rw [imageOf, himage, hcovered, imageOf]

/-- A window whose every byte is written as `b` is all `b`. -/
theorem finish_constant {start : Int} {n : Nat} {b : UInt8} {writes : List (Int × UInt8)}
    (hnodup : (writes.map Prod.fst).Nodup)
    (h : ∀ i < n, (start + (i : Nat), b) ∈ writes) :
    finish start (imageOf start n writes) = .ok (List.replicate n b) := by
  have himage : (imageOf start n writes).image = List.replicate n b := by
    apply List.ext_getElem?
    intro i
    by_cases hi : i < n
    · rw [imageOf, Overlay.getElem?_foldl_put hnodup (by simpa using hi) (h i hi)]
      simp [hi]
    · rw [List.getElem?_eq_none (by simp [imageOf]; omega),
        List.getElem?_eq_none (by simp; omega)]
  have hcovered : (imageOf start n writes).covered = List.replicate n true := by
    apply List.ext_getElem?
    intro i
    by_cases hi : i < n
    · rw [imageOf, Overlay.getElem?_foldl_put (a := true) (by simpa [Function.comp_def] using hnodup)
        (by simpa using hi) (List.mem_map.mpr ⟨_, h i hi, rfl⟩)]
      simp [hi]
    · rw [List.getElem?_eq_none (by simp [imageOf]; omega),
        List.getElem?_eq_none (by simp; omega)]
  rw [finish, hcovered, himage, List.idxOf?_eq_none_iff.mpr (by simp)]

end McuUpdater.Uf2
