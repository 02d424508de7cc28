import Mathlib.Order.Bounds.Basic
import McuUpdater.Lib.Except
import McuUpdater.Uf2.Container

/-! `uf2.py`: the flash range a container fills, and the digest fields recorded of it. -/
namespace McuUpdater.Uf2
open Bytes Overlay ExceptList

def digestCrc32IsoHdlc : Nat := 1

/-- One bit of the reflected polynomial. -/
def crcShift (crc : UInt32) : UInt32 :=
  if crc &&& 1 = 1 then (crc >>> 1) ^^^ 0xEDB88320 else crc >>> 1

def crcByte (crc : UInt32) (b : UInt8) : UInt32 := crcShift^[8] (crc ^^^ b.toUInt32)

/-- `crc32_iso_hdlc` -/
def crc32IsoHdlc (data : List UInt8) : UInt32 := data.foldl crcByte 0xFFFFFFFF ^^^ 0xFFFFFFFF

example : crc32IsoHdlc ("123456789".toList.map fun c => UInt8.ofNat c.toNat) = 0xCBF43926 := by
  decide +kernel

/-- The addresses a block with a payload fills: from the first, and up to the second. -/
def flashSpans (spans : List Span) : List (Nat × Nat) :=
  (spans.filter fun s => !notMainFlash s.flags && s.payloadSize ≠ 0).map fun s =>
    (s.target, s.target + s.payloadSize)

/-- `image_extent` -/
def imageExtent (uf2 : List UInt8) : Except String (Nat × Nat) := do
  let spans ← blocks uf2
  match flashSpans spans with
  | [] => .error "UF2 has no flash blocks"
  | span :: rest =>
    let start := rest.foldl (fun low s => min low s.1) span.1
    .ok (start, rest.foldl (fun high s => max high s.2) span.2 - start)

/-- `image_digest` -/
def imageDigest (uf2 : List UInt8) (start length : Int) (algorithm : Nat) : Except String UInt32 :=
  if algorithm ≠ digestCrc32IsoHdlc then .error s!"unsupported digest algorithm {algorithm}"
  else (extractImage uf2 start length).map crc32IsoHdlc

/-- A staged file: no path for it, one that cannot be read, or its bytes. -/
abbrev BinFile := Option (Option (List UInt8))

/-- `_linked_length` -/
def linkedLength (uf2 : List UInt8) (start length : Nat) : BinFile → Except String Nat
  | none | some none => .ok length
  | some (some linked) =>
    if linked = [] ∨ length < linked.length then .ok length
    else do
      let image ← extractImage uf2 start linked.length
      if image ≠ linked then .ok length else .ok linked.length

structure DigestFields where
  digestAlgorithm : Nat
  digest : UInt32
  imageStart : Nat
  imageLength : Nat
deriving DecidableEq

inductive Raised
  | osError
  | uf2Error (message : String)
  | structError
deriving DecidableEq

/-- The body of the `try` of `digest_fields`; a file that cannot be read has no bytes. -/
def describe (file : Option (List UInt8)) (bin : BinFile) : Except Raised DigestFields := do
  let data ← file.elim (.error .osError) .ok
  let (start, extent) ← (imageExtent data).mapError .uf2Error
  let length ← (linkedLength data start extent bin).mapError .uf2Error
  let digest ← (imageDigest data start length digestCrc32IsoHdlc).mapError .uf2Error
  return { digestAlgorithm := digestCrc32IsoHdlc, digest, imageStart := start, imageLength := length }

/-- `digest_fields`, with `none` for the empty answer. -/
def digestFields (file : Option (List UInt8)) (bin : BinFile) :
    Except Raised (Option DigestFields) :=
  match describe file bin with
  | .ok fields => .ok (some fields)
  | .error .osError | .error (.uf2Error _) | .error .structError => .ok none

/-! ## What a container places -/

def span (uf2 : List UInt8) (offset : Nat) : Span where
  offset
  flags := word uf2 (offset + 8)
  target := word uf2 (offset + 12)
  payloadSize := word uf2 (offset + 16)

def spans (uf2 : List UInt8) : List Span := (offsets uf2).map (span uf2)

structure GoodBlock (uf2 : List UInt8) (offset : Nat) : Prop where
  magic0 : word uf2 offset = magicStart0
  magic1 : word uf2 (offset + 4) = magicStart1
  magicAtEnd : word uf2 (offset + blockSize - 4) = magicEnd
  payload : word uf2 (offset + 16) ≤ maxPayload

structure WellFormed (uf2 : List UInt8) : Prop where
  nonempty : uf2 ≠ []
  wholeBlocks : uf2.length % blockSize = 0
  blocks : ∀ offset ∈ offsets uf2, GoodBlock uf2 offset

/-- The address map that the payloads of the main flash blocks are written to in turn. -/
def placed (uf2 : List UInt8) : Int → Option UInt8 := memory (mainWrites uf2 (spans uf2))

variable {uf2 image : List UInt8} {offset : Nat} {start length : Int}

theorem readSpan_ok {s : Span} :
    readSpan uf2 offset = .ok s ↔ GoodBlock uf2 offset ∧ s = span uf2 offset := by
  unfold readSpan
  dsimp only
  split_ifs with hmagic hpayload
  · refine iff_of_false (fun h => (by cases h)) fun ⟨h, _⟩ => ?_
    rcases hmagic with hne | hne | hne
    exacts [hne h.magic0, hne h.magic1, hne h.magicAtEnd]
  · exact iff_of_false (fun h => (by cases h)) fun ⟨h, _⟩ => absurd h.payload (by omega)
  · simp only [not_or, not_not] at hmagic
    have hgood : GoodBlock uf2 offset := ⟨hmagic.1, hmagic.2.1, hmagic.2.2, by omega⟩
    rw [and_iff_right hgood]
    exact ⟨fun h => (Except.ok.inj h).symm, fun h => congrArg Except.ok h.symm⟩

theorem blocks_ok {out : List Span} : blocks uf2 = .ok out ↔ WellFormed uf2 ∧ out = spans uf2 := by
  unfold blocks
  split_ifs with hsize
  · refine iff_of_false (fun h => (by cases h)) fun ⟨h, _⟩ => ?_
    rcases hsize with hmod | hnil
    exacts [hmod h.wholeBlocks, h.nonempty hnil]
  · simp only [not_or, not_not] at hsize
    constructor
    · intro h
      refine ⟨⟨hsize.2, hsize.1, fun offset hoffset => ?_⟩, ?_⟩
      · obtain ⟨s, hs⟩ := ok_of_mapM h hoffset
        exact (readSpan_ok.mp hs).1
      · exact eq_map_of_mapM h fun _ _ _ hs => (readSpan_ok.mp hs).2
    · rintro ⟨h, rfl⟩
      exact mapM_ok fun offset hoffset => readSpan_ok.mpr ⟨h.blocks offset hoffset, rfl⟩

theorem finish_ok {n : Nat} {writes : List (Int × UInt8)} :
    finish start (imageOf start n writes) = .ok image ↔
      window (memory writes) start n = some image := by
  have hlength : (imageOf start n writes).image.length = n := by simp [imageOf]
  have himage : ∀ i < n, (imageOf start n writes).image[i]? =
      some ((memory writes (start + (i : Nat))).getD 0) := fun i hi => by
    rw [imageOf, getElem?_foldl_put_memory (by simpa using hi)]
    simp
  have hcovered : ∀ i < n, (imageOf start n writes).covered[i]? =
      some (memory writes (start + (i : Nat))).isSome := fun i hi => by
    rw [imageOf, getElem?_foldl_put_memory (by simpa using hi), memory_map fun _ => true]
    cases memory writes (start + (i : Nat)) <;> simp
  rw [window_eq_some]
  cases hgap : (imageOf start n writes).covered.idxOf? false with
  | some missing =>
    rw [finish, hgap]
    refine iff_of_false (fun h => (by cases h)) fun hwindow => ?_
    obtain ⟨himg, hall⟩ := hwindow
    obtain ⟨hlt, hfalse, -⟩ := List.idxOf?_eq_some_iff.mp hgap
    have hmissing : missing < n := by simpa [imageOf] using hlt
    have hgone : memory writes (start + (missing : Nat)) = none := by
      have hflag := hcovered missing hmissing
      rw [List.getElem?_eq_getElem hlt, hfalse] at hflag
      simpa using (Option.some.inj hflag).symm
    have hsome := hall missing hmissing
    rw [hgone, List.getElem?_eq_getElem (by omega)] at hsome
    cases hsome
  | none =>
    rw [finish, hgap]
    have hall : ∀ i < n, (memory writes (start + (i : Nat))).isSome = true := fun i hi => by
      have hmem := List.mem_of_getElem? (hcovered i hi)
      have hno := List.idxOf?_eq_none_iff.mp hgap
      cases hb : (memory writes (start + (i : Nat))).isSome with
      | true => rfl
      | false => exact absurd (hb ▸ hmem) hno
    have hread : ∀ i < n, memory writes (start + (i : Nat)) =
        (imageOf start n writes).image[i]? := fun i hi => by
      obtain ⟨b, hb⟩ := Option.isSome_iff_exists.mp (hall i hi)
      rw [himage i hi, hb]
      rfl
    constructor
    · intro h
      obtain rfl := Except.ok.inj h
      exact ⟨hlength, hread⟩
    · rintro ⟨himg, heq⟩
      refine congrArg Except.ok (List.ext_getElem? fun i => ?_)
      by_cases hi : i < n
      · rw [← heq i hi, hread i hi]
      · rw [List.getElem?_eq_none (by omega), List.getElem?_eq_none (by omega)]

theorem extractImage_ok : extractImage uf2 start length = .ok image ↔
    0 < length ∧ WellFormed uf2 ∧ window (placed uf2) start length.toNat = some image := by
  by_cases hpos : length ≤ 0
  · rw [extractImage, if_pos hpos]
    exact iff_of_false (fun h => (by cases h)) fun h => absurd h.1 (by omega)
  obtain ⟨n, rfl⟩ := Int.eq_ofNat_of_zero_le (show 0 ≤ length by omega)
  rw [and_iff_right (by omega), Int.toNat_natCast]
  by_cases hwell : WellFormed uf2
  · rw [extractImage_of_blocks (blocks_ok.mpr ⟨hwell, rfl⟩) (by omega), and_iff_right hwell]
    exact finish_ok
  · refine iff_of_false (fun h => ?_) fun h => hwell h.1
    rw [extractImage, if_neg hpos] at h
    obtain ⟨_, hblocks, -⟩ := bind_ok h
    exact hwell (blocks_ok.mp hblocks).1

theorem extractImage_error (hpos : 0 < length) : (∃ e, extractImage uf2 start length = .error e) ↔
    ¬ WellFormed uf2 ∨ ∃ i < length.toNat, placed uf2 (start + (i : Nat)) = none := by
  rw [← window_eq_none]
  cases hresult : extractImage uf2 start length with
  | ok image =>
    obtain ⟨-, hwell, hwindow⟩ := extractImage_ok.mp hresult
    simp [hwell, hwindow]
  | error e =>
    refine iff_of_true ⟨e, rfl⟩ ?_
    by_contra hno
    simp only [not_or, not_not] at hno
    obtain ⟨image, himage⟩ := Option.ne_none_iff_exists'.mp hno.2
    have hok : extractImage uf2 start length = .ok image := extractImage_ok.mpr ⟨hpos, hno.1, himage⟩
    rw [hok] at hresult
    cases hresult

/-! ## The extent -/

theorem placed_isSome {a : Int} : (placed uf2 a).isSome ↔
    ∃ s ∈ flashSpans (spans uf2), (s.1 : Int) ≤ a ∧ a < s.2 := by
  rw [placed, memory_isSome]
  constructor
  · rintro ⟨w, hw, rfl⟩
    obtain ⟨s, hs, hw⟩ := List.mem_flatMap.mp hw
    obtain ⟨i, hi, rfl⟩ := List.mem_map.mp hw
    obtain ⟨hs, hmain⟩ := List.mem_filter.mp hs
    rw [List.mem_range] at hi
    have hsize : s.payloadSize ≠ 0 := by omega
    refine ⟨(s.target, s.target + s.payloadSize), List.mem_map.mpr ⟨s, List.mem_filter.mpr
      ⟨hs, ?_⟩, rfl⟩, ?_, ?_⟩
    · simpa [hsize] using hmain
    · dsimp only
      omega
    · dsimp only
      omega
  · rintro ⟨_, hspan, hlow, hhigh⟩
    obtain ⟨s, hs, rfl⟩ := List.mem_map.mp hspan
    obtain ⟨hs, hmain⟩ := List.mem_filter.mp hs
    simp only [Bool.and_eq_true] at hmain
    dsimp only at hlow hhigh
    refine ⟨(a, uf2.getD (s.offset + headerSize + (a - s.target).toNat) 0), List.mem_flatMap.mpr
      ⟨s, List.mem_filter.mpr ⟨hs, hmain.1⟩, List.mem_map.mpr ⟨(a - s.target).toNat, ?_, ?_⟩⟩, rfl⟩
    · rw [List.mem_range]
      omega
    · congr 1
      omega

theorem foldl_min_spec {α β : Type*} [LinearOrder β] (f : α → β) (l : List α) (m : β) :
    (l.foldl (fun low a => min low (f a)) m = m ∨
      ∃ a ∈ l, l.foldl (fun low a => min low (f a)) m = f a) ∧
    l.foldl (fun low a => min low (f a)) m ≤ m ∧
      ∀ a ∈ l, l.foldl (fun low a => min low (f a)) m ≤ f a := by
  induction l generalizing m with
  | nil => simp
  | cons a l ih =>
    obtain ⟨hmem, hm, hall⟩ := ih (min m (f a))
    rw [List.foldl_cons]
    refine ⟨?_, hm.trans (min_le_left _ _), List.forall_mem_cons.mpr
      ⟨hm.trans (min_le_right _ _), hall⟩⟩
    rcases hmem with he | ⟨b, hb, he⟩
    · rcases min_choice m (f a) with hmin | hmin
      · exact .inl (he.trans hmin)
      · exact .inr ⟨a, List.mem_cons_self, he.trans hmin⟩
    · exact .inr ⟨b, List.mem_cons_of_mem _ hb, he⟩

theorem foldl_max_spec {α β : Type*} [LinearOrder β] (f : α → β) (l : List α) (m : β) :
    (l.foldl (fun high a => max high (f a)) m = m ∨
      ∃ a ∈ l, l.foldl (fun high a => max high (f a)) m = f a) ∧
    m ≤ l.foldl (fun high a => max high (f a)) m ∧
      ∀ a ∈ l, f a ≤ l.foldl (fun high a => max high (f a)) m :=
  foldl_min_spec (β := βᵒᵈ) f l m

theorem lt_of_mem_flashSpans {l : List Span} {s : Nat × Nat} (h : s ∈ flashSpans l) : s.1 < s.2 := by
  obtain ⟨s, hs, rfl⟩ := List.mem_map.mp h
  have hsize := (List.mem_filter.mp hs).2
  simp only [Bool.and_eq_true, decide_eq_true_eq] at hsize
  dsimp only
  omega

theorem imageExtent_ok {start length : Nat} (h : imageExtent uf2 = .ok (start, length)) :
    WellFormed uf2 ∧ IsLeast {a | (placed uf2 a).isSome} (start : Int) ∧
      IsGreatest {a | (placed uf2 a).isSome} (start + length - 1 : Int) := by
  obtain ⟨out, hblocks, h⟩ := bind_ok h
  obtain ⟨hwell, rfl⟩ := blocks_ok.mp hblocks
  refine ⟨hwell, ?_⟩
  have hlt : ∀ s ∈ flashSpans (spans uf2), s.1 < s.2 := fun s hs => lt_of_mem_flashSpans hs
  have hplaced := @placed_isSome uf2
  cases hspans : flashSpans (spans uf2) with
  | nil =>
    rw [hspans] at h
    cases h
  | cons s rest =>
    rw [hspans] at h hlt
    simp only [hspans] at hplaced
    obtain ⟨hlowMem, hlow, hlowAll⟩ := foldl_min_spec Prod.fst rest s.1
    obtain ⟨hhighMem, hhigh, hhighAll⟩ := foldl_max_spec Prod.snd rest s.2
    cases h
    set low := rest.foldl (fun low s => min low s.1) s.1
    set high := rest.foldl (fun high s => max high s.2) s.2
    have hlowHead : ∃ t ∈ s :: rest, low = t.1 := by
      rcases hlowMem with he | ⟨t, ht, he⟩
      exacts [⟨s, List.mem_cons_self, he⟩, ⟨t, List.mem_cons_of_mem _ ht, he⟩]
    have hhighHead : ∃ t ∈ s :: rest, high = t.2 := by
      rcases hhighMem with he | ⟨t, ht, he⟩
      exacts [⟨s, List.mem_cons_self, he⟩, ⟨t, List.mem_cons_of_mem _ ht, he⟩]
    have hlowAll : ∀ t ∈ s :: rest, low ≤ t.1 := List.forall_mem_cons.mpr ⟨hlow, hlowAll⟩
    have hhighAll : ∀ t ∈ s :: rest, t.2 ≤ high := List.forall_mem_cons.mpr ⟨hhigh, hhighAll⟩
    refine ⟨⟨?_, fun a ha => ?_⟩, ?_, fun a ha => ?_⟩
    · obtain ⟨t, ht, he⟩ := hlowHead
      have hspan := hlt t ht
      exact hplaced.mpr ⟨t, ht, by omega, by omega⟩
    · obtain ⟨t, ht, hta, -⟩ := hplaced.mp ha
      have := hlowAll t ht
      omega
    · obtain ⟨t, ht, he⟩ := hhighHead
      have hspan := hlt t ht
      have hle := hlowAll t ht
      exact hplaced.mpr ⟨t, ht, by omega, by omega⟩
    · obtain ⟨t, ht, -, hta⟩ := hplaced.mp ha
      have hle := hhighAll t ht
      have hlow' := hlowAll t ht
      have hspan := hlt t ht
      omega

/-! ## The fields -/

theorem mapError_ok {ε ε' α : Type} {f : ε → ε'} {x : Except ε α} {a : α}
    (h : x.mapError f = .ok a) : x = .ok a := by
  cases x with
  | error e => cases h
  | ok b => exact congrArg Except.ok (Except.ok.inj h)

theorem linkedLength_ok {start extent length : Nat} {bin : BinFile}
    (h : linkedLength uf2 start extent bin = .ok length) : length = extent ∨
      ∃ linked, bin = some (some linked) ∧ linked.length = length ∧ length ≤ extent ∧
        extractImage uf2 start linked.length = .ok linked := by
  unfold linkedLength at h
  split at h
  · exact .inl (Except.ok.inj h).symm
  · exact .inl (Except.ok.inj h).symm
  · next linked =>
    split_ifs at h with hsize
    · exact .inl (Except.ok.inj h).symm
    · obtain ⟨image, himage, h⟩ := bind_ok h
      split_ifs at h with hsame
      · exact .inl (Except.ok.inj h).symm
      · simp only [not_or, not_lt] at hsize
        simp only [ne_eq, not_not] at hsame
        cases h
        exact .inr ⟨linked, rfl, rfl, hsize.2, hsame ▸ himage⟩

theorem digestFields_total (file : Option (List UInt8)) (bin : BinFile) :
    ∃ answer, digestFields file bin = .ok answer := by
  unfold digestFields
  split <;> exact ⟨_, rfl⟩

/-- What the fields say of the image the container places. -/
structure Describes (uf2 : List UInt8) (bin : BinFile) (fields : DigestFields) : Prop where
  wellFormed : WellFormed uf2
  algorithm : fields.digestAlgorithm = digestCrc32IsoHdlc
  start : IsLeast {a | (placed uf2 a).isSome} (fields.imageStart : Int)
  extent : ∃ last : Int, IsGreatest {a | (placed uf2 a).isSome} last ∧
    fields.imageStart + fields.imageLength ≤ last + 1 ∧
    (fields.imageStart + fields.imageLength < last + 1 → ∃ linked, bin = some (some linked) ∧
      window (placed uf2) fields.imageStart fields.imageLength = some linked)
  digest : ∃ image, window (placed uf2) fields.imageStart fields.imageLength = some image ∧
    fields.digest = crc32IsoHdlc image

theorem digestFields_some {file : Option (List UInt8)} {bin : BinFile} {fields : DigestFields}
    (h : digestFields file bin = .ok (some fields)) :
    ∃ uf2, file = some uf2 ∧ Describes uf2 bin fields := by
  have hdescribe : describe file bin = .ok fields := by
    unfold digestFields at h
    split at h
    · next heq => exact heq.trans (congrArg Except.ok (Option.some.inj (Except.ok.inj h)))
    all_goals cases h
  obtain ⟨uf2, hfile, h⟩ := bind_ok hdescribe
  obtain ⟨⟨start, extent⟩, hextent, h⟩ := bind_ok h
  obtain ⟨length, hlength, h⟩ := bind_ok h
  obtain ⟨digest, hdigest, h⟩ := bind_ok h
  obtain rfl := Except.ok.inj h
  have hsome : file = some uf2 := by
    cases file with
    | none => cases hfile
    | some data => exact congrArg some (Except.ok.inj hfile)
  obtain ⟨hwell, hleast, hgreatest⟩ := imageExtent_ok (mapError_ok hextent)
  have hextract : ∃ image, extractImage uf2 start length = .ok image ∧ digest = crc32IsoHdlc image := by
    have hdigest := mapError_ok hdigest
    rw [imageDigest, if_neg (by simp)] at hdigest
    cases himage : extractImage uf2 start length with
    | error e =>
      rw [himage] at hdigest
      cases hdigest
    | ok image =>
      rw [himage] at hdigest
      exact ⟨image, rfl, (Except.ok.inj hdigest).symm⟩
  obtain ⟨image, himage, rfl⟩ := hextract
  have hwindow := (extractImage_ok.mp himage).2.2
  rw [Int.toNat_natCast] at hwindow
  refine ⟨uf2, hsome, hwell, rfl, hleast, ⟨_, hgreatest, ?_, ?_⟩, image, hwindow, rfl⟩
  · rcases linkedLength_ok (mapError_ok hlength) with rfl | ⟨linked, -, -, hle, -⟩
    · dsimp only
      omega
    · dsimp only
      omega
  · intro hlt
    rcases linkedLength_ok (mapError_ok hlength) with rfl | ⟨linked, hbin, rfl, -, hlinked⟩
    · dsimp only at hlt
      omega
    · have hlinked := (extractImage_ok.mp hlinked).2.2
      rw [Int.toNat_natCast] at hlinked
      exact ⟨linked, hbin, hlinked⟩

/-- An image is read out of a container just where the container is well formed and places every
byte of the range, and what is recorded of a container is true of the image it places. -/
theorem extract_and_digest_spec (uf2 : List UInt8) :
    (∀ start length : Int, 0 < length → (∀ image, extractImage uf2 start length = .ok image ↔
        WellFormed uf2 ∧ window (placed uf2) start length.toNat = some image) ∧
      ((∃ e, extractImage uf2 start length = .error e) ↔
        ¬ WellFormed uf2 ∨ ∃ i < length.toNat, placed uf2 (start + (i : Nat)) = none)) ∧
      ∀ bin, (∃ answer, digestFields (some uf2) bin = .ok answer) ∧
        ∀ fields, digestFields (some uf2) bin = .ok (some fields) → Describes uf2 bin fields := by
  refine ⟨fun start length hpos => ⟨fun image => ?_, extractImage_error hpos⟩, fun bin =>
    ⟨digestFields_total _ bin, fun fields h => ?_⟩⟩
  · rw [extractImage_ok, and_iff_right hpos]
  · obtain ⟨_, hfile, hdescribes⟩ := digestFields_some h
    exact Option.some.inj hfile ▸ hdescribes

def oneBlock : List UInt8 :=
  [magicStart0, magicStart1, 0, 0x10000000, 3, 0, 1, 0].flatMap (encode 4) ++ [1, 2, 3] ++
    List.replicate 473 0 ++ encode 4 magicEnd

theorem extract_and_digest_spec_oneBlock :
    window (placed oneBlock) 0x10000001 2 = some [2, 3] ∧
      (∃ e, extractImage oneBlock 0x10000001 3 = .error e) ∧
      Describes oneBlock (some (some [1, 2])) ⟨1, 0xB6CC4292, 0x10000000, 2⟩ := by
  obtain ⟨hextract, hdigest⟩ := extract_and_digest_spec oneBlock
  have himage : extractImage oneBlock 0x10000001 2 = .ok [2, 3] := by decide +kernel
  have hgap : placed oneBlock (0x10000001 + (2 : Nat)) = none := by decide +kernel
  have hfields : digestFields (some oneBlock) (some (some [1, 2])) =
      .ok (some ⟨1, 0xB6CC4292, 0x10000000, 2⟩) := by decide +kernel
  exact ⟨(((hextract _ _ (by decide)).1 _).mp himage).2,
    (hextract _ _ (by decide)).2.mpr (.inr ⟨2, by decide, hgap⟩), (hdigest _).2 _ hfields⟩

end McuUpdater.Uf2
