import Mathlib.Data.Finset.Card
import McuUpdater.Lib.Sectors
import McuUpdater.Uf2.Erase

/-! `uf2_erase.py`: what the boot ROM that the module describes makes of a container. It erases
a sector as the address moves into it, leaves the others as they are, and reboots once it has
seen as many distinct block numbers as a block claims there are. -/
namespace McuUpdater.Uf2Erase
open Bytes Uf2 Sectors

structure Received where
  block : Block
  number : Nat
  count : Nat
  deriving DecidableEq

def receivedAt (uf2 : List UInt8) (offset : Nat) : Option Received :=
  match readBlock uf2 offset with
  | .ok block => some ⟨block, word uf2 (offset + 20), word uf2 (offset + 24)⟩
  | .error _ => none

/-- The blocks of a file, in its order; what is no block is passed over. -/
def received (uf2 : List UInt8) : List Received := (offsets uf2).filterMap (receivedAt uf2)

structure Rom where
  flash : Store Int Int UInt8
  seen : List Nat := []
  rebooted : Bool := false

def sectorOf (x : Int) : Int := x / sectorSize

def Rom.receive (rom : Rom) (r : Received) : Rom :=
  if rom.rebooted then rom
  else
    let seen := rom.seen.insert r.number
    { flash := if r.block.isMain then r.block.writes.foldl (write sectorOf 0xff) rom.flash
        else rom.flash
      seen, rebooted := seen.length = r.count }

/-- A board in BOOTSEL with this in its flash, given these blocks. -/
def romRun (flash : Int → UInt8) (l : List Received) : Rom :=
  l.foldl Rom.receive { flash := ⟨flash, []⟩ }

def blocksOf (l : List Received) : List Block := l.map Received.block

def distinct (l : List Received) : Nat := (l.map Received.number).toFinset.card

section Facts
variable {flash : Int → UInt8} {l : List Received} {r : Received} {n : Nat} {uf2 : List UInt8}
  {bs : List Block} {b : Block}

theorem romRun_concat : romRun flash (l ++ [r]) = (romRun flash l).receive r := by
  simp [romRun]

theorem imageWrites_concat : imageWrites (bs ++ [b]) =
    imageWrites bs ++ if b.isMain then b.writes else [] := by
  cases hb : b.isMain <;> simp [imageWrites, hb]

theorem blocksOf_concat : blocksOf (l ++ [r]) = blocksOf l ++ [r.block] := by
  simp [blocksOf]

theorem distinct_concat_le : distinct (l ++ [r]) ≤ distinct l + 1 := by
  rw [distinct, distinct, List.map_append, List.toFinset_append]
  exact Finset.card_union_le _ _

theorem distinct_le_concat : distinct l ≤ distinct (l ++ [r]) := by
  rw [distinct, distinct, List.map_append, List.toFinset_append]
  exact Finset.card_le_card Finset.subset_union_left

/-- What a ROM that has not rebooted has done: all that it was given. -/
structure Working (flash : Int → UInt8) (l : List Received) (rom : Rom) : Prop where
  flash : rom.flash = run sectorOf 0xff flash (imageWrites (blocksOf l))
  seen : ∀ k, k ∈ rom.seen ↔ k ∈ l.map Received.number
  nodup : rom.seen.Nodup

theorem flash_receive {rom : Rom} (h : rom.rebooted = false)
    (hflash : rom.flash = run sectorOf 0xff flash (imageWrites (blocksOf l))) :
    (rom.receive r).flash = run sectorOf 0xff flash (imageWrites (blocksOf (l ++ [r]))) := by
  rw [Rom.receive, h, blocksOf_concat, imageWrites_concat, run, List.foldl_append]
  cases r.block.isMain with
  | true => simp [hflash, run]
  | false => simp [hflash, run]

theorem working_receive {rom : Rom} (h : rom.rebooted = false) (hworking : Working flash l rom) :
    Working flash (l ++ [r]) (rom.receive r) := by
  refine ⟨flash_receive h hworking.flash, fun k => ?_, ?_⟩
  · rw [Rom.receive, h]
    simp [hworking.seen k, or_comm]
  · rw [Rom.receive, h]
    exact hworking.nodup.insert

theorem length_seen {rom : Rom} (h : Working flash l rom) : rom.seen.length = distinct l := by
  have hset : rom.seen.toFinset = (l.map Received.number).toFinset := by
    ext k
    rw [List.mem_toFinset, List.mem_toFinset, h.seen k]
  rw [distinct, ← hset, List.toFinset_card_of_nodup h.nodup]

/-- With one count throughout, the ROM reboots at the block that brings the numbers up to it,
and has written what it was given until then. -/
theorem romRun_spec (hn : 0 < n) (hcount : ∀ r ∈ l, r.count = n) :
    ((romRun flash l).rebooted = true ↔ n ≤ distinct l) ∧
    (distinct l < n → Working flash l (romRun flash l)) := by
  induction l using List.reverseRecOn with
  | nil => exact ⟨by simp [romRun, distinct]; omega, fun _ => ⟨rfl, by simp [romRun], by simp [romRun]⟩⟩
  | append_singleton l r ih =>
    have hr : r.count = n := hcount r (by simp)
    have hstep := distinct_concat_le (l := l) (r := r)
    have hmono := distinct_le_concat (l := l) (r := r)
    obtain ⟨hreboot, hworking⟩ := ih fun r hr => hcount r (by simp [hr])
    rw [romRun_concat]
    by_cases hdone : n ≤ distinct l
    · have hstay : (romRun flash l).receive r = romRun flash l := by
        rw [Rom.receive, if_pos (hreboot.mpr hdone)]
      rw [hstay]
      exact ⟨⟨fun _ => by omega, fun _ => hreboot.mpr hdone⟩, fun h => by omega⟩
    · have hnot : (romRun flash l).rebooted = false := by
        rw [← Bool.not_eq_true, hreboot]
        exact hdone
      have hnext := working_receive (r := r) hnot (hworking (by omega))
      refine ⟨?_, fun _ => hnext⟩
      have hlength := length_seen hnext
      have hrebooted : ((romRun flash l).receive r).rebooted =
          decide (((romRun flash l).receive r).seen.length = n) := by
        rw [Rom.receive, hnot, ← hr]
        rfl
      rw [hrebooted, hlength, decide_eq_true_eq]
      omega

theorem flash_of_last (hn : 0 < n) (hcount : ∀ r ∈ l, r.count = n) (hr : r.count = n)
    (h : distinct l < n) :
    (romRun flash (l ++ [r])).flash =
      run sectorOf 0xff flash (imageWrites (blocksOf (l ++ [r]))) := by
  obtain ⟨hreboot, hworking⟩ := @romRun_spec flash l n hn hcount
  have hnot : (romRun flash l).rebooted = false := by
    rw [← Bool.not_eq_true, hreboot]
    omega
  rw [romRun_concat]
  exact flash_receive hnot (hworking h).flash

theorem rebooted_at (hn : 0 < n) (hcount : ∀ r ∈ l, r.count = n)
    (h : (romRun flash l).rebooted = true) :
    ∃ taken rest, l = taken ++ rest ∧ n ≤ distinct taken ∧
      (romRun flash l).flash = run sectorOf 0xff flash (imageWrites (blocksOf taken)) := by
  induction l using List.reverseRecOn with
  | nil => simp [romRun] at h
  | append_singleton l r ih =>
    have hbefore : ∀ r ∈ l, r.count = n := fun r hr => hcount r (by simp [hr])
    by_cases hdone : (romRun flash l).rebooted = true
    · obtain ⟨taken, rest, rfl, hall, hflash⟩ := ih hbefore hdone
      refine ⟨taken, rest ++ [r], by simp, hall, ?_⟩
      rw [romRun_concat, Rom.receive, if_pos hdone, hflash]
    · have hfew : distinct l < n := by
        rw [(romRun_spec hn hbefore).1] at hdone
        omega
      exact ⟨l ++ [r], [], by simp, (romRun_spec hn hcount).1.mp h,
        flash_of_last hn hbefore (hcount r (by simp)) hfew⟩

/-- A sector that no block is for is left as it is, whatever the numbers say. -/
theorem romRun_untouched {x : Int}
    (h : ∀ w ∈ imageWrites (blocksOf l), sectorOf w.1 ≠ sectorOf x) :
    (romRun flash l).flash.cells x = flash x := by
  induction l using List.reverseRecOn with
  | nil => rfl
  | append_singleton l r ih =>
    rw [blocksOf_concat, imageWrites_concat] at h
    have hbefore := ih fun w hw => h w (List.mem_append_left _ hw)
    rw [romRun_concat, Rom.receive]
    split
    · exact hbefore
    · dsimp only
      split
      · rename_i hmain
        rw [foldl_write_untouched fun w hw => h w (List.mem_append_right _ (by simpa [hmain] using hw)),
          hbefore]
      · exact hbefore

end Facts

/-! ## The blocks of a file -/

section Files
variable {uf2 out : List UInt8} {bs ordered pages : List Block} {a b : Block}

theorem blocksOf_received (h : blocks uf2 = .ok bs) : blocksOf (received uf2) = bs := by
  unfold blocks at h
  split_ifs at h
  unfold received
  generalize offsets uf2 = l at h
  induction l generalizing bs with
  | nil =>
    cases h
    rfl
  | cons offset l ih =>
    obtain ⟨b, rest, hb, hrest, rfl⟩ := ExceptList.mapM_cons_ok h
    have hhead : receivedAt uf2 offset =
        some ⟨b, word uf2 (offset + 20), word uf2 (offset + 24)⟩ := by
      rw [receivedAt, hb]
    rw [List.filterMap_cons, hhead, blocksOf, List.map_cons]
    exact congrArg (b :: ·) (ih hrest)

/-- Block `i` of what is written. -/
def numbered (ordered : List Block) (i : Nat) : Received :=
  ⟨ordered.getD i default, i, ordered.length⟩

theorem received_written (h : writeBlocks ordered = .ok out)
    (hfits : ∀ b ∈ ordered, b.payload.length ≤ maxPayload) :
    received out = (List.range ordered.length).map (numbered ordered) := by
  rw [received, offsets_written h hfits, List.filterMap_map, ← List.filterMap_eq_map]
  apply List.filterMap_congr
  intro i hi
  rw [List.mem_range] at hi
  have hnumber := word_written h hfits hi (k := 5) (by decide)
  have hcount := word_written h hfits hi (k := 6) (by decide)
  simp only [fields, List.getElem_cons_zero, List.getElem_cons_succ, Nat.reduceMul]
    at hnumber hcount
  simp [receivedAt, readBlock_written h hfits hi, hnumber, hcount, numbered, hi]

theorem blocksOf_numbered : blocksOf ((List.range ordered.length).map (numbered ordered)) = ordered := by
  apply List.ext_getElem
  · simp [blocksOf]
  · intro i h1 h2
    simp [blocksOf, numbered, h2]

theorem distinct_numbered (n : Nat) : distinct ((List.range n).map (numbered ordered)) = n := by
  have hnumbers : ((List.range n).map (numbered ordered)).map Received.number = List.range n := by
    rw [List.map_map]
    exact List.map_id _
  rw [distinct, hnumbers, List.toFinset_card_of_nodup List.nodup_range, List.length_range]

theorem flash_written (flash : Int → UInt8) (hne : ordered ≠ []) :
    (romRun flash ((List.range ordered.length).map (numbered ordered))).flash =
      run sectorOf 0xff flash (imageWrites ordered) := by
  obtain ⟨n, hn⟩ := Nat.exists_eq_succ_of_ne_zero (List.length_pos_iff.mpr hne).ne'
  have hall := @blocksOf_numbered ordered
  rw [hn, Nat.succ_eq_add_one, List.range_succ, List.map_append, List.map_singleton] at hall ⊢
  have hcount : ∀ r ∈ (List.range n).map (numbered ordered), r.count = n + 1 := by
    intro r hr
    obtain ⟨i, -, rfl⟩ := List.mem_map.mp hr
    exact hn
  rw [flash_of_last (Nat.succ_pos n) hcount hn (by rw [distinct_numbered]; omega), hall]

section Landed
variable {bytes : List UInt8} {offset : Nat}

theorem receivedAt_isPrefix (h : bytes <+: out) (hfit : offset + blockSize ≤ bytes.length) :
    receivedAt out offset = receivedAt bytes offset := by
  have hword : ∀ k, k + 4 ≤ blockSize →
      word out (offset + k) = word bytes (offset + k) := fun k hk =>
    word_isPrefix h (by omega)
  have hread : readBlock out offset = readBlock bytes offset := by
    have hstart := hword 0 (by decide)
    have hend : word out (offset + blockSize - 4) =
        word bytes (offset + blockSize - 4) :=
      word_isPrefix h (by simp only [blockSize] at hfit ⊢; omega)
    rw [Nat.add_zero] at hstart
    unfold readBlock
    rw [hstart, hword 4 (by decide), hword 8 (by decide), hword 12 (by decide),
      hword 16 (by decide), hword 28 (by decide), hend]
    dsimp only
    split_ifs with hmagic hsize
    · rfl
    · rfl
    · rw [slice_isPrefix h]
      simp only [blockSize, headerSize, maxPayload] at hfit hsize ⊢
      omega
  rw [receivedAt, receivedAt, hread, hword 20 (by decide), hword 24 (by decide)]

theorem received_isPrefix (h : bytes <+: out) : received bytes <+: received out := by
  have hlength := Nat.div_le_div_right (c := blockSize) h.length_le
  have hoffsets : offsets bytes <+: offsets out := by
    rw [offsets, offsets]
    refine List.IsPrefix.map _ ?_
    obtain ⟨k, hk⟩ := Nat.exists_eq_add_of_le hlength
    rw [hk, List.range_add]
    exact List.prefix_append _ _
  have hsame : received bytes = (offsets bytes).filterMap (receivedAt out) := by
    refine List.filterMap_congr fun offset hoffset => ?_
    obtain ⟨i, hi, rfl⟩ := List.mem_map.mp hoffset
    have hi := Nat.mul_le_mul_left blockSize (List.mem_range.mp hi)
    have hdiv := Nat.mul_div_le bytes.length blockSize
    exact (receivedAt_isPrefix h (by rw [Nat.succ_eq_add_one, Nat.mul_add] at hi; omega)).symm
  rw [hsame]
  exact hoffsets.filterMap _

end Landed

theorem imageWrites_increasing (hsorted : bs.Pairwise fun a b => a.target ≤ b.target)
    (hdisjoint : (bs.filter Block.isMain).Pairwise Block.Disjoint) :
    (imageWrites bs).Pairwise fun a b => a.1 < b.1 := by
  rw [imageWrites, List.pairwise_flatMap]
  refine ⟨fun b _ => ?_, ?_⟩
  · rw [Block.writes, List.pairwise_map, List.pairwise_iff_getElem]
    intro i j hi hj hij
    simpa using hij
  · refine ((hsorted.filter _).and hdisjoint).imp ?_
    rintro a b ⟨hle, hab⟩ u hu v hv
    obtain ⟨i, hi, hu⟩ := mem_writes.mp hu
    obtain ⟨j, hj, hv⟩ := mem_writes.mp hv
    have hi := (List.getElem?_eq_some_iff.mp hi).1
    have hj := (List.getElem?_eq_some_iff.mp hj).1
    -- where the second block begins, the first one has ended
    have hend : a.target + a.payload.length ≤ b.target := by
      by_contra hlt
      exact hab b.target ⟨⟨hle, by omega⟩, ⟨le_refl _, by omega⟩⟩
    omega

theorem sectorOf_mono {x y : Int} (h : x ≤ y) : sectorOf x ≤ sectorOf y :=
  Int.ediv_le_ediv (by decide) h

/-- In any order, and with any repeats: the ROM reboots once it has been given every block. -/
theorem rebooted_iff_all (flash : Int → UInt8) (hne : ordered ≠ []) {l : List Received}
    (hl : l ⊆ (List.range ordered.length).map (numbered ordered)) :
    (romRun flash l).rebooted = true ↔ (List.range ordered.length).map (numbered ordered) ⊆ l := by
  have hcount : ∀ r ∈ l, r.count = ordered.length := by
    intro r hr
    obtain ⟨i, -, rfl⟩ := List.mem_map.mp (hl hr)
    rfl
  rw [(romRun_spec (List.length_pos_iff.mpr hne) hcount).1]
  constructor
  · intro hall r hr
    obtain ⟨i, hi, rfl⟩ := List.mem_map.mp hr
    have hsub : (l.map Received.number).toFinset ⊆ Finset.range ordered.length := by
      intro k hk
      obtain ⟨r, hr, rfl⟩ := List.mem_map.mp (List.mem_toFinset.mp hk)
      obtain ⟨j, hj, rfl⟩ := List.mem_map.mp (hl hr)
      exact Finset.mem_range.mpr (List.mem_range.mp hj)
    have heq := Finset.eq_of_subset_of_card_le hsub (by rw [Finset.card_range]; exact hall)
    have hmem : i ∈ (l.map Received.number).toFinset := by
      rw [heq, Finset.mem_range]
      exact List.mem_range.mp hi
    obtain ⟨r, hin, hnumber⟩ := List.mem_map.mp (List.mem_toFinset.mp hmem)
    obtain ⟨j, -, rfl⟩ := List.mem_map.mp (hl hin)
    obtain rfl : j = i := hnumber
    exact hin
  · intro hsub
    have hcard : distinct ((List.range ordered.length).map (numbered ordered)) ≤ distinct l :=
      Finset.card_le_card fun k hk =>
        List.mem_toFinset.mpr (List.map_subset _ hsub (List.mem_toFinset.mp hk))
    rwa [distinct_numbered] at hcard

end Files

/-! ## The container with its erased sector -/

/-- A board that has taken the whole of the extended container, in its order. -/
structure Blanked (bs : List Block) (address : Nat) (flash : Int → UInt8) (rom : Rom) : Prop where
  sector : ∀ x, sectorOf x = sectorOf address → rom.flash.cells x = 0xff
  image : (bs.filter Block.isMain).Pairwise Block.Disjoint →
    ∀ w ∈ imageWrites bs, rom.flash.cells w.1 = w.2
  once : (bs.filter Block.isMain).Pairwise Block.Disjoint → rom.flash.erased.Nodup
  kept : ∀ x, sectorOf x ≠ sectorOf address →
    (∀ w ∈ imageWrites bs, sectorOf w.1 ≠ sectorOf x) → rom.flash.cells x = flash x

/-- What `with_erased_sector` wrote, and of which blocks. -/
structure Extension (bs : List Block) (address : Nat) (out : List UInt8) where
  first : Block
  mem : first ∈ bs.filter Block.isMain
  aligned : address % sectorSize = 0
  fits : ∀ b ∈ bs, b.payload.length ≤ maxPayload
  clear : ∀ b ∈ bs.filter Block.isMain, overlaps address b = false
  written : writeBlocks (byTarget (bs ++ erasedPages first.flags first.family address)) = .ok out

section Extended
variable {bs : List Block} {address : Nat} {flags family : Nat} {x : Int} {uf2 out : List UInt8}
  {l : List Received}

theorem extension_of_ok (h : withErasedSector uf2 address = .ok out) :
    ∃ bs, blocks uf2 = .ok bs ∧ Nonempty (Extension bs address out) := by
  have haligned : address % sectorSize = 0 := by
    unfold withErasedSector at h
    split_ifs at h with haligned
    exact not_not.mp haligned
  obtain ⟨bs, hbs⟩ : ∃ bs, blocks uf2 = .ok bs := by
    rw [withErasedSector, if_neg (by simpa using haligned)] at h
    obtain ⟨bs, hbs, -⟩ := ExceptList.bind_ok h
    exact ⟨bs, hbs⟩
  obtain ⟨first, rest, hmain, hclear, hwrite⟩ := withErasedSector_ok hbs h
  exact ⟨bs, hbs, ⟨first, hmain ▸ List.mem_cons_self, haligned,
    fun b hb => (fits_of_blocks hbs hb).payload, hclear, hwrite⟩⟩

theorem sectorOf_eq_iff (h : address % sectorSize = 0) :
    sectorOf x = sectorOf address ↔ address ≤ x ∧ x < address + sectorSize := by
  simp only [sectorOf, sectorSize] at *
  omega

theorem sectorOf_page {w : Int × UInt8} (h : address % sectorSize = 0)
    (hw : w ∈ imageWrites (erasedPages flags family address)) :
    sectorOf w.1 = sectorOf address ∧ w.2 = 0xff := by
  obtain ⟨p, hp, -, hw⟩ := mem_imageWrites.mp hw
  obtain ⟨y, hy, hcovers⟩ := covers_of_mem_writes hw
  obtain ⟨hlo, hhi⟩ := erasedPages_covers hp hcovers
  refine ⟨(sectorOf_eq_iff h).mpr (by omega), ?_⟩
  obtain ⟨i, hi, -⟩ := mem_writes.mp hw
  obtain ⟨page, -, rfl⟩ := mem_erasedPages.mp hp
  exact (List.eq_of_mem_replicate (List.mem_of_getElem? hi))

theorem sectorOf_image {w : Int × UInt8} (h : address % sectorSize = 0)
    (hclear : ∀ b ∈ bs.filter Block.isMain, overlaps address b = false)
    (hw : w ∈ imageWrites bs) : sectorOf w.1 ≠ sectorOf address := by
  obtain ⟨b, hb, hmain, hw⟩ := mem_imageWrites.mp hw
  obtain ⟨y, hy, hcovers⟩ := covers_of_mem_writes hw
  intro he
  obtain ⟨hlo, hhi⟩ := (sectorOf_eq_iff h).mp he
  exact not_covers_of_not_overlaps (hclear b (List.mem_filter.mpr ⟨hb, hmain⟩)) (by omega)
    (by omega) hcovers

namespace Extension
variable (e : Extension bs address out)
include e

def ordered : List Block := byTarget (bs ++ erasedPages e.first.flags e.first.family address)

theorem perm : e.ordered.Perm (bs ++ erasedPages e.first.flags e.first.family address) :=
  byTarget_perm _

theorem first_flags : notMainFlash e.first.flags = false := by
  simpa [Block.isMain] using (List.mem_filter.mp e.mem).2

theorem ordered_ne_nil : e.ordered ≠ [] :=
  List.ne_nil_of_mem (e.perm.mem_iff.mpr (List.mem_append_left _ (List.mem_filter.mp e.mem).1))

theorem received_eq : received out = (List.range e.ordered.length).map (numbered e.ordered) := by
  refine received_written e.written fun b hb => ?_
  rcases List.mem_append.mp (e.perm.mem_iff.mp hb) with hb | hb
  · exact e.fits b hb
  · obtain ⟨page, -, rfl⟩ := mem_erasedPages.mp hb
    rw [List.length_replicate]
    decide

theorem mem_writes_ordered (w : Int × UInt8) : w ∈ imageWrites e.ordered ↔
    w ∈ imageWrites bs ∨ w ∈ imageWrites (erasedPages e.first.flags e.first.family address) := by
  rw [(imageWrites_perm e.perm).mem_iff, imageWrites_append, List.mem_append]

theorem blank_of_sector {w : Int × UInt8} (hw : w ∈ imageWrites e.ordered)
    (hsector : sectorOf w.1 = sectorOf address) : w.2 = 0xff := by
  rcases (e.mem_writes_ordered w).mp hw with hw | hw
  · exact absurd hsector (sectorOf_image e.aligned e.clear hw)
  · exact (sectorOf_page e.aligned hw).2

theorem writes_sector : ∃ w ∈ imageWrites e.ordered, sectorOf w.1 = sectorOf address :=
  ⟨_, (e.mem_writes_ordered _).mpr
    (Or.inr (mem_erasedPages_writes e.first_flags (i := 0) (by decide))), by simp⟩

theorem disjoint_ordered (h : (bs.filter Block.isMain).Pairwise Block.Disjoint) :
    (e.ordered.filter Block.isMain).Pairwise Block.Disjoint := by
  have hsymm : ∀ {a b : Block}, a.Disjoint b → b.Disjoint a := fun h x hx => h x ⟨hx.2, hx.1⟩
  have hall : (erasedPages e.first.flags e.first.family address).filter Block.isMain =
      erasedPages e.first.flags e.first.family address :=
    List.filter_eq_self.mpr fun p hp => erasedPages_isMain e.first_flags hp
  rw [(e.perm.filter _).pairwise_iff hsymm, List.filter_append, hall, List.pairwise_append]
  refine ⟨h, erasedPages_disjoint _ _ _, fun b hb p hp x hx => ?_⟩
  exact not_covers_of_not_overlaps (e.clear b hb) (erasedPages_covers hp hx.2).1
    (erasedPages_covers hp hx.2).2 hx.1

theorem increasing (h : (bs.filter Block.isMain).Pairwise Block.Disjoint) :
    (imageWrites e.ordered).Pairwise fun a b => a.1 < b.1 :=
  imageWrites_increasing (byTarget_sorted _) (e.disjoint_ordered h)

theorem blanked (flash : Int → UInt8) : Blanked bs address flash (romRun flash (received out)) := by
  rw [e.received_eq]
  constructor <;> rw [flash_written flash e.ordered_ne_nil]
  case sector =>
    intro x hx
    exact cells_of_blank (hx ▸ e.writes_sector) fun w hw hsector =>
      e.blank_of_sector hw (hsector.trans hx)
  case image =>
    intro hdisjoint w hw
    have hlt := e.increasing hdisjoint
    exact cells_of_ordered (hlt.imp fun hab => sectorOf_mono (le_of_lt hab))
      (List.pairwise_map.mpr (hlt.imp ne_of_lt)) ((e.mem_writes_ordered w).mpr (Or.inl hw))
  case once =>
    intro hdisjoint
    exact nodup_erased_run ((e.increasing hdisjoint).imp fun hab => sectorOf_mono (le_of_lt hab))
  case kept =>
    intro x hx hkept
    refine foldl_write_untouched fun w hw => ?_
    rcases (e.mem_writes_ordered w).mp hw with hw | hw
    · exact hkept w hw
    · rw [(sectorOf_page e.aligned hw).1]
      exact Ne.symm hx

theorem rebooted_iff (flash : Int → UInt8) (hl : l ⊆ received out) :
    (romRun flash l).rebooted = true ↔ received out ⊆ l := by
  rw [e.received_eq] at hl ⊢
  exact rebooted_iff_all flash e.ordered_ne_nil hl

theorem sector_of_rebooted {flash : Int → UInt8} (hl : l ⊆ received out)
    (h : (romRun flash l).rebooted = true) (hx : sectorOf x = sectorOf address) :
    (romRun flash l).flash.cells x = 0xff := by
  rw [e.received_eq] at hl
  have hcount : ∀ r ∈ l, r.count = e.ordered.length := by
    intro r hr
    obtain ⟨i, -, rfl⟩ := List.mem_map.mp (hl hr)
    rfl
  have hpos := List.length_pos_iff.mpr e.ordered_ne_nil
  obtain ⟨taken, rest, rfl, hall, hflash⟩ := rebooted_at hpos hcount h
  have htaken : taken ⊆ (List.range e.ordered.length).map (numbered e.ordered) := fun r hr =>
    hl (List.mem_append_left _ hr)
  -- by then every block has been taken, those of the sector among them
  have hcomplete := (rebooted_iff_all flash e.ordered_ne_nil htaken).mp
    ((romRun_spec hpos fun r hr => hcount r (List.mem_append_left _ hr)).1.mpr hall)
  have hblocks : ∀ b, b ∈ blocksOf taken ↔ b ∈ e.ordered := by
    intro b
    rw [← @blocksOf_numbered e.ordered]
    exact ⟨fun hb => List.map_subset _ htaken hb, fun hb => List.map_subset _ hcomplete hb⟩
  have hwrites : ∀ w, w ∈ imageWrites (blocksOf taken) ↔ w ∈ imageWrites e.ordered := by
    intro w
    rw [mem_imageWrites, mem_imageWrites]
    simp only [hblocks]
  obtain ⟨w, hw, hsector⟩ := e.writes_sector
  rw [hflash]
  exact cells_of_blank ⟨w, (hwrites w).mpr hw, hsector.trans hx.symm⟩ fun w hw hsector =>
    e.blank_of_sector ((hwrites w).mp hw) (hsector.trans hx)

end Extension

end Extended

/-- The extended container blanks the sector, which the container alone leaves as it was, and
writes the rest of the image as it is where its blocks do not overlap; the board reboots only when
it has all of it, and then with the sector blank. -/
theorem rom_blanks_application {uf2 out : List UInt8} {address : Nat}
    (h : withErasedSector uf2 address = .ok out) (flash : Int → UInt8) :
    ∃ bs, blocks uf2 = .ok bs ∧ Blanked bs address flash (romRun flash (received out)) ∧
      (∀ l ⊆ received out, ((romRun flash l).rebooted = true ↔ received out ⊆ l) ∧
        ((romRun flash l).rebooted = true →
          ∀ x, sectorOf x = sectorOf address → (romRun flash l).flash.cells x = 0xff)) ∧
      ∀ l ⊆ received uf2, ∀ x, sectorOf x = sectorOf address →
        (romRun flash l).flash.cells x = flash x := by
  obtain ⟨bs, hbs, ⟨e⟩⟩ := extension_of_ok h
  refine ⟨bs, hbs, e.blanked flash, fun l hl => ⟨e.rebooted_iff flash hl, fun hreboot x hx =>
    e.sector_of_rebooted hl hreboot hx⟩, fun l hl x hx => romRun_untouched fun w hw => ?_⟩
  obtain ⟨b, hb, hmain, hw⟩ := mem_imageWrites.mp hw
  have hmem : w ∈ imageWrites bs := by
    rw [← blocksOf_received hbs]
    exact mem_imageWrites.mpr ⟨b, List.map_subset _ hl hb, hmain, hw⟩
  rw [hx]
  exact sectorOf_image e.aligned e.clear hmem

theorem rom_blanks_application_twoBlocks :
    ∃ out, withErasedSector twoBlocksFile 0x10004000 = .ok out ∧
      (romRun (fun _ => 7) (received out)).rebooted = true ∧
      (romRun (fun _ => 7) (received out)).flash.cells 0x10004080 = 0xff ∧
      (romRun (fun _ => 7) (received out)).flash.cells 0x10000101 = 4 ∧
      (romRun (fun _ => 7) (received out)).flash.cells 0x10008000 = 7 ∧
      (romRun (fun _ => 7) (received twoBlocksFile)).flash.cells 0x10004080 = 7 := by
  have hblocks : blocks twoBlocksFile = .ok twoBlocks := by decide +kernel
  have haccepts : ∃ out, withErasedSector twoBlocksFile 0x10004000 = .ok out :=
    (withErasedSector_accepts hblocks (by decide) (by decide)).mpr (by decide)
  have hwrites : imageWrites twoBlocks =
      [(0x10000100, 3), (0x10000101, 4), (0x10000102, 5)] := by decide
  obtain ⟨out, h⟩ := haccepts
  obtain ⟨bs, hbs, hblanked, hruns, hstale⟩ := rom_blanks_application h fun _ => 7
  rw [hblocks] at hbs
  cases hbs
  have hreboot := (hruns _ (List.Subset.refl _)).1.mpr (List.Subset.refl _)
  refine ⟨out, h, hreboot, hblanked.sector _ (by decide), ?_, ?_,
    hstale _ (List.Subset.refl _) _ (by decide)⟩
  · exact hblanked.image (by simp [twoBlocks, Block.isMain, notMainFlash]) (0x10000101, 4)
      (by simp [hwrites])
  · exact hblanked.kept _ (by decide) (by rw [hwrites]; decide)

end McuUpdater.Uf2Erase
