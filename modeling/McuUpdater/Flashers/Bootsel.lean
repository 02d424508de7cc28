import McuUpdater.Discovery.Bootsel
import McuUpdater.Uf2.Digest

/-! `flashers/bootsel.py`: the copy of an image to a mounted BOOTSEL volume, and the write that
finds the volume. What the file system and the helper do is given; what is reported is left out. -/
namespace McuUpdater.Flashers
open PyText Bootsel

/-! ## The copy -/

/-- How `_copy_bytes` goes: the image, and what each of its calls comes to. -/
structure CopyRun where
  image : List UInt8
  imageOpens : Bool
  destOpens : Bool
  /-- the read of this turn raises -/
  readRaises : Nat → Bool
  /-- what each `write` in turn takes at most, `none` where it raises; further ones take all -/
  writes : List (Option Nat)
  syncRaises : Bool
  closeRaises : Bool

/-- `_COPY_CHUNK` -/
def copyChunk : Nat := 2 ^ 20

/-- What `read(size)` returns turn by turn until it returns nothing. -/
def chunks (size : Nat) : Nat → List UInt8 → List (List UInt8)
  | 0, _ => []
  | fuel + 1, data => if data = [] then [] else data.take size :: chunks size fuel (data.drop size)

structure Written where
  landed : List UInt8
  left : List (Option Nat)
  complete : Bool

/-- `while view: view = view[out.write(view):]` -/
def writeView : List UInt8 → List (Option Nat) → Written
  | [], left => ⟨[], left, true⟩
  | view, [] => ⟨view, [], true⟩
  | _, none :: left => ⟨[], left, false⟩
  | view, some n :: left =>
    let rest := writeView (view.drop n) left
    ⟨view.take n ++ rest.landed, rest.left, rest.complete⟩

/-- The loop of `_copy_bytes`: what has landed, and whether it came to its end. -/
def copyLoop (readRaises : Nat → Bool) : Nat → List (List UInt8) → List (Option Nat) →
    List UInt8 × Bool
  | turn, [], _ => ([], !readRaises turn)
  | turn, chunk :: rest, writes =>
    if readRaises turn then ([], false)
    else
      let written := writeView chunk writes
      if written.complete then
        let later := copyLoop readRaises (turn + 1) rest written.left
        (written.landed ++ later.1, later.2)
      else (written.landed, false)

inductive CopyEnd
  | done
  /-- `_VolumeVanished` -/
  | vanished
  | failed
  deriving DecidableEq

/-- `_copy_bytes`; nothing lands where the files do not open. -/
def copyBytes (c : CopyRun) : Option (List UInt8) × CopyEnd :=
  if !c.imageOpens || !c.destOpens then (none, .failed)
  else
    let copied := copyLoop c.readRaises 0 (chunks copyChunk c.image.length c.image) c.writes
    if copied.2 then (some copied.1, if c.syncRaises || c.closeRaises then .vanished else .done)
    else (some copied.1, .failed)

/-- What the file system says of the image and the destination, `none` where it raises. -/
structure SameFile where
  destExists : Option Bool
  samefile : Option Bool
  samePath : Option Bool

/-- `_same_file` -/
def sameFile (s : SameFile) : Bool :=
  if s.destExists = some true && s.samefile = some true then true else s.samePath.getD false

/-- One look at the volume after the copy. -/
structure VolumeLook where
  mounted : Bool
  late : Bool

/-- `_wait_for_apply`; with no look left it still waits. -/
def waitForApply : List VolumeLook → Option Bool
  | [] => none
  | look :: looks =>
    if !look.mounted then some true else if look.late then some false else waitForApply looks

structure CopyCall extends CopyRun where
  imageExists : Bool
  files : SameFile
  looks : List VolumeLook

inductive CopyError
  | noImage
  | ontoItself
  | notWritten
  deriving DecidableEq

/-- How long the board is given, in seconds, and whether its volume went. -/
structure Applied where
  timeout : Nat
  gone : Option Bool
  deriving DecidableEq

structure Copied where
  landed : Option (List UInt8)
  result : Except CopyError Applied

def applyTimeout : Nat := 60
def applyTimeoutAfterError : Nat := 10

/-- `copy_uf2` -/
def copyUf2 (c : CopyCall) : Copied :=
  if !c.imageExists then ⟨none, .error .noImage⟩
  else if sameFile c.files then ⟨none, .error .ontoItself⟩
  else
    match copyBytes c.toCopyRun with
    | (landed, .failed) => ⟨landed, .error .notWritten⟩
    | (landed, .vanished) => ⟨landed, .ok ⟨applyTimeoutAfterError, waitForApply c.looks⟩⟩
    | (landed, .done) => ⟨landed, .ok ⟨applyTimeout, waitForApply c.looks⟩⟩

/-- What lands is the start of the image, and a copy that returns has landed all of it. -/
structure CopySound (c : CopyCall) : Prop where
  prefix_image : ∀ bytes ∈ (copyUf2 c).landed, bytes <+: c.image
  whole : ∀ applied, (copyUf2 c).result = .ok applied → (copyUf2 c).landed = some c.image
  outstanding : ∀ e, (copyUf2 c).result = .error e → (∀ turn, c.readRaises turn = false) →
    (copyUf2 c).landed ≠ some c.image
  untouched : sameFile c.files = true → (copyUf2 c).landed = none

section Facts
variable {view : List UInt8} {writes : List (Option Nat)} {parts : List (List UInt8)}
  {readRaises : Nat → Bool} {turn : Nat}

theorem flatten_chunks {size fuel : Nat} {data : List UInt8} (hsize : 0 < size)
    (hfuel : data.length ≤ fuel) : (chunks size fuel data).flatten = data := by
  induction fuel generalizing data with
  | zero =>
    obtain rfl : data = [] := List.length_eq_zero_iff.mp (by omega)
    rfl
  | succ fuel ih =>
    rw [chunks]
    split_ifs with h
    · rw [h]
      rfl
    · have hpos : 0 < data.length := List.length_pos_iff.mpr h
      rw [List.flatten_cons, ih (by rw [List.length_drop]; omega), List.take_append_drop]

theorem writeView_spec (view : List UInt8) (writes : List (Option Nat)) :
    (writeView view writes).landed <+: view ∧
    ((writeView view writes).complete = true ↔ (writeView view writes).landed = view) := by
  induction writes generalizing view with
  | nil => cases view <;> exact ⟨List.prefix_refl _, by simp [writeView]⟩
  | cons outcome writes ih =>
    cases view with
    | nil => exact ⟨List.prefix_refl _, by simp [writeView]⟩
    | cons byte view =>
      cases outcome with
      | none => exact ⟨List.nil_prefix, by simp [writeView]⟩
      | some n =>
        obtain ⟨hbegins, hall⟩ := ih ((byte :: view).drop n)
        have hsplit := List.take_append_drop n (byte :: view)
        rw [writeView.eq_4 _ _ _ (by simp)]
        dsimp only
        rw [hall, ← List.append_right_inj ((byte :: view).take n), hsplit]
        refine ⟨?_, Iff.rfl⟩
        conv_rhs => rw [← hsplit]
        exact (List.prefix_append_right_inj _).mpr hbegins

theorem copyLoop_spec (readRaises : Nat → Bool) (turn : Nat) (parts : List (List UInt8))
    (writes : List (Option Nat)) :
    (copyLoop readRaises turn parts writes).1 <+: parts.flatten ∧
    ((copyLoop readRaises turn parts writes).2 = true →
      (copyLoop readRaises turn parts writes).1 = parts.flatten) ∧
    ((copyLoop readRaises turn parts writes).2 = false → (∀ turn, readRaises turn = false) →
      (copyLoop readRaises turn parts writes).1 ≠ parts.flatten) := by
  induction parts generalizing turn writes with
  | nil => exact ⟨List.nil_prefix, fun _ => rfl, fun h hr => by simp [copyLoop, hr] at h⟩
  | cons part parts ih =>
    rw [copyLoop]
    dsimp only
    obtain ⟨hpart, hcomplete⟩ := writeView_spec part writes
    split_ifs with hread hend
    · exact ⟨List.nil_prefix, fun h => (by cases h), fun _ hr => by simp [hr] at hread⟩
    · obtain ⟨hbegins, hall, hshort⟩ := ih (turn + 1) (writeView part writes).left
      rw [List.flatten_cons, hcomplete.mp hend]
      exact ⟨(List.prefix_append_right_inj _).mpr hbegins, fun h => by rw [hall h], fun h hr he =>
        hshort h hr (List.append_cancel_left he)⟩
    · rw [List.flatten_cons]
      refine ⟨hpart.trans (List.prefix_append _ _), fun h => (by cases h), fun _ _ he => ?_⟩
      -- what landed is no longer than the part, so that it would be all of it
      have hlength := hpart.length_le
      have hlengths : (writeView part writes).landed.length = part.length + parts.flatten.length := by
        rw [← List.length_append, ← he]
      exact hend (hcomplete.mpr (hpart.eq_of_length (by omega)))

theorem copyBytes_spec (c : CopyRun) :
    (∀ bytes ∈ (copyBytes c).1, bytes <+: c.image) ∧
    ((copyBytes c).2 ≠ .failed → (copyBytes c).1 = some c.image) ∧
    ((copyBytes c).2 = .failed → (∀ turn, c.readRaises turn = false) →
      (copyBytes c).1 ≠ some c.image) := by
  obtain ⟨hbegins, hall, hshort⟩ := copyLoop_spec c.readRaises 0
    (chunks copyChunk c.image.length c.image) c.writes
  rw [flatten_chunks (by decide) (le_refl _)] at hbegins hall hshort
  unfold copyBytes
  dsimp only
  split_ifs with hopen hend hlate
  · exact ⟨by simp, by simp, by simp⟩
  · exact ⟨by simpa using hbegins, fun _ => by rw [hall hend], by simp⟩
  · exact ⟨by simpa using hbegins, fun _ => by rw [hall hend], by simp⟩
  · exact ⟨by simpa using hbegins, by simp, fun _ hr he =>
      hshort (by simpa using hend) hr (Option.some.inj he)⟩

theorem copyUf2_cases (c : CopyCall) :
    ((copyUf2 c).landed = none ∧ ∃ e, (copyUf2 c).result = .error e) ∨
    (sameFile c.files = false ∧ (copyUf2 c).landed = (copyBytes c.toCopyRun).1 ∧
      ((copyBytes c.toCopyRun).2 = .failed ∧ (copyUf2 c).result = .error .notWritten ∨
        (copyBytes c.toCopyRun).2 ≠ .failed ∧ ∃ applied, (copyUf2 c).result = .ok applied)) := by
  unfold copyUf2
  split_ifs with hexists hsame
  · exact Or.inl ⟨rfl, _, rfl⟩
  · exact Or.inl ⟨rfl, _, rfl⟩
  · refine Or.inr ⟨by simpa using hsame, ?_⟩
    split
    case h_1 landed h => exact ⟨by rw [h], Or.inl ⟨by rw [h], rfl⟩⟩
    case h_2 landed h => exact ⟨by rw [h], Or.inr ⟨by simp [h], _, rfl⟩⟩
    case h_3 landed h => exact ⟨by rw [h], Or.inr ⟨by simp [h], _, rfl⟩⟩

theorem copySound (c : CopyCall) : CopySound c := by
  obtain ⟨hbegins, hall, hshort⟩ := copyBytes_spec c.toCopyRun
  rcases copyUf2_cases c with ⟨hnone, e, he⟩ | ⟨hsame, hlanded, hresult⟩
  · exact ⟨by simp [hnone], by simp [he], by simp [hnone], fun _ => hnone⟩
  · refine ⟨hlanded ▸ hbegins, fun applied h => ?_, fun e h hr => ?_, by simp [hsame]⟩
    · rcases hresult with ⟨-, hraised⟩ | ⟨hend, -⟩
      · rw [hraised] at h
        cases h
      · rw [hlanded, hall hend]
    · rcases hresult with ⟨hend, -⟩ | ⟨-, applied, hok⟩
      · rw [hlanded]
        exact hshort hend hr
      · rw [hok] at h
        cases h

end Facts

/-! ## The write -/

/-- `FLASH_BASE` -/
def flashBase : Nat := 0x10000000

inductive BootselError
  | noImage
  | notUf2 (message : String)
  | aboveBase (start : Nat)
  /-- what `request_bootsel` raised -/
  | request
  | notMounted (devices : List Str)
  | noDevice
  | manyMounts (mounts : List Str)
  | noMatch (e : Bootsel.FlashError)
  | copy (e : CopyError)

/-- The target and surroundings of one write. -/
structure BootselCall where
  dryRun : Bool
  imageExists : Bool
  /-- the image as `_image_start` reads it, `none` where it cannot -/
  data : Option (List UInt8)
  /-- the topology that the target's helper captures, `none` in it where it raises -/
  requester : Option (Option Str)
  /-- `bootsel_devices` -/
  present : List Str
  view : BootselView
  looks : List Look
  copy : Str → CopyCall

inductive BootselEffect
  | request
  | copy (mount : Str) (landed : Option (List UInt8))

/-- What was done, and what was returned; `none` where it still waits for a mount. -/
structure BootselWrite where
  effects : List BootselEffect
  result : Option (Except BootselError (Option Str))

/-- `_image_start`, or the text of its `FlashError` -/
def imageStart : Option (List UInt8) → Except String (Option Nat)
  | none => .ok none
  | some data => (Uf2.imageExtent data).map fun extent => some extent.1

/-- `_find_mount` -/
def findMount (present : List Str) (view : BootselView) : Except BootselError Str :=
  match bootselScan view with
  | [] => .error (if present ≠ [] then .notMounted present else .noDevice)
  | [mount] => .ok mount
  | mounts => .error (.manyMounts mounts)

section Model
variable (c : BootselCall)

/-- The mount that the write goes to. -/
def BootselCall.found : Option (Except BootselError Str) :=
  match c.requester with
  | none => some (findMount c.present c.view)
  | some none => some (.error .request)
  | some (some topology) =>
    (mountForTopology topology c.looks).map fun found => found.mapError .noMatch

/-- The end of `Bootsel.write`: the request, and the copy to what was found. -/
def BootselCall.copyToFound : BootselWrite :=
  let asked := if c.requester.isSome then [.request] else []
  match c.found with
  | none => ⟨asked, none⟩
  | some (.error e) => ⟨asked, some (.error e)⟩
  | some (.ok mount) =>
    let copied := copyUf2 (c.copy mount)
    ⟨asked ++ [.copy mount copied.landed],
      some ((copied.result.mapError .copy).map fun _ => some mount)⟩

/-- `Bootsel.write` -/
def bootselWrite : BootselWrite :=
  if !c.imageExists then ⟨[], some (.error .noImage)⟩
  else
    match imageStart c.data with
    | .error message => ⟨[], some (.error (.notUf2 message))⟩
    | .ok start =>
      if c.requester.isSome && start.any (flashBase < ·) then
        ⟨[], some (.error (.aboveBase (start.getD 0)))⟩
      else if c.dryRun then ⟨[], some (.ok none)⟩
      else c.copyToFound

/-- The mount is the only one there is, or the only one seen on the socket that the board was
asked on. -/
def BootselCall.Aimed (mount : Str) : Prop :=
  (c.requester = none ∧ bootselScan c.view = [mount]) ∨
  ∃ topology, c.requester = some (some topology) ∧
    ∃ look ∈ c.looks, matchingMounts (bootselScan look.view) topology = [mount]

/-- What a write may do to the boards: in this order, and no more than this. -/
structure BootselGuarded : Prop where
  /-- nothing is done for an image that is not one, or that a board which is asked could not boot -/
  image : (bootselWrite c).effects ≠ [] → c.imageExists = true ∧ ∀ data, c.data = some data →
    ∃ start length, Uf2.imageExtent data = .ok (start, length) ∧
      (c.requester.isSome = true → start ≤ flashBase)
  dry : c.dryRun = true → (bootselWrite c).effects = []
  refused : (bootselWrite c).effects = [] → c.dryRun = false →
    ∃ e, (bootselWrite c).result = some (.error e)
  order : ∃ copies : List (Str × Option (List UInt8)), copies.length ≤ 1 ∧
    ((bootselWrite c).effects = [] ∨ (bootselWrite c).effects =
      (if c.requester.isSome then [.request] else []) ++ copies.map fun p => .copy p.1 p.2)
  aimed : ∀ mount landed, .copy mount landed ∈ (bootselWrite c).effects → c.Aimed mount
  landed : ∀ mount bytes, .copy mount (some bytes) ∈ (bootselWrite c).effects →
    bytes <+: (c.copy mount).image
  whole : ∀ mount, (bootselWrite c).result = some (.ok (some mount)) →
    .copy mount (some (c.copy mount).image) ∈ (bootselWrite c).effects
  failed : ∀ mount e, (∀ turn, (c.copy mount).readRaises turn = false) →
    (bootselWrite c).result = some (.error e) →
    .copy mount (some (c.copy mount).image) ∉ (bootselWrite c).effects

end Model

section Guards
variable {c : BootselCall} {mount : Str}

theorem bootselWrite_cases (c : BootselCall) :
    ((bootselWrite c).effects = [] ∧ (c.dryRun = true ∨ ∃ e, (bootselWrite c).result = some (.error e)) ∧
      ∀ mount, (bootselWrite c).result ≠ some (.ok (some mount))) ∨
    (bootselWrite c = c.copyToFound ∧ c.dryRun = false ∧ c.imageExists = true ∧
      ∀ data, c.data = some data → ∃ start length, Uf2.imageExtent data = .ok (start, length) ∧
        (c.requester.isSome = true → start ≤ flashBase)) := by
  unfold bootselWrite
  by_cases hexists : c.imageExists = true
  case neg =>
    rw [if_pos (by simpa using hexists)]
    exact Or.inl ⟨rfl, Or.inr ⟨_, rfl⟩, by simp⟩
  rw [if_neg (by simpa using hexists)]
  cases hstart : imageStart c.data with
  | error message => exact Or.inl ⟨rfl, Or.inr ⟨_, rfl⟩, by simp⟩
  | ok start =>
    dsimp only
    split_ifs with habove hdry
    · exact Or.inl ⟨rfl, Or.inr ⟨_, rfl⟩, by simp⟩
    · exact Or.inl ⟨rfl, Or.inl hdry, by simp⟩
    · refine Or.inr ⟨rfl, by simpa using hdry, hexists, fun data hdata => ?_⟩
      rw [hdata, imageStart] at hstart
      obtain ⟨⟨first, length⟩, hextent, rfl⟩ := ExceptList.map_ok hstart
      refine ⟨first, length, hextent, fun hasked => ?_⟩
      simpa [hasked] using habove

theorem aimed_of_found (h : c.found = some (.ok mount)) : c.Aimed mount := by
  unfold BootselCall.found at h
  split at h
  case h_1 hnone =>
    refine Or.inl ⟨hnone, ?_⟩
    unfold findMount at h
    split at h
    · cases h
    · rename_i hscan
      cases h
      exact hscan
    · cases h
  case h_2 => cases h
  case h_3 topology hasked =>
    refine Or.inr ⟨topology, hasked, ?_⟩
    cases hmount : mountForTopology topology c.looks with
    | none =>
      rw [hmount] at h
      cases h
    | some found =>
      rw [hmount] at h
      cases found with
      | error e => cases h
      | ok m =>
        cases h
        exact mountForTopology_ok hmount

theorem copyToFound_cases (c : BootselCall) :
    (c.copyToFound.effects = (if c.requester.isSome then [.request] else []) ∧
      (∀ mount, c.copyToFound.result ≠ some (.ok (some mount))) ∧
      (c.copyToFound.effects = [] → ∃ e, c.copyToFound.result = some (.error e))) ∨
    (∃ mount, c.found = some (.ok mount) ∧
      c.copyToFound.effects = (if c.requester.isSome then [.request] else []) ++
        [.copy mount (copyUf2 (c.copy mount)).landed] ∧
      c.copyToFound.result = some (((copyUf2 (c.copy mount)).result.mapError .copy).map
        fun _ => some mount)) := by
  unfold BootselCall.copyToFound
  cases hfound : c.found with
  | none =>
    -- only a board that was asked is waited for
    refine Or.inl ⟨rfl, by simp, fun hnone => ?_⟩
    cases hasked : c.requester with
    | none => simp [BootselCall.found, hasked] at hfound
    | some topology => simp [hasked] at hnone
  | some found =>
    cases found with
    | error e => exact Or.inl ⟨rfl, by simp, fun _ => ⟨e, rfl⟩⟩
    | ok mount => exact Or.inr ⟨mount, rfl, rfl, rfl⟩

theorem aimed_of_copy {landed : Option (List UInt8)}
    (h : .copy mount landed ∈ (bootselWrite c).effects) : c.Aimed mount := by
  rcases bootselWrite_cases c with ⟨hnone, -⟩ | ⟨hwrite, -⟩
  · simp [hnone] at h
  rw [hwrite] at h
  rcases copyToFound_cases c with ⟨heffects, -⟩ | ⟨found, hfound, heffects, -⟩
  · rw [heffects] at h
    split at h <;> simp at h
  · rw [heffects] at h
    obtain rfl : mount = found := by
      split at h <;> simp at h <;> exact h.1
    exact aimed_of_found hfound

end Guards

/-- However the copy and the board behave, a BOOTSEL write asks a board only for an image it can
boot, copies it to one volume that is the right one, and succeeds when all of it has landed. -/
theorem bootsel_write_guarded (c : BootselCall) : BootselGuarded c := by
  rcases bootselWrite_cases c with ⟨hnone, hrefused, hresult⟩ | ⟨hwrite, hdry, hexists, hdata⟩
  · exact ⟨fun h => absurd hnone h, fun _ => hnone,
      fun _ hdry => hrefused.resolve_left (by simp [hdry]), ⟨[], by simp, Or.inl hnone⟩,
      by simp [hnone], by simp [hnone], fun mount h => absurd h (hresult mount), by simp [hnone]⟩
  · have hall : (bootselWrite c).effects ≠ [] → c.imageExists = true ∧ ∀ data,
        c.data = some data → ∃ start length, Uf2.imageExtent data = .ok (start, length) ∧
          (c.requester.isSome = true → start ≤ flashBase) := fun _ => ⟨hexists, hdata⟩
    rw [hwrite] at hall
    rcases copyToFound_cases c with ⟨heffects, hresult, herror⟩ | ⟨mount, hfound, heffects, hresult⟩
    · constructor <;> rw [hwrite]
      case image => exact hall
      case dry => simp [hdry]
      case refused => exact fun hnone _ => herror hnone
      case order => exact ⟨[], by simp, Or.inr (by simpa using heffects)⟩
      case whole => exact fun mount h => absurd h (hresult mount)
      all_goals
        rw [heffects]
        split <;> simp
    · have honly : ∀ m landed, BootselEffect.copy m landed ∈ c.copyToFound.effects →
          m = mount ∧ landed = (copyUf2 (c.copy mount)).landed := by
        intro m landed h
        rw [heffects] at h
        split at h <;> simpa using h
      have hsound := copySound (c.copy mount)
      constructor <;> rw [hwrite]
      case image => exact hall
      case dry => simp [hdry]
      case refused => simp [heffects]
      case order =>
        exact ⟨[(mount, (copyUf2 (c.copy mount)).landed)], le_refl _, Or.inr heffects⟩
      case aimed =>
        intro m landed h
        exact aimed_of_copy (hwrite ▸ h)
      case landed =>
        intro m bytes h
        obtain ⟨rfl, hbytes⟩ := honly m _ h
        exact hsound.prefix_image bytes hbytes.symm
      case whole =>
        intro m h
        rw [hresult] at h
        cases hcopied : (copyUf2 (c.copy mount)).result with
        | error e =>
          rw [hcopied] at h
          cases h
        | ok applied =>
          rw [hcopied] at h
          cases h
          rw [heffects, hsound.whole applied hcopied]
          simp
      case failed =>
        intro m e hreads h hmem
        obtain ⟨rfl, hlanded⟩ := honly m _ hmem
        rw [hresult] at h
        cases hcopied : (copyUf2 (c.copy m)).result with
        | ok applied =>
          rw [hcopied] at h
          cases h
        | error e => exact hsound.outstanding e hcopied hreads hlanded.symm

end McuUpdater.Flashers
