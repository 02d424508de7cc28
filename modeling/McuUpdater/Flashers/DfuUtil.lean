import McuUpdater.Discovery.DfuScan

/-! `flashers/flash.py`: the first image written to a bare STM32 through dfu-util. What
dfu-util prints is given, for the listing and for the write; the reporter does not raise. -/
namespace McuUpdater.Flashers
open PyText Discovery

inductive DfuError
  | binaryMissing
  | scan (e : DfuScanError)
  | noDevice
  | notAttached
  | ambiguous
  | runFailed
  | writeFailed (rc : Int)
  deriving DecidableEq

/-- The arguments and surroundings of one call. -/
structure DfuCall where
  dryRun : Bool
  fwBin : Str
  fwBinExists : Bool
  /-- what `dfu-util -l` printed; `none` where it could not be run -/
  listing : Option Str
  targetSerial : Option Str
  run : Selector → Run

structure DfuFlash where
  writes : List Selector
  result : Except DfuError Unit
  deriving DecidableEq

/-- `_DFU_WRITE_OK_RE` -/
def writeOk : List Str := ["file downloaded successfully".toList, "download done".toList]

/-- `_DFU_LEAVE_NOISE_RE` -/
def leaveNoise : List Str :=
  ["error during download get_status".toList,
    "unable to read dfu status after completion".toList, "lost device after".toList]

/-- `_dfu_left_successfully` -/
def dfuLeftSuccessfully (transcript : List Str) : Bool :=
  let text := joinWith ['\n'] transcript
  mentions writeOk text && mentions leaveNoise text

def chooseDevice (devices : List DfuLine) : Option Str → Except DfuError DfuLine
  | some serial =>
    match devices.filter (·.serial = some serial) with
    | [] => .error .notAttached
    | [device] => .ok device
    | _ => .error .ambiguous
  | none =>
    match devices with
    | [] => .error .noDevice
    | [device] => .ok device
    | _ => .error .ambiguous

section Model
variable (isWord isDecimal : Char → Bool) (c : DfuCall)

def DfuCall.args (sel : Selector) : List Str :=
  ["dfu-util".toList, "-a".toList, "0".toList, "-d".toList, "0483:df11".toList] ++ sel.args ++
    ["-D".toList, c.fwBin, "-s".toList, "0x08000000:force:mass-erase:leave".toList]

def DfuCall.transcript (sel : Selector) (output : List Str) : List Str :=
  joinWith [' '] ((c.args sel).map quote) :: output

def DfuCall.lines : List DfuLine := dfuLines isWord isDecimal (c.listing.getD [])

/-- What the run of the write comes to: an exit that only says that the board has left is
no failure. -/
def DfuCall.verdict (sel : Selector) : Except DfuError Unit :=
  match c.run sel with
  | .raises => .error .runFailed
  | .exited output rc =>
    if rc = 0 || dfuLeftSuccessfully (c.transcript sel output) then .ok ()
    else .error (.writeFailed rc)

/-- `flash_dfu_stm32`; a dry run reports the write and runs nothing. -/
def flashDfuStm32 : DfuFlash :=
  if !c.fwBinExists then ⟨[], .error .binaryMissing⟩
  else
    match dfuDevices isWord isDecimal c.listing with
    | .error e => ⟨[], .error (.scan e)⟩
    | .ok devices =>
      if devices = [] then ⟨[], .error .noDevice⟩
      else
        match chooseDevice devices c.targetSerial with
        | .error e => ⟨[], .error e⟩
        | .ok device =>
          if c.dryRun then ⟨[], .ok ()⟩
          else ⟨[dfuSelector device], c.verdict (dfuSelector device)⟩

/-- Of all the boards listed, a write under this selector can reach only that of this line,
which is the one that was meant. -/
structure OnlyBoard (lines : List DfuLine) (sel : Selector) (board : DfuLine) : Prop where
  listed : board ∈ lines
  taken : sel.Takes board
  only : ∀ l ∈ lines, sel.Takes l → l.key = board.key
  named : ∀ serial, c.targetSerial = some serial →
    board.serial = some serial ∧ ∀ l ∈ lines, l.serial = some serial → l.key = board.key
  alone : c.targetSerial = none → ∀ l ∈ lines, l.key = board.key

structure DfuGuarded : Prop where
  pinned : ∀ sel ∈ (flashDfuStm32 isWord isDecimal c).writes,
    ∃ board, OnlyBoard c (c.lines isWord isDecimal) sel board
  once : (flashDfuStm32 isWord isDecimal c).writes.length ≤ 1
  refused : (flashDfuStm32 isWord isDecimal c).writes = [] → c.dryRun = false →
    ∃ e, (flashDfuStm32 isWord isDecimal c).result = .error e
  judged : ∀ sel ∈ (flashDfuStm32 isWord isDecimal c).writes,
    (flashDfuStm32 isWord isDecimal c).result = c.verdict sel

end Model

section Facts
variable {isWord isDecimal : Char → Bool} {c : DfuCall} {devices lines : List DfuLine}
  {d : DfuLine}

/-- The selector of a board takes it. -/
theorem takes_dfuSelector (d : DfuLine) : (dfuSelector d).Takes d := by
  unfold dfuSelector
  split
  · rename_i h
    exact (blankToNone_eq_some.mp h).1
  · rename_i h
    exact (blankToNone_eq_some.mp h).1
  · rename_i h
    exact (blankToNone_eq_some.mp h).1
  · trivial

theorem chooseDevice_named {serial : Str} (h : chooseDevice devices (some serial) = .ok d) :
    devices.filter (·.serial = some serial) = [d] := by
  simp only [chooseDevice] at h
  split at h
  · cases h
  · rename_i heq
    cases h
    exact heq
  · cases h

theorem chooseDevice_alone (h : chooseDevice devices none = .ok d) : devices = [d] := by
  simp only [chooseDevice] at h
  split at h
  · cases h
  · cases h
    rfl
  · cases h

theorem chooseDevice_mem {target : Option Str} (h : chooseDevice devices target = .ok d) :
    d ∈ devices := by
  cases target with
  | none => simp [chooseDevice_alone h]
  | some serial =>
    exact List.mem_of_mem_filter (chooseDevice_named h ▸ List.mem_singleton_self d)

theorem key_of_serial {serial : Str} {l : DfuLine} (halike : Alike lines)
    (hone : (byDevice lines).filter (·.serial = some serial) = [d]) (hl : l ∈ lines)
    (hserial : l.serial = some serial) : l.key = d.key := by
  obtain ⟨e, he, hkey⟩ := device_of_mem hl
  have heserial : e.serial = some serial := by
    rw [(halike e (mem_byDevice he) l hl hkey).2.1, hserial]
  have hmem : e ∈ (byDevice lines).filter (·.serial = some serial) :=
    List.mem_filter.mpr ⟨he, by simpa using heserial⟩
  rw [hone, List.mem_singleton] at hmem
  rw [← hkey, hmem]

theorem key_of_alone {l : DfuLine} (hone : byDevice lines = [d]) (hl : l ∈ lines) :
    l.key = d.key := by
  obtain ⟨e, he, hkey⟩ := device_of_mem hl
  rw [hone, List.mem_singleton] at he
  rw [← hkey, he]

/-- The selector of a board with a serial takes the lines of that port alone, or those
with its serial. -/
theorem key_of_takes {serial : Str} {l : DfuLine} (hd : d.serial = some serial)
    (hne : serial ≠ []) (htakes : (dfuSelector d).Takes l)
    (hserial : l.serial = some serial → l.key = d.key) : l.key = d.key := by
  have hblank : blankToNone d.serial = some serial := blankToNone_eq_some.mpr ⟨hd, hne⟩
  unfold dfuSelector at htakes
  cases hpath : blankToNone d.path with
  | some p =>
    rw [hpath] at htakes
    rw [key_of_path hpath]
    exact key_of_path (blankToNone_eq_some.mpr ⟨htakes, (blankToNone_eq_some.mp hpath).2⟩)
  | none =>
    rw [hpath, hblank] at htakes
    exact hserial htakes

theorem onlyBoard_of_choose (halike : Alike lines) (hne : c.targetSerial ≠ some [])
    (h : chooseDevice (byDevice lines) c.targetSerial = .ok d) :
    OnlyBoard c lines (dfuSelector d) d := by
  have hmem : d ∈ byDevice lines := chooseDevice_mem h
  cases htarget : c.targetSerial with
  | none =>
    rw [htarget] at h
    have halone : ∀ l ∈ lines, l.key = d.key := fun l hl =>
      key_of_alone (chooseDevice_alone h) hl
    exact ⟨mem_byDevice hmem, takes_dfuSelector d, fun l hl _ => halone l hl,
      by simp [htarget], fun _ => halone⟩
  | some serial =>
    rw [htarget] at h
    have hone := chooseDevice_named h
    have hd : d.serial = some serial := by
      have := List.of_mem_filter (hone ▸ List.mem_singleton_self d :
        d ∈ (byDevice lines).filter (·.serial = some serial))
      simpa using this
    have hserial : ∀ l ∈ lines, l.serial = some serial → l.key = d.key := fun l hl =>
      key_of_serial halike hone hl
    have hblank : serial ≠ [] := fun hs => hne (by rw [htarget, hs])
    refine ⟨mem_byDevice hmem, takes_dfuSelector d, fun l hl htakes =>
      key_of_takes hd hblank htakes (hserial l hl), fun t ht => ?_, by simp [htarget]⟩
    rw [htarget] at ht
    cases ht
    exact ⟨hd, hserial⟩

theorem flashDfuStm32_cases (isWord isDecimal : Char → Bool) (c : DfuCall) :
    ((flashDfuStm32 isWord isDecimal c).writes = [] ∧
      (c.dryRun = true ∨ ∃ e, (flashDfuStm32 isWord isDecimal c).result = .error e)) ∨
    (c.dryRun = false ∧ ∃ d,
      chooseDevice (byDevice (c.lines isWord isDecimal)) c.targetSerial = .ok d ∧
      flashDfuStm32 isWord isDecimal c = ⟨[dfuSelector d], c.verdict (dfuSelector d)⟩) := by
  unfold flashDfuStm32
  split
  · exact Or.inl ⟨rfl, Or.inr ⟨_, rfl⟩⟩
  cases hscan : dfuDevices isWord isDecimal c.listing with
  | error e => exact Or.inl ⟨rfl, Or.inr ⟨_, rfl⟩⟩
  | ok devices =>
    obtain rfl : devices = byDevice (c.lines isWord isDecimal) := dfuDevices_ok hscan
    dsimp only
    split
    · exact Or.inl ⟨rfl, Or.inr ⟨_, rfl⟩⟩
    cases hchoose : chooseDevice (byDevice (c.lines isWord isDecimal)) c.targetSerial with
    | error e => exact Or.inl ⟨rfl, Or.inr ⟨_, rfl⟩⟩
    | ok d =>
      cases hdry : c.dryRun with
      | true => exact Or.inl ⟨rfl, Or.inl rfl⟩
      | false => exact Or.inr ⟨rfl, d, rfl, by simp⟩

end Facts

/-- A write through dfu-util reaches no board but the one that was named, or the only one
there was. -/
theorem dfu_write_pinned (isWord isDecimal : Char → Bool) (c : DfuCall)
    (halike : Alike (c.lines isWord isDecimal)) (hne : c.targetSerial ≠ some []) :
    DfuGuarded isWord isDecimal c := by
  rcases flashDfuStm32_cases isWord isDecimal c with ⟨hw, hr⟩ | ⟨-, d, hchoose, h⟩
  · exact ⟨by simp [hw], by simp [hw], fun _ hdry => hr.resolve_left (by simp [hdry]),
      by simp [hw]⟩
  · refine ⟨fun sel hsel => ⟨d, ?_⟩, by simp [h], by simp [h], fun sel hsel => ?_⟩
    · obtain rfl : sel = dfuSelector d := by simpa [h] using hsel
      exact onlyBoard_of_choose halike hne hchoose
    · obtain rfl : sel = dfuSelector d := by simpa [h] using hsel
      rw [h]

/-- Two boards, the second one, with two altsettings, named; dfu-util loses it when it leaves. -/
def secondBoard : DfuCall where
  dryRun := false
  fwBin := "/k.bin".toList
  fwBinExists := true
  listing := some <| joinWith ['\n']
    ["[0483:df11] path=\"6-1\", serial=\"A1\"".toList,
      "[0483:df11] path=\"6-2\", alt=1, serial=\"B2\"".toList,
      "[0483:df11] path=\"6-2\", alt=0, serial=\"B2\"".toList]
  targetSerial := some "B2".toList
  run := fun _ => .exited ["Download done.".toList, "Error during download get_status".toList] 74

theorem dfu_write_pinned_second_board :
    flashDfuStm32 (fun c => c.isAlphanum || c = '_') Char.isDigit secondBoard
      = ⟨[.path "6-2".toList], .ok ()⟩ ∧
    DfuGuarded (fun c => c.isAlphanum || c = '_') Char.isDigit secondBoard :=
  ⟨by decide +kernel, dfu_write_pinned _ _ secondBoard (by decide +kernel) (by decide)⟩

end McuUpdater.Flashers
