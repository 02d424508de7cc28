import McuUpdater.Discovery.Confirm
import McuUpdater.Lib.PyValue

/-! `flashers/flash.py`: one board written through katapult's flashtool, and the offset
check before the write. The process, the bus and the sidecar are given by what each
reading of them gives; the reporter does not raise. -/
namespace McuUpdater.Flashers
open PyText PyValue Discovery

/-- One run of flashtool on the device at this path: `-s`, or the write. -/
inductive Command
  | status (path : Str)
  | write (path : Str)
  deriving DecidableEq

/-- What `run_streamed` reports of a run, or that it raises. -/
inductive Run
  | exited (output : List Str) (rc : Int)
  | raises

inductive FlashError
  | configCorrupt
  | toolMissing
  | binaryMissing
  | deviceNotFound
  | runFailed
  | statusCheckFailed (rc : Int)
  | offsetMismatch
  /-- `f"{app_address:#x}"` of a value that is no int -/
  | badAddress
  | bootloaderTimeout
  | writeFailed (rc : Int)

/-- The arguments and surroundings of one call. -/
structure FlashCall where
  dryRun : Bool
  force : Bool
  python : Str
  /-- `find_flashtool`, which raises where katapult is not declared -/
  flashtool : Option Str
  flashtoolExists : Bool
  fwBin : Str
  fwBinExists : Bool
  chipset : Str
  serial : Str
  /-- what the sources report before the check -/
  sources : List Source
  /-- `side.get("app_address")` -/
  appAddress : PyVal
  run : Command → Run
  /-- the by-id scans made after the check until its deadline -/
  polls : List (List BusDevice)

structure Flash where
  commands : List Command
  result : Except FlashError (Option Reason)

/-- A character that `shlex.quote` leaves unquoted. -/
def isSafe (c : Char) : Bool := c.isAlphanum || c ∈ "_@%+=:,./-".toList

/-- `shlex.quote` -/
def quote (s : Str) : Str :=
  if s = [] then "''".toList
  else if s.all isSafe then s
  else '\'' :: s.flatMap (fun c => if c = '\'' then "'\"'\"'".toList else [c]) ++ ['\'']

/-- The first match of `matchAt` at any place of the text. -/
def search {α : Type} (matchAt : Str → Option α) : Str → Option α
  | [] => matchAt []
  | c :: s => (matchAt (c :: s)).or (search matchAt s)

def hexValue (c : Char) : Option Nat :=
  if '0' ≤ c ∧ c ≤ '9' then some (c.toNat - '0'.toNat)
  else if 'a' ≤ c ∧ c ≤ 'f' then some (c.toNat - 'a'.toNat + 10)
  else if 'A' ≤ c ∧ c ≤ 'F' then some (c.toNat - 'A'.toNat + 10)
  else none

/-- `Application Start:\s*0x\s*([0-9A-Fa-f]+)`, as `int(group, 16)`. -/
def appStartAt (s : Str) : Option Nat := do
  let s ← after "Application Start:".toList s
  let s ← after "0x".toList (lstrip s)
  match ((lstrip s).takeWhile fun c => (hexValue c).isSome).filterMap hexValue with
  | [] => none
  | digits => some (digits.foldl (fun n d => 16 * n + d) 0)

/-- `_parse_application_start` -/
def parseApplicationStart (transcript : List Str) : Option Nat :=
  search appStartAt (joinWith ['\n'] transcript)

/-- A letter under `re.IGNORECASE`. -/
def sameLetter (l c : Char) : Bool :=
  c.toLower = l || (l = 's' && c = 'ſ') || (l = 'i' && (c = 'İ' || c = 'ı'))

/-- What is left after this beginning in any case. -/
def afterIgnoringCase : Str → Str → Option Str
  | [], s => some s
  | l :: start, c :: s => if sameLetter l c then afterIgnoringCase start s else none
  | _ :: _, [] => none

/-- `Requesting \S+ bootloader`, in any case. -/
def requestAt (s : Str) : Option Unit := do
  let s ← afterIgnoringCase "requesting ".toList s
  if (s.takeWhile fun c => !isSpace c) = [] then none
  let _ ← afterIgnoringCase " bootloader".toList (s.dropWhile fun c => !isSpace c)
  return ()

/-- `_BOOTLOADER_REQUEST_RE.search` -/
def requestsBootloader (transcript : List Str) : Bool :=
  (search requestAt (joinWith ['\n'] transcript)).isSome

/-- Whether `f"{v:#x}"` is defined. -/
def formatsAsHex : PyVal → Bool
  | .int _ | .bool _ => true
  | _ => false

/-- `device_for`; `none` is its refusal. -/
def deviceFor (sources : List Source) (chipset serial : Str) : Option (BusDevice × Reason) :=
  match (confirm sources).lookup serial with
  | none => none
  | some (s, confidence) =>
    if s.chipset ≠ some chipset then none
    else some (⟨s.fw.getD [], chipset, serial, s.address⟩, confidence)

section Model
-- `str.lower`
variable (lower : Str → Str)

/-- `_await_bootloader_device` -/
def awaitBootloaderDevice (chipset serial : Str) : List (List BusDevice) → Option BusDevice
  | [] => none
  | scan :: polls =>
    match deviceFor [byid scan] chipset serial with
    | some (dev, _) =>
      if stateForFirmware lower dev.fw = stateKatapult then some dev
      else awaitBootloaderDevice chipset serial polls
    | none => awaitBootloaderDevice chipset serial polls

variable (c : FlashCall)

/-- The command line of a run. -/
def FlashCall.args : Command → List Str
  | .status path => [c.python, c.flashtool.getD [], "-d".toList, path, "-f".toList, c.fwBin,
    "-s".toList]
  | .write path => [c.python, c.flashtool.getD [], "-d".toList, path, "-f".toList, c.fwBin]

/-- What `capture` collects of a run: the command line, then the output. -/
def FlashCall.transcript (cmd : Command) (output : List Str) : List Str :=
  joinWith [' '] ((c.args cmd).map quote) :: output

/-- The comparison in `_verify_offset_before_write`. -/
def compareOffset (rc : Int) (board : Option Nat) : Except FlashError Unit :=
  if rc ≠ 0 then .error (.statusCheckFailed rc)
  else
    match board with
    | none => if c.force then .ok () else .error .offsetMismatch
    | some board =>
      if c.appAddress.eqInt board then .ok ()
      -- the message shows the address before `force` is looked at
      else if !formatsAsHex c.appAddress then .error .badAddress
      else if c.force then .ok ()
      else .error .offsetMismatch

/-- `_verify_offset_before_write`: what it ran, and the device to write to. -/
def verifyOffsetBeforeWrite (dev : BusDevice) :
    List Command × Except FlashError BusDevice :=
  if c.appAddress.isNone then ([], .ok dev)
  else
    let probe := Command.status dev.path
    match c.run probe with
    | .raises => ([probe], .error .runFailed)
    | .exited output rc =>
      let transcript := c.transcript probe output
      match compareOffset c rc (parseApplicationStart transcript) with
      | .error e => ([probe], .error e)
      | .ok () =>
        if !requestsBootloader transcript then ([probe], .ok dev)
        else
          match awaitBootloaderDevice lower c.chipset c.serial c.polls with
          | none => ([probe], .error .bootloaderTimeout)
          | some rebooted => ([probe], .ok rebooted)

/-- `_report_offset_mismatch`, which can raise where it shows the address. -/
def reportsOffset (transcript : List Str) : Bool :=
  match parseApplicationStart transcript with
  | none => true
  | some board => c.appAddress.isNone || c.appAddress.eqInt board || formatsAsHex c.appAddress

/-- The write that ends `flash_katapult`, after what the check ran. -/
def writeImage (commands : List Command) (dev : BusDevice) (confidence : Reason) : Flash :=
  let write := Command.write dev.path
  ⟨commands ++ [write],
    match c.run write with
    | .raises => .error .runFailed
    | .exited output rc =>
      if rc ≠ 0 then .error (.writeFailed rc)
      else if !reportsOffset c (c.transcript write output) then .error .badAddress
      else .ok (some confidence)⟩

/-- `flash_katapult`; a dry run reports the write and runs nothing. -/
def flashKatapult : Flash :=
  if c.flashtool.isNone then ⟨[], .error .configCorrupt⟩
  else if !c.flashtoolExists then ⟨[], .error .toolMissing⟩
  else if !c.fwBinExists then ⟨[], .error .binaryMissing⟩
  else
    match deviceFor c.sources c.chipset c.serial with
    | none => ⟨[], .error .deviceNotFound⟩
    | some (dev, confidence) =>
      if c.dryRun then ⟨[], .ok (some confidence)⟩
      else
        match verifyOffsetBeforeWrite lower c dev with
        | (commands, .error e) => ⟨commands, .error e⟩
        | (commands, .ok dev) => writeImage c commands dev confidence

/-- The status check of this path exited 0 and read the recorded address. -/
def Matches (path : Str) : Prop :=
  ∃ output board, c.run (.status path) = .exited output 0 ∧
    parseApplicationStart (c.transcript (.status path) output) = some board ∧
    c.appAddress.eqInt board

/-- The status check of this path said that it requested the bootloader. -/
def Requested (path : Str) : Prop :=
  ∃ output rc, c.run (.status path) = .exited output rc ∧
    requestsBootloader (c.transcript (.status path) output)

/-- A device of one of the scans after the check, with the serial and chipset asked for,
in its bootloader. -/
def Rebooted (path : Str) : Prop :=
  ∃ scan ∈ c.polls, ∃ d ∈ scan, d.serial = c.serial ∧ d.chipset = c.chipset ∧
    stateForFirmware lower d.fw = stateKatapult ∧ d.path = path

structure OffsetGuarded : Prop where
  checked : ∀ path, .write path ∈ (flashKatapult lower c).commands → c.force = false →
    c.dryRun = false → c.appAddress.isNone = false →
    ∃ probe, (flashKatapult lower c).commands = [.status probe, .write path] ∧ Matches c probe
  refused : ∀ probe, .status probe ∈ (flashKatapult lower c).commands → c.force = false →
    ¬Matches c probe →
    (flashKatapult lower c).commands = [.status probe] ∧
      ∃ e, (flashKatapult lower c).result = .error e
  unwritten : c.dryRun = false → (∀ path, .write path ∉ (flashKatapult lower c).commands) →
    ∃ e, (flashKatapult lower c).result = .error e
  resolved : ∀ probe path, .status probe ∈ (flashKatapult lower c).commands → Requested c probe →
    .write path ∈ (flashKatapult lower c).commands → Rebooted lower c path
  /-- it is the device that was found that is asked, and that is written unless it was rebooted -/
  aimed : ∀ dev confidence, deviceFor c.sources c.chipset c.serial = some (dev, confidence) →
    (∀ probe, .status probe ∈ (flashKatapult lower c).commands → probe = dev.path) ∧
    ∀ path, .write path ∈ (flashKatapult lower c).commands →
      path = dev.path ∨ Requested c dev.path

end Model

section Facts
variable {lower : Str → Str} {c : FlashCall} {dev dev' : BusDevice}

theorem deviceFor_byid {scan : List BusDevice} {chipset serial : Str} {r : Reason}
    (h : deviceFor [byid scan] chipset serial = some (dev, r)) :
    ∃ d ∈ scan, d.serial = serial ∧ d.chipset = chipset ∧ d.fw = dev.fw ∧ d.path = dev.path := by
  unfold deviceFor at h
  split at h
  · cases h
  · split_ifs at h with hchip
    rename_i s confidence hlookup
    cases h
    obtain ⟨hid, source, hsource, hs⟩ := confirm_lookup hlookup
    obtain rfl := List.mem_singleton.mp hsource
    obtain ⟨d, hd, rfl⟩ := List.mem_map.mp hs
    exact ⟨d, hd, hid, by simpa using hchip, rfl, rfl⟩

theorem awaitBootloaderDevice_spec {chipset serial : Str} {polls : List (List BusDevice)}
    (h : awaitBootloaderDevice lower chipset serial polls = some dev) :
    ∃ scan ∈ polls, ∃ d ∈ scan, d.serial = serial ∧ d.chipset = chipset ∧
      stateForFirmware lower d.fw = stateKatapult ∧ d.path = dev.path := by
  induction polls with
  | nil => cases h
  | cons scan polls ih =>
    rw [awaitBootloaderDevice] at h
    split at h
    · rename_i d r hd
      split_ifs at h with hstate
      · cases h
        obtain ⟨d, hmem, hserial, hchip, hfw, hpath⟩ := deviceFor_byid hd
        exact ⟨scan, by simp, d, hmem, hserial, hchip, hfw ▸ hstate, hpath⟩
      · obtain ⟨scan', hscan, hd⟩ := ih h
        exact ⟨scan', List.mem_cons_of_mem _ hscan, hd⟩
    · obtain ⟨scan', hscan, hd⟩ := ih h
      exact ⟨scan', List.mem_cons_of_mem _ hscan, hd⟩

theorem compareOffset_ok {rc : Int} {board : Option Nat} (h : compareOffset c rc board = .ok ())
    (hforce : c.force = false) : rc = 0 ∧ ∃ b, board = some b ∧ c.appAddress.eqInt b := by
  unfold compareOffset at h
  by_cases hrc : rc = 0
  · refine ⟨hrc, ?_⟩
    cases board with
    | none => simp [hrc, hforce] at h
    | some b =>
      cases heq : c.appAddress.eqInt b with
      | true => exact ⟨b, rfl, heq⟩
      | false => cases hfmt : formatsAsHex c.appAddress <;> simp [hrc, heq, hfmt, hforce] at h
  · simp [hrc] at h

theorem verify_cases (lower : Str → Str) (c : FlashCall) (dev : BusDevice) :
    (verifyOffsetBeforeWrite lower c dev = ([], .ok dev) ∧ c.appAddress.isNone = true) ∨
    (∃ e, verifyOffsetBeforeWrite lower c dev = ([.status dev.path], .error e)) ∨
    (∃ dev', verifyOffsetBeforeWrite lower c dev = ([.status dev.path], .ok dev') ∧
      (c.force = false → Matches c dev.path) ∧
      (Requested c dev.path → Rebooted lower c dev'.path) ∧
      (dev' = dev ∨ Requested c dev.path)) := by
  unfold verifyOffsetBeforeWrite
  split_ifs with hnone
  · exact Or.inl ⟨rfl, hnone⟩
  · refine Or.inr ?_
    cases hrun : c.run (.status dev.path) with
    | raises => exact Or.inl ⟨.runFailed, by simp [hrun]⟩
    | exited output rc =>
      cases hcmp : compareOffset c rc
          (parseApplicationStart (c.transcript (.status dev.path) output)) with
      | error e => exact Or.inl ⟨e, by simp [hrun, hcmp]⟩
      | ok u =>
        have hmatch : c.force = false → Matches c dev.path := fun hforce => by
          obtain ⟨rfl, board, hboard, heq⟩ := compareOffset_ok hcmp hforce
          exact ⟨output, board, hrun, hboard, heq⟩
        cases hreq : requestsBootloader (c.transcript (.status dev.path) output) with
        | false =>
          refine Or.inr ⟨dev, by simp [hrun, hcmp, hreq], hmatch,
            fun ⟨output', rc', hrun', hreq'⟩ => ?_, Or.inl rfl⟩
          rw [hrun] at hrun'
          cases hrun'
          rw [hreq] at hreq'
          cases hreq'
        | true =>
          cases hwait : awaitBootloaderDevice lower c.chipset c.serial c.polls with
          | none => exact Or.inl ⟨.bootloaderTimeout, by simp [hrun, hcmp, hreq]⟩
          | some rebooted =>
            exact Or.inr ⟨rebooted, by simp [hrun, hcmp, hreq], hmatch,
              fun _ => awaitBootloaderDevice_spec hwait, Or.inr ⟨output, rc, hrun, hreq⟩⟩

/-- What a call runs: nothing; a probe alone, and it raises; or the write, after whatever
the check ran. -/
theorem flashKatapult_cases (lower : Str → Str) (c : FlashCall) :
    ((flashKatapult lower c).commands = [] ∧
      (c.dryRun = true ∨ ∃ e, (flashKatapult lower c).result = .error e)) ∨
    ∃ dev confidence, deviceFor c.sources c.chipset c.serial = some (dev, confidence) ∧
      ((∃ e, flashKatapult lower c = ⟨[.status dev.path], .error e⟩) ∨
      ((flashKatapult lower c).commands = [.write dev.path] ∧ c.appAddress.isNone = true) ∨
      (∃ path, (flashKatapult lower c).commands = [.status dev.path, .write path] ∧
        (c.force = false → Matches c dev.path) ∧ (Requested c dev.path → Rebooted lower c path) ∧
        (path = dev.path ∨ Requested c dev.path))) := by
  unfold flashKatapult
  iterate 3
    split
    · exact Or.inl ⟨rfl, Or.inr ⟨_, rfl⟩⟩
  cases deviceFor c.sources c.chipset c.serial with
  | none => exact Or.inl ⟨rfl, Or.inr ⟨_, rfl⟩⟩
  | some found =>
    obtain ⟨dev, confidence⟩ := found
    cases hdry : c.dryRun with
    | true => exact Or.inl ⟨rfl, Or.inl rfl⟩
    | false =>
      refine Or.inr ⟨dev, confidence, rfl, ?_⟩
      rcases verify_cases lower c dev with ⟨hv, hnone⟩ | ⟨e, hv⟩ | ⟨dev', hv, hmatch, hreq, hstay⟩
      · exact Or.inr (Or.inl ⟨by simp [hv, writeImage], hnone⟩)
      · exact Or.inl ⟨e, by simp [hv]⟩
      · exact Or.inr (Or.inr ⟨dev'.path, by simp [hv, writeImage], hmatch, hreq,
          hstay.imp_left (congrArg BusDevice.path)⟩)

end Facts

/-- No unforced write without a status check of the same call that exited 0 and read the
recorded address, and none to the path a device had before it was rebooted. -/
theorem offset_guarded (lower : Str → Str) (c : FlashCall) : OffsetGuarded lower c := by
  rcases flashKatapult_cases lower c with ⟨hc, hr⟩ |
    ⟨dev, confidence, hdev, ⟨e, h⟩ | ⟨hc, hnone⟩ | ⟨path, hc, hmatch, hreq, hstay⟩⟩
  · refine ⟨?_, ?_, fun hdry _ => ?_, ?_, ?_⟩
    · simp [hc]
    · simp [hc]
    · exact hr.resolve_left (by simp [hdry])
    · simp [hc]
    · simp [hc]
  · refine ⟨?_, ?_, fun _ _ => ⟨e, by rw [h]⟩, ?_, ?_⟩
    · simp [h]
    · intro probe' hmem _ _
      obtain rfl : probe' = dev.path := by simpa [h] using hmem
      exact ⟨by rw [h], e, by rw [h]⟩
    · simp [h]
    · intro found reason hfound
      obtain ⟨rfl, -⟩ := Prod.mk.inj (Option.some.inj (hdev.symm.trans hfound))
      simp [h]
  · refine ⟨fun _ _ _ _ hsome => ?_, ?_, fun _ hall => ?_, ?_, ?_⟩
    · rw [hnone] at hsome
      cases hsome
    · simp [hc]
    · exact absurd (by simp [hc]) (hall dev.path)
    · simp [hc]
    · intro found reason hfound
      obtain ⟨rfl, -⟩ := Prod.mk.inj (Option.some.inj (hdev.symm.trans hfound))
      simp [hc]
  · refine ⟨?_, ?_, fun _ hall => ?_, ?_, ?_⟩
    · intro path' hmem hforce _ _
      obtain rfl : path' = path := by simpa [hc] using hmem
      exact ⟨dev.path, hc, hmatch hforce⟩
    · intro probe' hmem hforce hno
      obtain rfl : probe' = dev.path := by simpa [hc] using hmem
      exact absurd (hmatch hforce) hno
    · exact absurd (by simp [hc]) (hall path)
    · intro probe' path' hprobe hr hmem
      obtain rfl : probe' = dev.path := by simpa [hc] using hprobe
      obtain rfl : path' = path := by simpa [hc] using hmem
      exact hreq hr
    · intro found reason hfound
      obtain ⟨rfl, -⟩ := Prod.mk.inj (Option.some.inj (hdev.symm.trans hfound))
      refine ⟨fun probe' hprobe => by simpa [hc] using hprobe, fun path' hmem => ?_⟩
      obtain rfl : path' = path := by simpa [hc] using hmem
      exact hstay

end McuUpdater.Flashers
