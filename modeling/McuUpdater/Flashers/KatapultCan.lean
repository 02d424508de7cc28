import McuUpdater.Flashers.Katapult
import McuUpdater.Lib.FirstOf

/-! `flashers/flash.py`: one board on the CAN bus written through katapult's flashtool. The
process, the interfaces and the sidecar are given by what each reading of them gives; the
reporter does not raise. -/
namespace McuUpdater.Flashers
open PyText PyValue FirstOf

/-- One run of flashtool for the uuid on this interface: `-s`, or the write. -/
inductive CanCommand
  | status (interface : Str)
  | write (interface : Str)
  deriving DecidableEq

inductive CanError
  | configCorrupt
  | toolMissing
  | binaryMissing
  | noInterface
  | runFailed
  | offsetMismatch
  /-- `f"{app_address:#x}"` of a value that is no int -/
  | badAddress
  /-- a known native node whose status check failed everywhere -/
  | notAnswering
  | writeFailed
  deriving DecidableEq

structure CanCall where
  dryRun : Bool
  force : Bool
  python : Str
  /-- `find_flashtool`, which raises where katapult is not declared -/
  flashtool : Option Str
  flashtoolExists : Bool
  fwBin : Str
  fwBinExists : Bool
  uuid : Str
  bridge : Option Bool
  /-- the interface that Klipper has configured for the uuid -/
  interface : Option Str
  /-- `list_can_interfaces` -/
  interfaces : List Str
  /-- `side.get("app_address")` -/
  appAddress : PyVal
  run : CanCommand → Run

structure CanFlash where
  commands : List CanCommand
  result : Except CanError Unit
  deriving DecidableEq

section Model
variable (c : CanCall)

def CanCall.selected : List Str :=
  match c.interface with
  | some interface => [interface]
  | none => c.interfaces

def CanCall.args : CanCommand → List Str
  | .status interface => [c.python, c.flashtool.getD [], "-i".toList, interface, "-u".toList,
    c.uuid, "-f".toList, c.fwBin, "-s".toList]
  | .write interface => [c.python, c.flashtool.getD [], "-i".toList, interface, "-u".toList,
    c.uuid, "-f".toList, c.fwBin]

/-- What a run has in its transcript: the command line, then the output. -/
def CanCall.transcript (cmd : CanCommand) (output : List Str) : List Str :=
  joinWith [' '] ((c.args cmd).map quote) :: output

/-- What the check makes of the address that a status check read. -/
def CanCall.compare (board : Option Nat) : Except CanError Unit :=
  match board with
  | none => if c.force then .ok () else .error .offsetMismatch
  | some board =>
    if c.appAddress.eqInt board then .ok ()
    -- the message shows the address before `force` is looked at
    else if !formatsAsHex c.appAddress then .error .badAddress
    else if c.force then .ok ()
    else .error .offsetMismatch

def CanCall.probe (interface : Str) : Attempt CanError Str :=
  match c.run (.status interface) with
  | .raises => .stop .runFailed
  | .exited output rc =>
    if rc ≠ 0 then .next
    else
      match c.compare (parseApplicationStart (c.transcript (.status interface) output)) with
      | .error e => .stop e
      | .ok () => .done interface

/-- `_report_offset_mismatch`, which can raise where it shows the address. -/
def CanCall.reportsOffset (transcript : List Str) : Bool :=
  match parseApplicationStart transcript with
  | none => true
  | some board => c.appAddress.isNone || c.appAddress.eqInt board || formatsAsHex c.appAddress

/-- The write on one interface, with the report that follows one that exits 0. -/
def CanCall.attemptWrite (interface : Str) : Attempt CanError Str :=
  match c.run (.write interface) with
  | .raises => .stop .runFailed
  | .exited output rc =>
    if rc ≠ 0 then .next
    else if !c.reportsOffset (c.transcript (.write interface) output) then .stop .badAddress
    else .done interface

/-- Whether the interfaces are asked before anything is written. -/
def CanCall.probes : Bool := c.bridge != some true && !c.appAddress.isNone

/-- The status checks, and the interface that answered one. -/
def CanCall.probeEach : Search Str CanError Str :=
  if c.probes then firstOf c.probe c.selected else ⟨[], .ok none⟩

/-- The write, after what the status checks ran. -/
def CanCall.writeEach (commands : List CanCommand) (interfaces : List Str) : CanFlash :=
  let writes := firstOf c.attemptWrite interfaces
  ⟨commands ++ writes.tried.map .write,
    match writes.outcome with
    | .error e => .error e
    | .ok none => .error .writeFailed
    | .ok (some _) => .ok ()⟩

/-- `flash_katapult_can`; a dry run reports the write and runs nothing. -/
def flashKatapultCan : CanFlash :=
  if c.flashtool.isNone then ⟨[], .error .configCorrupt⟩
  else if !c.flashtoolExists then ⟨[], .error .toolMissing⟩
  else if !c.fwBinExists then ⟨[], .error .binaryMissing⟩
  else if c.selected = [] then ⟨[], .error .noInterface⟩
  else if c.dryRun then ⟨[], .ok ()⟩
  else
    let commands := c.probeEach.tried.map CanCommand.status
    match c.probeEach.outcome with
    | .error e => ⟨commands, .error e⟩
    | .ok (some interface) => c.writeEach commands [interface]
    | .ok none =>
      if c.probes && c.bridge == some false then ⟨commands, .error .notAnswering⟩
      else c.writeEach commands c.selected

def CanCall.Answers (interface : Str) : Prop :=
  ∃ output, c.run (.status interface) = .exited output 0

def CanCall.Silent (interface : Str) : Prop :=
  ∃ output rc, c.run (.status interface) = .exited output rc ∧ rc ≠ 0

/-- The status check on this interface exited 0 and read the recorded address. -/
def CanCall.Matches (interface : Str) : Prop :=
  ∃ output board, c.run (.status interface) = .exited output 0 ∧
    parseApplicationStart (c.transcript (.status interface) output) = some board ∧
    c.appAddress.eqInt board

def CanCall.Accepted (interface : Str) : Prop :=
  ∃ output, c.run (.write interface) = .exited output 0

/-- What one unforced call with a recorded address keeps to, and what any call does. -/
structure CanGuarded : Prop where
  /-- the status checks come first, and nothing is written where they did not ask -/
  ordered : ∃ statuses writes : List Str, (flashKatapultCan c).commands =
    statuses.map .status ++ writes.map .write ∧
    (c.appAddress.isNone = false → c.bridge ≠ some true → writes ⊆ statuses)
  checked : ∀ i, .write i ∈ (flashKatapultCan c).commands → c.force = false →
    c.appAddress.isNone = false →
    c.bridge = some true ∨ c.Matches i ∨ c.bridge = none ∧ ∀ j ∈ c.selected, c.Silent j
  refused : ∀ i, .status i ∈ (flashKatapultCan c).commands → c.force = false →
    c.Answers i → ¬c.Matches i →
    (∀ j, .write j ∉ (flashKatapultCan c).commands) ∧
      ∃ e, (flashKatapultCan c).result = .error e
  native : c.bridge = some false → c.appAddress.isNone = false →
    ∀ i, .write i ∈ (flashKatapultCan c).commands → c.Answers i
  once : ∀ before i after, (flashKatapultCan c).commands = before ++ .write i :: after →
    c.Accepted i → after = []
  written : (flashKatapultCan c).result = .ok () → c.dryRun = false →
    ∃ before i, (flashKatapultCan c).commands = before ++ [.write i] ∧ c.Accepted i
  rehearsed : c.dryRun = true → (flashKatapultCan c).commands = []
  configured : ∀ i j, c.interface = some i →
    (.status j ∈ (flashKatapultCan c).commands ∨ .write j ∈ (flashKatapultCan c).commands) → j = i

end Model

section Facts
variable {c : CanCall} {i : Str}

theorem CanCall.of_compare {board : Option Nat} (h : c.compare board = .ok ())
    (hforce : c.force = false) : ∃ b, board = some b ∧ c.appAddress.eqInt b := by
  unfold CanCall.compare at h
  cases board with
  | none => simp [hforce] at h
  | some b =>
    cases heq : c.appAddress.eqInt b with
    | true => exact ⟨b, rfl, heq⟩
    | false => cases hfmt : formatsAsHex c.appAddress <;> simp [heq, hfmt, hforce] at h

theorem CanCall.probe_next (h : c.probe i = .next) : c.Silent i := by
  unfold CanCall.probe at h
  cases hrun : c.run (.status i) with
  | raises => simp [hrun] at h
  | exited output rc =>
    by_cases hrc : rc = 0
    · cases hcmp : c.compare (parseApplicationStart (c.transcript (.status i) output)) <;>
        simp [hrun, hrc, hcmp] at h
    · exact ⟨output, rc, hrun, hrc⟩

theorem CanCall.probe_done {j : Str} (h : c.probe i = .done j) :
    j = i ∧ c.Answers i ∧ (c.force = false → c.Matches i) := by
  unfold CanCall.probe at h
  cases hrun : c.run (.status i) with
  | raises => simp [hrun] at h
  | exited output rc =>
    by_cases hrc : rc = 0
    · subst hrc
      cases hcmp : c.compare (parseApplicationStart (c.transcript (.status i) output)) with
      | error e => simp [hrun, hcmp] at h
      | ok u =>
        refine ⟨by simpa [hrun, hcmp, eq_comm] using h, ⟨output, hrun⟩, fun hforce => ?_⟩
        obtain ⟨board, hboard, heq⟩ := CanCall.of_compare hcmp hforce
        exact ⟨output, board, hrun, hboard, heq⟩
    · simp [hrun, hrc] at h

theorem CanCall.Answers.probe_ne (h : c.Answers i) : c.probe i ≠ .next := by
  intro hnext
  obtain ⟨output, hrun⟩ := h
  obtain ⟨output', rc, hrun', hrc⟩ := CanCall.probe_next hnext
  rw [hrun] at hrun'
  cases hrun'
  exact hrc rfl

theorem CanCall.Accepted.write_ne (h : c.Accepted i) : c.attemptWrite i ≠ .next := by
  obtain ⟨output, hrun⟩ := h
  unfold CanCall.attemptWrite
  rw [hrun]
  simp only [ne_eq, not_true_eq_false, if_false]
  split_ifs <;> simp

theorem CanCall.write_done {j : Str} (h : c.attemptWrite i = .done j) : c.Accepted i := by
  unfold CanCall.attemptWrite at h
  cases hrun : c.run (.write i) with
  | raises => simp [hrun] at h
  | exited output rc =>
    by_cases hrc : rc = 0
    · exact ⟨output, hrc ▸ hrun⟩
    · simp [hrun, hrc] at h

theorem CanCall.probeEach_tried (h : i ∈ c.probeEach.tried) : c.probes = true ∧ i ∈ c.selected := by
  unfold CanCall.probeEach at h
  split_ifs at h with hp
  · exact ⟨hp, (tried_isPrefix _ _).subset h⟩
  · cases h

theorem CanCall.probeEach_found (h : c.probeEach.outcome = .ok (some i)) :
    i ∈ c.selected ∧ c.Answers i ∧ (c.force = false → c.Matches i) := by
  unfold CanCall.probeEach at h
  split_ifs at h
  · obtain ⟨before, a, -, ha, hdone, -⟩ := of_done h
    obtain ⟨rfl, hans, hmatch⟩ := CanCall.probe_done hdone
    exact ⟨ha, hans, hmatch⟩
  · cases h

theorem CanCall.probeEach_none (h : c.probeEach.outcome = .ok none) (hp : c.probes = true) :
    ∀ j ∈ c.selected, c.Silent j := by
  rw [CanCall.probeEach, if_pos hp] at h
  exact fun j hj => CanCall.probe_next ((of_none h).2 j hj)

theorem CanCall.probeEach_refused (hi : i ∈ c.probeEach.tried) (hans : c.Answers i)
    (hforce : c.force = false) (hno : ¬c.Matches i) : ∃ e, c.probeEach.outcome = .error e := by
  have hp := (CanCall.probeEach_tried hi).1
  rw [CanCall.probeEach, if_pos hp] at hi ⊢
  rcases of_tried hi hans.probe_ne with ⟨e, -, hout⟩ | ⟨b, hdone, -⟩
  · exact ⟨e, hout⟩
  · exact absurd ((CanCall.probe_done hdone).2.2 hforce) hno

theorem CanCall.writeEach_commands (commands : List CanCommand) (l : List Str) :
    (c.writeEach commands l).commands
      = commands ++ (firstOf c.attemptWrite l).tried.map CanCommand.write := rfl

theorem CanCall.writeEach_ok {commands : List CanCommand} {l : List Str}
    (h : (c.writeEach commands l).result = .ok ()) :
    ∃ before j, (c.writeEach commands l).commands = before ++ [.write j] ∧ c.Accepted j := by
  unfold CanCall.writeEach at h ⊢
  cases hout : (firstOf c.attemptWrite l).outcome with
  | error e => simp [hout] at h
  | ok found =>
    cases found with
    | none => simp [hout] at h
    | some j =>
      obtain ⟨before, a, ht, -, hdone, -⟩ := of_done hout
      exact ⟨commands ++ before.map .write, a, by simp [ht], CanCall.write_done hdone⟩

/-- What a call runs: nothing; status checks alone, and it raises; or, after them, the
writes, on the interface that answered or on each of them where none did. -/
theorem flashKatapultCan_cases (c : CanCall) :
    ((flashKatapultCan c).commands = [] ∧
      (c.dryRun = true ∨ ∃ e, (flashKatapultCan c).result = .error e)) ∨
    (c.dryRun = false ∧ ∃ e, flashKatapultCan c = ⟨c.probeEach.tried.map .status, .error e⟩) ∨
    (c.dryRun = false ∧ ∃ i, c.probeEach.outcome = .ok (some i) ∧
      flashKatapultCan c = c.writeEach (c.probeEach.tried.map .status) [i]) ∨
    (c.dryRun = false ∧ c.probeEach.outcome = .ok none ∧
      (c.probes = true → c.bridge ≠ some false) ∧
      flashKatapultCan c = c.writeEach (c.probeEach.tried.map .status) c.selected) := by
  unfold flashKatapultCan
  iterate 4
    split
    · exact Or.inl ⟨rfl, Or.inr ⟨_, rfl⟩⟩
  cases hdry : c.dryRun with
  | true => exact Or.inl ⟨rfl, Or.inl rfl⟩
  | false =>
    refine Or.inr ?_
    cases hout : c.probeEach.outcome with
    | error e => exact Or.inl ⟨rfl, e, by simp⟩
    | ok found =>
      cases found with
      | some i => exact Or.inr (Or.inl ⟨rfl, i, rfl, by simp⟩)
      | none =>
        by_cases hb : (c.probes && c.bridge == some false) = true
        · exact Or.inl ⟨rfl, .notAnswering, by simp [hb]⟩
        · refine Or.inr (Or.inr ⟨rfl, rfl, fun hp hf => hb (by simp [hp, hf]), ?_⟩)
          simp [hb]

theorem split_writes {tried writes : List Str} {before after : List CanCommand}
    (h : tried.map CanCommand.status ++ writes.map CanCommand.write
      = before ++ .write i :: after) :
    ∃ l₁ l₂, writes = l₁ ++ i :: l₂ ∧ after = l₂.map .write := by
  induction tried generalizing before with
  | nil =>
    obtain ⟨l₁, l₂, rfl, -, hl₂⟩ := List.map_eq_append_iff.mp h
    obtain ⟨j, l₂, rfl, hj, rfl⟩ := List.map_eq_cons_iff.mp hl₂
    cases hj
    exact ⟨l₁, l₂, rfl, rfl⟩
  | cons t tried ih =>
    cases before with
    | nil => simp at h
    | cons x before => exact ih (List.cons.inj h).2

theorem CanCall.writeEach_once {tried l : List Str} {before after : List CanCommand}
    (h : (c.writeEach (tried.map .status) l).commands = before ++ .write i :: after)
    (hacc : c.Accepted i) : after = [] := by
  obtain ⟨l₁, l₂, hl, rfl⟩ := split_writes h
  rw [last_of_tried hl hacc.write_ne, List.map_nil]

theorem CanCall.write_of_writeEach {tried l : List Str}
    (h : .write i ∈ (c.writeEach (tried.map .status) l).commands) : i ∈ l := by
  rw [CanCall.writeEach_commands] at h
  simp only [List.mem_append, List.mem_map, reduceCtorEq, and_false, exists_false, false_or,
    CanCommand.write.injEq, exists_eq_right] at h
  exact (tried_isPrefix _ _).subset h

theorem CanCall.status_of_writeEach {tried l : List Str}
    (h : .status i ∈ (c.writeEach (tried.map .status) l).commands) : i ∈ tried := by
  rw [CanCall.writeEach_commands] at h
  simpa using h

theorem CanCall.of_status (h : .status i ∈ (flashKatapultCan c).commands) :
    i ∈ c.probeEach.tried := by
  rcases flashKatapultCan_cases c with ⟨hc, -⟩ | ⟨-, e, hc⟩ | ⟨-, j, -, hc⟩ | ⟨-, -, -, hc⟩
  · simp [hc] at h
  · simpa [hc] using h
  · exact CanCall.status_of_writeEach (hc ▸ h)
  · exact CanCall.status_of_writeEach (hc ▸ h)

/-- A write is on the interface that answered, or follows the failure of every check. -/
theorem CanCall.of_write (h : .write i ∈ (flashKatapultCan c).commands) :
    c.probeEach.outcome = .ok (some i) ∨
    c.probeEach.outcome = .ok none ∧ i ∈ c.selected ∧ (c.probes = true → c.bridge ≠ some false) := by
  rcases flashKatapultCan_cases c with ⟨hc, -⟩ | ⟨-, e, hc⟩ | ⟨-, j, hout, hc⟩ |
    ⟨-, hout, hbridge, hc⟩
  · simp [hc] at h
  · simp [hc] at h
  · rw [hc] at h
    obtain rfl := List.mem_singleton.mp (CanCall.write_of_writeEach h)
    exact Or.inl hout
  · exact Or.inr ⟨hout, CanCall.write_of_writeEach (hc ▸ h), hbridge⟩

theorem CanCall.no_write_of_error {e : CanError} (h : c.probeEach.outcome = .error e) :
    .write i ∉ (flashKatapultCan c).commands := by
  intro hw
  rcases CanCall.of_write hw with hout | ⟨hout, -⟩ <;> rw [h] at hout <;> cases hout

theorem CanCall.error_of_error {e : CanError} (h : c.probeEach.outcome = .error e)
    (hrun : (flashKatapultCan c).commands ≠ []) :
    ∃ e, (flashKatapultCan c).result = .error e := by
  rcases flashKatapultCan_cases c with ⟨hc, -⟩ | ⟨-, e, hc⟩ | ⟨-, j, hout, -⟩ | ⟨-, hout, -⟩
  · exact absurd hc hrun
  · exact ⟨e, by rw [hc]⟩
  · rw [h] at hout
    cases hout
  · rw [h] at hout
    cases hout

theorem CanCall.probeEach_asked (h : c.probeEach.outcome = .ok (some i)) :
    i ∈ c.probeEach.tried := by
  unfold CanCall.probeEach at h ⊢
  split_ifs at h ⊢
  · obtain ⟨before, a, htried, -, hdone, -⟩ := of_done h
    obtain ⟨rfl, -⟩ := CanCall.probe_done hdone
    simp [htried]
  · cases h

theorem CanCall.probes_of_recorded (hsome : c.appAddress.isNone = false)
    (hb : c.bridge ≠ some true) : c.probes = true := by
  simp [CanCall.probes, hsome, hb]

end Facts

/-- No unforced write to a native node without a status check of the same call that read
the recorded address on that interface; a write of a board that may be a bridge follows one
too, or the failure of every status check. Nothing is run after a write that was accepted. -/
theorem can_offset_guarded (c : CanCall) : CanGuarded c where
  ordered := by
    rcases flashKatapultCan_cases c with ⟨hc, -⟩ | ⟨-, e, hc⟩ | ⟨-, i, hout, hc⟩ | ⟨-, hout, -, hc⟩
    · exact ⟨[], [], by simp [hc], by simp⟩
    · exact ⟨c.probeEach.tried, [], by simp [hc], by simp⟩
    · refine ⟨c.probeEach.tried, _, by rw [hc, CanCall.writeEach_commands], fun _ _ => ?_⟩
      refine List.Subset.trans (tried_isPrefix _ _).subset ?_
      simpa using CanCall.probeEach_asked hout
    · refine ⟨c.probeEach.tried, _, by rw [hc, CanCall.writeEach_commands], fun hsome hb => ?_⟩
      rw [CanCall.probeEach, if_pos (CanCall.probes_of_recorded hsome hb)] at hout ⊢
      rw [(of_none hout).1]
      exact (tried_isPrefix _ _).subset
  checked i hw hforce hsome := by
    by_cases hb : c.bridge = some true
    · exact Or.inl hb
    · have hp := CanCall.probes_of_recorded hsome hb
      rcases CanCall.of_write hw with hout | ⟨hout, -, hbridge⟩
      · exact Or.inr (Or.inl ((CanCall.probeEach_found hout).2.2 hforce))
      · refine Or.inr (Or.inr ⟨?_, CanCall.probeEach_none hout hp⟩)
        cases hb' : c.bridge with
        | none => rfl
        | some b => cases b with
          | true => exact absurd hb' hb
          | false => exact absurd hb' (hbridge hp)
  refused i hs hforce hans hno := by
    obtain ⟨e, hout⟩ := CanCall.probeEach_refused (CanCall.of_status hs) hans hforce hno
    exact ⟨fun j => CanCall.no_write_of_error hout,
      CanCall.error_of_error hout (List.ne_nil_of_mem hs)⟩
  native hb hsome i hw := by
    rcases CanCall.of_write hw with hout | ⟨-, -, hbridge⟩
    · exact (CanCall.probeEach_found hout).2.1
    · exact absurd hb (hbridge (CanCall.probes_of_recorded hsome (by simp [hb])))
  once before i after h hacc := by
    rcases flashKatapultCan_cases c with ⟨hc, -⟩ | ⟨-, e, hc⟩ | ⟨-, j, -, hc⟩ | ⟨-, -, -, hc⟩
    · simp [hc] at h
    · have hmem : CanCommand.write i ∈ (flashKatapultCan c).commands := by simp [h]
      simp [hc] at hmem
    · exact CanCall.writeEach_once (hc ▸ h) hacc
    · exact CanCall.writeEach_once (hc ▸ h) hacc
  written hok hdry := by
    rcases flashKatapultCan_cases c with ⟨-, hr⟩ | ⟨-, e, hc⟩ | ⟨-, j, -, hc⟩ | ⟨-, -, -, hc⟩
    · obtain ⟨e, he⟩ := hr.resolve_left (by simp [hdry])
      rw [hok] at he
      cases he
    · simp [hc] at hok
    · rw [hc] at hok ⊢
      exact CanCall.writeEach_ok hok
    · rw [hc] at hok ⊢
      exact CanCall.writeEach_ok hok
  rehearsed hdry := by
    rcases flashKatapultCan_cases c with ⟨hc, -⟩ | ⟨hn, -⟩ | ⟨hn, -⟩ | ⟨hn, -⟩
    · exact hc
    all_goals
      rw [hdry] at hn
      cases hn
  configured i j hi hmem := by
    have hsel : c.selected = [i] := by simp [CanCall.selected, hi]
    suffices j ∈ c.selected from List.mem_singleton.mp (hsel ▸ this)
    rcases hmem with hs | hw
    · exact (CanCall.probeEach_tried (CanCall.of_status hs)).2
    · rcases CanCall.of_write hw with hout | ⟨-, hsel, -⟩
      · exact (CanCall.probeEach_found hout).1
      · exact hsel

end McuUpdater.Flashers
