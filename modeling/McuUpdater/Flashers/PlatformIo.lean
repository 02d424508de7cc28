import McuUpdater.Discovery.KnomiSerial

/-! `flashers/platformio.py`: at which port each device of a batch is written. What the devices
answer, and what `pio` comes to, is given; the texts of what is reported are left out. -/
namespace McuUpdater.Flashers.PlatformIo
open PyText Dict
open KnomiSerial (Devices askDevices readDeviceMap heard_of_answered remembered_of_not_answered)

/-- A target's `detail`. -/
structure PortTarget where
  type : Str
  port : Option Str
  deviceId : Str
  firstInstall : Bool
  /-- its family's helper can identify its devices -/
  identifier : Bool

/-- What the calls of one batch come to. -/
structure Calls where
  dryRun : Bool
  /-- `identify` of a type's helper before the writes, `none` where it raises -/
  ask : Str → Option Devices
  /-- the same after the first write at this port -/
  askAgain : Str → Str → Option Devices
  realpath : Str → Str
  /-- the source tree and `pio` are there -/
  ready : Str → Bool
  returncode : Str → Str → Int

inductive Confidence
  | answered
  | remembered
  deriving DecidableEq

inductive PortError
  /-- others answered, and this one did not -/
  | silent
  /-- others are remembered, and this one is not -/
  | unseen
  | noPort
  | notReady
  | exited (returncode : Int)
  deriving DecidableEq

structure PortChoice where
  port : Option Str
  confidence : Option Confidence
  deriving DecidableEq

/-- `port_for` -/
def portFor (t : PortTarget) (discovered : Devices) : Except PortError PortChoice :=
  if discovered = [] then .ok ⟨t.port, none⟩
  else if t.deviceId = [] then .ok ⟨t.port, none⟩
  else
    match discovered.lookup t.deviceId with
    | none => .error (if discovered.any fun d => d.2.answered then .silent else .unseen)
    | some found => .ok ⟨some found.port, some (if found.answered then .answered else .remembered)⟩

/-- What was written, and what was returned. -/
structure PortWrite where
  /-- the ttys that `pio` was run for -/
  written : List Str
  result : Except PortError (Str × Option Confidence)
  /-- the target's `device_id` after it -/
  deviceId : Str

section Model
variable (c : Calls)

/-- `by_type` -/
def askedTypes (targets : List PortTarget) : List (Str × Bool) :=
  ((targets.filter fun t => !t.firstInstall).map fun t => (t.type, t.identifier)).foldl
    (dictPut Prod.fst) []

/-- `_identify` -/
def identify (asked : Str × Bool) : Devices := if asked.2 then (c.ask asked.1).getD [] else []

/-- `prepared` -/
def prepared (targets : List PortTarget) : List (Str × Devices) :=
  if c.dryRun then [] else (askedTypes targets).map fun asked => (asked.1, identify c asked)

/-- `upload`, of `providers/pio.py` -/
def upload (type : Str) (port : Option Str) : List Str × Except PortError Str :=
  match port with
  | none | some [] => ([], .error .noPort)
  | some port =>
    if !c.ready type then ([], .error .notReady)
    else if c.dryRun then ([], .ok port)
    else
      let tty := c.realpath port
      let returncode := c.returncode type tty
      ([tty], if returncode = 0 then .ok port else .error (.exited returncode))

/-- `_announced` -/
def announced (t : PortTarget) (port : Str) : Option Str :=
  if t.identifier then
    (c.askAgain t.type port).bind fun heard =>
      (heard.find? fun d => d.2.answered && decide (d.2.port ≠ []) &&
        decide (c.realpath d.2.port = c.realpath port)).map Prod.fst
  else none

/-- Where a target is written, which for a new device is where the scan found it. -/
def choosePort (session : List (Str × Devices)) (t : PortTarget) : Except PortError PortChoice :=
  if t.firstInstall then .ok ⟨t.port, none⟩ else portFor t ((session.lookup t.type).getD [])

/-- `PlatformIO.write` -/
def writePort (session : List (Str × Devices)) (t : PortTarget) : PortWrite :=
  match choosePort session t with
  | .error e => ⟨[], .error e, t.deviceId⟩
  | .ok choice =>
    match upload c t.type choice.port with
    | (written, .error e) => ⟨written, .error e, t.deviceId⟩
    | (written, .ok port) =>
      if t.firstInstall && !c.dryRun then
        match announced c t port with
        | none => ⟨written, .ok (port, choice.confidence), t.deviceId⟩
        | some reported => ⟨written, .ok (port, some .answered), reported⟩
      else ⟨written, .ok (port, choice.confidence), t.deviceId⟩

/-- `hardware_id_key` -/
def hardwareIdKey (lower : Str → Str) (ident : Str) : Str := "hwid:".toList ++ lower ident

/-- The key of `record`, if there is one. -/
def PortWrite.recordKey (lower : Str → Str) (w : PortWrite) : Option Str :=
  if w.deviceId = [] then none else some (hardwareIdKey lower w.deviceId)

/-- What the listening says is so: the device that answered at a port is on its tty. -/
def Truthful (on : Str → Option Str) (devices : Devices) : Prop :=
  ∀ id d, (id, d) ∈ devices → d.answered = true → on (c.realpath d.port) = some id

/-- The writes of one batch of which each is of a device known by its id. -/
structure WritesConfirmed (targets : List PortTarget) : Prop where
  /-- a type of which a device is known is asked for once, as its last such target says, and on a
  dry run nothing is asked or written -/
  once_asked : ((prepared c targets).map Prod.fst).Nodup
  asked : c.dryRun = false → ∀ type, (prepared c targets).lookup type =
    ((targets.filter fun t => !t.firstInstall && decide (t.type = type)).getLast?).map fun t =>
      identify c (type, t.identifier)
  dry : c.dryRun = true → prepared c targets = [] ∧
    ∀ t, (writePort c (prepared c targets) t).written = []
  once : ∀ t, (writePort c (prepared c targets) t).written.length ≤ 1
  /-- where some device of the type was found, one with an id is written at the port it was found
  on, or not at all -/
  found : ∀ t ∈ targets, t.firstInstall = false → t.deviceId ≠ [] →
    ∀ devices, (prepared c targets).lookup t.type = some devices → devices ≠ [] →
      ∀ tty ∈ (writePort c (prepared c targets) t).written,
        ∃ d, devices.lookup t.deviceId = some d ∧ tty = c.realpath d.port
  missing : ∀ t ∈ targets, t.firstInstall = false → t.deviceId ≠ [] →
    ∀ devices, (prepared c targets).lookup t.type = some devices → devices ≠ [] →
      devices.lookup t.deviceId = none → (writePort c (prepared c targets) t).written = [] ∧
        (writePort c (prepared c targets) t).result =
          .error (if devices.any fun d => d.2.answered then .silent else .unseen)
  /-- a write that is said to be answered is of the device that is there -/
  there : ∀ on, (∀ type devices, c.ask type = some devices → Truthful c on devices) →
    ∀ t ∈ targets, t.firstInstall = false → ∀ port,
      (writePort c (prepared c targets) t).result = .ok (port, some .answered) →
        on (c.realpath port) = some t.deviceId
  /-- and of a KNOMI that was heard with this id at this port; one that is remembered there was
  not heard, as nothing could be -/
  knomi : ∀ lower text sources, ∀ t ∈ targets, t.firstInstall = false →
    c.ask t.type = some (askDevices lower text sources) → ∀ port confidence,
      (writePort c (prepared c targets) t).result = .ok (port, some confidence) →
        match confidence with
        | .answered => ∃ items key entry value, sources.heard = some (some (.dict items)) ∧
            (key, entry) ∈ items ∧ entry.item "port" = some value ∧
            t.deviceId = lower (text key) ∧ port = text value
        | .remembered => sources.heard = none ∧ ∃ d, d.port = port ∧ d.present = true ∧
            (t.deviceId, d) ∈ readDeviceMap lower text sources.onDisk sources.map
  /-- a device is filed under the id it is known by, or, a new one, under the id that was heard at
  its port after the write -/
  filed : ∀ lower, ∀ t ∈ targets, ∀ key,
    (writePort c (prepared c targets) t).recordKey lower = some key →
      (t.deviceId ≠ [] ∧ key = hardwareIdKey lower t.deviceId) ∨
      t.firstInstall = true ∧ ∃ port heard id d, key = hardwareIdKey lower id ∧
        (writePort c (prepared c targets) t).result = .ok (port, some .answered) ∧
        c.askAgain t.type port = some heard ∧ (id, d) ∈ heard ∧ d.answered = true ∧
        c.realpath d.port = c.realpath port ∧
        (writePort c (prepared c targets) t).written = [c.realpath port]

end Model

section Facts
variable {c : Calls} {t : PortTarget} {targets : List PortTarget} {session : List (Str × Devices)}
  {discovered : Devices} {choice : PortChoice} {port : Str}

theorem portFor_ok (h : portFor t discovered = .ok choice) :
    ((discovered = [] ∨ t.deviceId = []) ∧ choice = ⟨t.port, none⟩) ∨
    ∃ d, discovered.lookup t.deviceId = some d ∧
      choice = ⟨some d.port, some (if d.answered then .answered else .remembered)⟩ := by
  unfold portFor at h
  by_cases hnone : discovered = []
  case pos =>
    rw [if_pos hnone] at h
    exact Or.inl ⟨Or.inl hnone, (Except.ok.inj h).symm⟩
  rw [if_neg hnone] at h
  by_cases hid : t.deviceId = []
  case pos =>
    rw [if_pos hid] at h
    exact Or.inl ⟨Or.inr hid, (Except.ok.inj h).symm⟩
  rw [if_neg hid] at h
  split at h
  case h_1 => cases h
  case h_2 d hd => exact Or.inr ⟨d, hd, (Except.ok.inj h).symm⟩

theorem upload_cases (c : Calls) (type : Str) (port : Option Str) :
    ((upload c type port).1 = [] ∧ ((c.dryRun = true ∧ ∃ p, port = some p ∧ (upload c type port).2 = .ok p) ∨
      ∃ e, (upload c type port).2 = .error e)) ∨
    ∃ p, port = some p ∧ c.dryRun = false ∧ (upload c type port).1 = [c.realpath p] ∧
      ((upload c type port).2 = .ok p ∨ ∃ e, (upload c type port).2 = .error e) := by
  unfold upload
  split
  · exact Or.inl ⟨rfl, Or.inr ⟨_, rfl⟩⟩
  · exact Or.inl ⟨rfl, Or.inr ⟨_, rfl⟩⟩
  · rename_i p _
    split_ifs with hready hdry
    · exact Or.inl ⟨rfl, Or.inr ⟨_, rfl⟩⟩
    · exact Or.inl ⟨rfl, Or.inl ⟨hdry, p, rfl, rfl⟩⟩
    · refine Or.inr ⟨p, rfl, by simpa using hdry, rfl, ?_⟩
      dsimp only
      split_ifs
      · exact Or.inl rfl
      · exact Or.inr ⟨_, rfl⟩

theorem writePort_cases (c : Calls) (session : List (Str × Devices)) (t : PortTarget) :
    (∃ e, choosePort session t = .error e ∧ writePort c session t = ⟨[], .error e, t.deviceId⟩) ∨
    ∃ choice, choosePort session t = .ok choice ∧
      (writePort c session t).written = (upload c t.type choice.port).1 ∧
      ((∃ e, (upload c t.type choice.port).2 = .error e ∧
          (writePort c session t).result = .error e ∧ (writePort c session t).deviceId = t.deviceId) ∨
        ∃ port, (upload c t.type choice.port).2 = .ok port ∧
          ((writePort c session t).result = .ok (port, choice.confidence) ∧
              (writePort c session t).deviceId = t.deviceId ∨
            t.firstInstall = true ∧ c.dryRun = false ∧ ∃ reported, announced c t port = some reported ∧
              (writePort c session t).result = .ok (port, some .answered) ∧
              (writePort c session t).deviceId = reported)) := by
  unfold writePort
  cases hchoice : choosePort session t with
  | error e => exact Or.inl ⟨e, rfl, rfl⟩
  | ok choice =>
    refine Or.inr ⟨choice, rfl, ?_⟩
    dsimp only
    rcases upload c t.type choice.port with ⟨written, result⟩
    cases result with
    | error e => exact ⟨rfl, Or.inl ⟨e, rfl, rfl, rfl⟩⟩
    | ok port =>
      dsimp only
      split_ifs with hfirst
      · simp only [Bool.and_eq_true, Bool.not_eq_true'] at hfirst
        cases hann : announced c t port with
        | none => exact ⟨rfl, Or.inr ⟨port, rfl, Or.inl ⟨rfl, rfl⟩⟩⟩
        | some reported =>
          exact ⟨rfl, Or.inr ⟨port, rfl, Or.inr ⟨hfirst.1, hfirst.2, reported, hann, rfl, rfl⟩⟩⟩
      · exact ⟨rfl, Or.inr ⟨port, rfl, Or.inl ⟨rfl, rfl⟩⟩⟩

theorem announced_some {reported : Str} (h : announced c t port = some reported) :
    ∃ heard d, c.askAgain t.type port = some heard ∧ (reported, d) ∈ heard ∧ d.answered = true ∧
      c.realpath d.port = c.realpath port := by
  unfold announced at h
  split_ifs at h
  obtain ⟨heard, hheard, h⟩ := Option.bind_eq_some_iff.mp h
  obtain ⟨⟨id, d⟩, hfind, rfl⟩ := Option.map_eq_some_iff.mp h
  have hp := List.find?_some hfind
  simp only [Bool.and_eq_true, decide_eq_true_eq] at hp
  exact ⟨heard, d, hheard, List.mem_of_find?_eq_some hfind, hp.1.1, hp.2⟩

theorem choosePort_eq (hfirst : t.firstInstall = false) {devices : Devices}
    (h : session.lookup t.type = some devices) : choosePort session t = portFor t devices := by
  rw [choosePort, if_neg (by simp [hfirst]), h]
  rfl

theorem nodup_prepared (c : Calls) (targets : List PortTarget) :
    ((prepared c targets).map Prod.fst).Nodup := by
  unfold prepared
  split_ifs
  · simp
  · rw [List.map_map]
    exact nodup_foldl_dictPut (by simp) _

theorem lookup_prepared (hdry : c.dryRun = false) (type : Str) :
    (prepared c targets).lookup type =
      ((targets.filter fun t => !t.firstInstall && decide (t.type = type)).getLast?).map fun t =>
        identify c (type, t.identifier) := by
  have hasked : (((targets.filter fun t => !t.firstInstall).map fun t =>
      (t.type, t.identifier)).filter (·.1 = type)).getLast? =
      ((targets.filter fun t => !t.firstInstall && decide (t.type = type)).getLast?).map fun t =>
        (t.type, t.identifier) := by
    rw [List.filter_map, List.filter_filter, List.getLast?_map]
    congr 3
    exact funext fun t => Bool.and_comm _ _
  rw [prepared, if_neg (by simp [hdry]), lookup_map_snd, askedTypes, lookup_foldl_dictPut, hasked,
    List.lookup_nil, Option.or_none, Option.map_map, Option.map_map]
  rfl

theorem of_lookup_prepared {type : Str} {devices : Devices}
    (h : (prepared c targets).lookup type = some devices) :
    devices = [] ∨ c.ask type = some devices := by
  obtain ⟨_, _, hmem, -⟩ := List.lookup_eq_some_iff.mp h
  have hmem : (type, devices) ∈ prepared c targets := by
    rw [hmem]
    simp
  unfold prepared at hmem
  split_ifs at hmem
  · cases hmem
  obtain ⟨asked, -, heq⟩ := List.mem_map.mp hmem
  cases heq
  unfold identify
  split_ifs
  · cases c.ask asked.1 with
    | none => exact Or.inl rfl
    | some devices => exact Or.inr rfl
  · exact Or.inl rfl

theorem upload_ok {type : Str} {chosen : Option Str} (h : (upload c type chosen).2 = .ok port) :
    chosen = some port := by
  rcases upload_cases c type chosen with ⟨-, ⟨-, p, hp, hok⟩ | ⟨e, he⟩⟩ | ⟨p, hp, -, -, hok | ⟨e, he⟩⟩
  · rw [hok] at h
    rw [hp, Except.ok.inj h]
  · rw [he] at h
    cases h
  · rw [hok] at h
    rw [hp, Except.ok.inj h]
  · rw [he] at h
    cases h

theorem confirmed_of_write {confidence : Confidence} (hfirst : t.firstInstall = false)
    (h : (writePort c session t).result = .ok (port, some confidence)) :
    ∃ devices d, session.lookup t.type = some devices ∧ (t.deviceId, d) ∈ devices ∧
      d.port = port ∧ confidence = if d.answered then .answered else .remembered := by
  rcases writePort_cases c session t with ⟨e, -, he⟩ | ⟨choice, hchoice, -, hwrite⟩
  · rw [he] at h
    cases h
  rcases hwrite with ⟨e, -, he, -⟩ | ⟨p, hup, ⟨hresult, -⟩ | ⟨hf, -⟩⟩
  · rw [he] at h
    cases h
  · rw [hresult] at h
    obtain ⟨rfl, hconf⟩ : p = port ∧ choice.confidence = some confidence := by simpa using h
    rw [choosePort, if_neg (by simp [hfirst])] at hchoice
    rcases portFor_ok hchoice with ⟨-, rfl⟩ | ⟨d, hd, rfl⟩
    · cases hconf
    · cases hdevices : session.lookup t.type with
      | none => simp [hdevices] at hd
      | some devices =>
        rw [hdevices] at hd
        obtain ⟨before, after, hmem, -⟩ := List.lookup_eq_some_iff.mp hd
        refine ⟨devices, d, rfl, ?_, Option.some.inj (upload_ok hup), (Option.some.inj hconf).symm⟩
        rw [show devices = _ from hmem]
        simp
  · rw [hf] at hfirst
    cases hfirst

theorem unwritten_of_dryRun (hdry : c.dryRun = true) : (writePort c session t).written = [] := by
  rcases writePort_cases c session t with ⟨e, -, he⟩ | ⟨choice, -, hwritten, -⟩
  · rw [he]
  · rcases upload_cases c t.type choice.port with ⟨hnone, -⟩ | ⟨p, -, hwet, -⟩
    · rw [hwritten, hnone]
    · rw [hdry] at hwet
      cases hwet

theorem length_written_le : (writePort c session t).written.length ≤ 1 := by
  rcases writePort_cases c session t with ⟨e, -, he⟩ | ⟨choice, -, hwritten, -⟩
  · rw [he]
    simp
  · rcases upload_cases c t.type choice.port with ⟨hnone, -⟩ | ⟨p, -, -, hone, -⟩
    · rw [hwritten, hnone]
      simp
    · rw [hwritten, hone]
      simp

section Known
variable {devices : Devices} (hfirst : t.firstInstall = false) (hid : t.deviceId ≠ [])
  (hdevices : session.lookup t.type = some devices) (hne : devices ≠ [])
include hfirst hid hdevices hne

theorem found_of_written {tty : Str} (htty : tty ∈ (writePort c session t).written) :
    ∃ d, devices.lookup t.deviceId = some d ∧ tty = c.realpath d.port := by
  rcases writePort_cases c session t with ⟨e, -, he⟩ | ⟨choice, hchoice, hwritten, -⟩
  · rw [he] at htty
    cases htty
  · rw [choosePort_eq hfirst hdevices] at hchoice
    rcases portFor_ok hchoice with ⟨hnone, -⟩ | ⟨d, hd, rfl⟩
    · exact absurd hnone (by simp [hne, hid])
    · rw [hwritten] at htty
      rcases upload_cases c t.type (some d.port) with ⟨hnone, -⟩ | ⟨p, hp, -, hone, -⟩
      · rw [hnone] at htty
        cases htty
      · rw [hone, List.mem_singleton] at htty
        exact ⟨d, hd, by rw [htty, Option.some.inj hp]⟩

theorem unwritten_of_missing (hmissing : devices.lookup t.deviceId = none) :
    (writePort c session t).written = [] ∧ (writePort c session t).result =
      .error (if devices.any fun d => d.2.answered then .silent else .unseen) := by
  have hchoice : choosePort session t =
      .error (if devices.any fun d => d.2.answered then .silent else .unseen) := by
    rw [choosePort_eq hfirst hdevices, portFor, if_neg hne, if_neg hid, hmissing]
  rcases writePort_cases c session t with ⟨e, he, hwrite⟩ | ⟨choice, hok, -⟩
  · rw [hchoice] at he
    rw [hwrite, Except.error.inj he]
    exact ⟨rfl, rfl⟩
  · rw [hchoice] at hok
    cases hok

end Known

theorem filed_of_recordKey {lower : Str → Str} {key : Str}
    (hkey : (writePort c session t).recordKey lower = some key) :
    (t.deviceId ≠ [] ∧ key = hardwareIdKey lower t.deviceId) ∨
    t.firstInstall = true ∧ ∃ port heard id d, key = hardwareIdKey lower id ∧
      (writePort c session t).result = .ok (port, some .answered) ∧
      c.askAgain t.type port = some heard ∧ (id, d) ∈ heard ∧ d.answered = true ∧
      c.realpath d.port = c.realpath port ∧
      (writePort c session t).written = [c.realpath port] := by
  have hid : (writePort c session t).deviceId ≠ [] ∧
      key = hardwareIdKey lower (writePort c session t).deviceId := by
    unfold PortWrite.recordKey at hkey
    split_ifs at hkey with hnone
    exact ⟨hnone, (Option.some.inj hkey).symm⟩
  rcases writePort_cases c session t with ⟨e, -, he⟩ | ⟨choice, -, hwritten, hwrite⟩
  · rw [he] at hid
    exact Or.inl hid
  rcases hwrite with ⟨e, -, -, hsame⟩ | ⟨p, hup, ⟨-, hsame⟩ | ⟨hfirst, hwet, reported, hann, hresult, hnew⟩⟩
  · exact Or.inl (hsame ▸ hid)
  · exact Or.inl (hsame ▸ hid)
  · obtain ⟨heard, d, hask, hmem, hanswered, hport⟩ := announced_some hann
    refine Or.inr ⟨hfirst, p, heard, reported, d, hnew ▸ hid.2, hresult, hask, hmem, hanswered,
      hport, ?_⟩
    rcases upload_cases c t.type choice.port with ⟨-, ⟨hdry, -⟩ | ⟨e, he⟩⟩ | ⟨q, hq, -, hone, -⟩
    · rw [hwet] at hdry
      cases hdry
    · rw [he] at hup
      cases hup
    · rw [upload_ok hup] at hq
      rw [hwritten, hone, Option.some.inj hq]

end Facts

/-- Whatever the devices answer and `pio` comes to, a device known by its id is written where it
was found or not at all, and filed under an id that is its own. -/
theorem port_writes_confirmed (c : Calls) (targets : List PortTarget) :
    WritesConfirmed c targets := by
  refine ⟨nodup_prepared c targets, lookup_prepared,
    fun hdry => ⟨by rw [prepared, if_pos hdry], fun _ => unwritten_of_dryRun hdry⟩,
    fun _ => length_written_le,
    fun t _ hfirst hid devices hdevices hne tty htty =>
      found_of_written hfirst hid hdevices hne htty,
    fun t _ hfirst hid devices hdevices hne hmissing =>
      unwritten_of_missing hfirst hid hdevices hne hmissing,
    ?_, ?_, fun lower t _ key hkey => filed_of_recordKey hkey⟩
  · intro on htruth t _ hfirst port hresult
    obtain ⟨devices, d, hdevices, hmem, rfl, hconf⟩ := confirmed_of_write hfirst hresult
    have hanswered : d.answered = true := by
      by_contra hno
      simp [hno] at hconf
    rcases of_lookup_prepared hdevices with rfl | hask
    · cases hmem
    · exact htruth t.type devices hask t.deviceId d hmem hanswered
  · intro lower text sources t _ hfirst hask port confidence hresult
    obtain ⟨devices, d, hdevices, hmem, rfl, hconf⟩ := confirmed_of_write hfirst hresult
    have hdevices : devices = askDevices lower text sources := by
      rcases of_lookup_prepared hdevices with rfl | hsame
      · cases hmem
      · exact Option.some.inj (hsame.symm.trans hask)
    rw [hdevices] at hmem
    cases hanswered : d.answered with
    | true =>
      obtain ⟨items, key, entry, value, hheard, hitem, hvalue, hid, hport⟩ :=
        heard_of_answered hmem hanswered
      rw [hconf, hanswered]
      exact ⟨items, key, entry, value, hheard, hitem, hvalue, hid, hport⟩
    | false =>
      obtain ⟨hnone, hpresent, hmap⟩ := remembered_of_not_answered hmem hanswered
      rw [hconf, hanswered]
      exact ⟨hnone, d, rfl, hpresent, hmap⟩

end McuUpdater.Flashers.PlatformIo
