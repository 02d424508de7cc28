import McuUpdater.Flashers.Katapult
import McuUpdater.Lib.Dict
import McuUpdater.Lib.PyLines

/-! `discovery/dfu.py`: the boards that `dfu-util -l` lists, and how a write names one. -/
namespace McuUpdater.Discovery
open PyText Flashers

/-- One line of the listing; a board has one for each of its altsettings. -/
structure DfuLine where
  vidpid : Str
  serial : Option Str
  path : Option Str
  devnum : Option Str
  raw : Str
  deriving DecidableEq

/-- `[0-9a-fA-F]{n}` -/
def takeHex : Nat → Str → Option (Str × Str)
  | 0, s => some ([], s)
  | n + 1, c :: s =>
    if (Flashers.hexValue c).isSome then (takeHex n s).map fun (hex, rest) => (c :: hex, rest)
    else none
  | _ + 1, [] => none

/-- `\[([0-9a-fA-F]{4}:[0-9a-fA-F]{4})\]`, with what follows it. -/
def vidpidAt (s : Str) : Option (Str × Str) := do
  let (vid, s) ← takeHex 4 (← after ['['] s)
  let (pid, s) ← takeHex 4 (← after [':'] s)
  return (vid ++ ':' :: pid, ← after [']'] s)

/-- `key="([^"]*)"` -/
def quotedAt (key s : Str) : Option Str := do
  let s ← after (key ++ "=\"".toList) s
  let _ ← after ['"'] (s.dropWhile (· ≠ '"'))
  return s.takeWhile (· ≠ '"')

/-- One of these words somewhere in the text, in any case. -/
def mentions (words : List Str) (s : Str) : Bool :=
  (search (fun s => words.findSome? fun w => afterIgnoringCase w s) s).isSome

def blankToNone (s : Option Str) : Option Str := s.filter (· ≠ [])

/-- What a write is pinned to a board by, in the order of the arguments of `dfu-util`. -/
inductive Selector
  | path (p : Str)
  | serial (s : Str)
  | devnum (n : Str)
  | any
  deriving DecidableEq

def Selector.args : Selector → List Str
  | .path p => ["-p".toList, p]
  | .serial s => ["-S".toList, s]
  | .devnum n => ["-n".toList, n]
  | .any => []

/-- `dfu_selector` -/
def dfuSelector (device : DfuLine) : Selector :=
  match blankToNone device.path, blankToNone device.serial, blankToNone device.devnum with
  | some p, _, _ => .path p
  | none, some s, _ => .serial s
  | none, none, some n => .devnum n
  | none, none, none => .any

def DfuLine.key (line : DfuLine) : Str :=
  ((blankToNone line.path).or ((blankToNone line.devnum).or (blankToNone line.serial))).getD line.raw

section Model
-- `re`'s word characters and `\d`
variable (isWord isDecimal : Char → Bool)

/-- The last match of `(?=.*\bkey...)`, for a key that begins with a letter; `before` is the
character the text follows. -/
def lastMatch (matchAt : Str → Option Str) : Char → Str → Option Str
  | _, [] => none
  | before, c :: s =>
    (lastMatch matchAt c s).or (if isWord before then none else matchAt (c :: s))

def devnumAt (s : Str) : Option Str := do
  let s ← after "devnum=".toList s
  let n := s.takeWhile isDecimal
  if n = [] then none else some n

/-- `_DFU_LINE_RE.search` -/
def parseDfuLine (line : Str) : Option DfuLine :=
  (search vidpidAt line).map fun (vidpid, rest) =>
    { vidpid
      serial := lastMatch isWord (quotedAt "serial".toList) ']' rest
      path := lastMatch isWord (quotedAt "path".toList) ']' rest
      devnum := lastMatch isWord (devnumAt isDecimal) ']' rest
      raw := line }

/-- `_DFU_DENIED_RE` -/
def denied : List Str :=
  ["cannot open dfu device".toList, "libusb_error_access".toList,
    "insufficient permission".toList, "access denied".toList]

def dfuLines (out : Str) : List DfuLine :=
  (splitlines out).filterMap fun raw => parseDfuLine isWord isDecimal (strip raw)

def byDevice (lines : List DfuLine) : List DfuLine := lines.foldl (Dict.setDefault DfuLine.key) []

inductive DfuScanError
  | toolMissing
  | permission
  deriving DecidableEq

/-- `dfu_devices`, where `dfu-util -l` printed this; `none` where it could not be run. -/
def dfuDevices : Option Str → Except DfuScanError (List DfuLine)
  | none => .error .toolMissing
  | some out =>
    let devices := byDevice (dfuLines isWord isDecimal out)
    if devices = [] && mentions denied out then .error .permission else .ok devices

end Model

/-- The board of this line is one that `dfu-util` takes under this selector. -/
def Selector.Takes : Selector → DfuLine → Prop
  | .path p, line => line.path = some p
  | .serial s, line => line.serial = some s
  | .devnum n, line => line.devnum = some n
  | .any, _ => True

/-- The altsettings of one board are listed alike. -/
def Alike (lines : List DfuLine) : Prop := ∀ l ∈ lines, ∀ m ∈ lines, l.key = m.key →
  l.path = m.path ∧ l.serial = m.serial ∧ l.devnum = m.devnum

instance (lines : List DfuLine) : Decidable (Alike lines) := inferInstanceAs <| Decidable <|
  ∀ l ∈ lines, ∀ m ∈ lines, l.key = m.key →
    l.path = m.path ∧ l.serial = m.serial ∧ l.devnum = m.devnum

section Facts
variable {lines : List DfuLine} {d l : DfuLine}

theorem blankToNone_eq_some {s : Option Str} {t : Str} : blankToNone s = some t ↔ s = some t ∧ t ≠ [] := by
  simp [blankToNone, Option.filter_eq_some_iff]

theorem mem_byDevice (h : d ∈ byDevice lines) : d ∈ lines :=
  (Dict.mem_foldl_setDefault h).resolve_right (List.not_mem_nil)

theorem dfuDevices_ok {isWord isDecimal : Char → Bool} {listing : Option Str}
    {devices : List DfuLine} (h : dfuDevices isWord isDecimal listing = .ok devices) :
    devices = byDevice (dfuLines isWord isDecimal (listing.getD [])) := by
  cases listing with
  | none => cases h
  | some out =>
    rw [dfuDevices] at h
    split at h
    · cases h
    · exact (Except.ok.inj h).symm

theorem device_of_mem (h : l ∈ lines) : ∃ d ∈ byDevice lines, d.key = l.key := by
  have hkey : l.key ∈ (byDevice lines).map DfuLine.key :=
    Dict.map_foldl_setDefault.mpr (Or.inr (List.mem_map_of_mem h))
  exact List.mem_map.mp hkey

theorem key_of_path {p : Str} (h : blankToNone d.path = some p) : d.key = p := by
  simp [DfuLine.key, h]

end Facts

end McuUpdater.Discovery
