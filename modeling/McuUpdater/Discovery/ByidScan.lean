import Mathlib.Data.List.Nodup
import McuUpdater.Discovery.Byid
import McuUpdater.Discovery.Usb

/-! `discovery/byid.py`: what the names of the by-id directory say, and the wait for a board that
was not there before. -/
namespace McuUpdater.Discovery
open PyText Usb
open Bootsel (joinPath sorted)

/-- `_INTERFACE_SUFFIX` -/
def interfaceSuffix : Str := "-if00".toList

/-- `canonical_serial` -/
def canonicalSerial (serial : Str) : Str :=
  if interfaceSuffix <:+ serial then serial.take (serial.length - interfaceSuffix.length) else serial

/-- `s.rsplit("_", 1)`, where there is an underscore. -/
def rsplitWord (s : Str) : Option (Str × Str) :=
  if '_' ∈ s then some ((s.rdropWhile (· ≠ '_')).dropLast, s.rtakeWhile (· ≠ '_')) else none

/-- What `parse_entry` takes of the words before the serial for the firmware and the chipset. -/
def splitBlob (blob : Str) : Str × Str :=
  if blob.count '_' ≤ 1 then (blob.takeWhile (· ≠ '_'), (blob.dropWhile (· ≠ '_')).drop 1)
  else (blob, [])

/-- `parse_entry` -/
def parseEntry (name directory : Str) : Option BusDevice := do
  let rest ← after "usb-".toList name
  let (blob, serial) ← rsplitWord rest
  if serial = [] ∨ blob = [] then none
  else
    let (fw, chipset) := splitBlob blob
    return { fw, chipset, serial := canonicalSerial serial, path := joinPath directory name }

/-- The by-id directory, at one moment. -/
structure ByidView where
  directory : Str
  /-- `os.listdir`, empty where there is no directory -/
  names : List Str
  /-- `usb.device_for_tty`, of the tty that a link leads to -/
  hardware : Str → Option UsbDevice

namespace ByidView
variable (v : ByidView)

def device (name : Str) : Option BusDevice :=
  (parseEntry name v.directory).map fun dev =>
    match (v.hardware dev.path).bind (·.serial) with
    | some serial => { dev with serial }
    | none => dev

/-- `scan` -/
def scan : List BusDevice := (sorted v.names).filterMap v.device

/-- `port_of` -/
def portOf (dev : BusDevice) : Option Str := (v.hardware dev.path).map (·.name)

end ByidView

/-- `KNOWN_SERIAL_BRIDGE_NAMES` -/
def knownSerialBridgeNames : List Str :=
  ["1a86".toList, "ch340".toList, "ch341".toList, "10c4".toList, "cp210".toList, "0403".toList,
    "ft232".toList, "ftdi".toList, "067b".toList, "pl2303".toList, "usb_serial".toList]

section Model
-- `str.lower`
variable (lower : Str → Str)

/-- `is_mcu` -/
def BusDevice.isMcu (dev : BusDevice) : Bool :=
  let fw := (lower dev.fw).map fun c => if c = '-' ∨ c = '.' then '_' else c
  knownSerialBridgeNames.all fun bridge => decide (¬bridge <:+: fw)

/-- `find_untracked`, of any firmware and chipset. -/
def findUntracked (known : List Str) (port : Option Str) (v : ByidView) : List BusDevice :=
  v.scan.filter fun dev => dev.isMcu lower && decide (dev.serial ∉ known) &&
    (port.filter (· ≠ [])).all fun p => decide (v.portOf dev = some p)

/-- One look of `wait_for_new_device`. -/
structure NewLook where
  view : ByidView
  late : Bool

/-- `wait_for_new_device`, over its looks; a second one follows the first that shows a board.
`none` where it is still waiting. -/
def waitForNewDevice (known : List Str) (port : Option Str) : List NewLook → Option (List BusDevice)
  | [] => none
  | look :: looks =>
    let found := findUntracked lower known port look.view
    if found ≠ [] then
      looks.head?.map fun next =>
        let again := findUntracked lower known port next.view
        if again = [] then found else again
    else if look.late then some []
    else waitForNewDevice known port looks

end Model

section Facts
variable {lower : Str → Str} {known : List Str} {port : Option Str} {v : ByidView}
  {dev : BusDevice} {found : List BusDevice} {looks : List NewLook}

theorem mem_findUntracked (h : dev ∈ findUntracked lower known port v) :
    dev ∈ v.scan ∧ dev.isMcu lower = true ∧ dev.serial ∉ known ∧
      ∀ p, port = some p → p ≠ [] → v.portOf dev = some p := by
  obtain ⟨hscan, hcond⟩ := List.mem_filter.mp h
  simp only [Bool.and_eq_true, decide_eq_true_eq] at hcond
  refine ⟨hscan, hcond.1.1, hcond.1.2, fun p hp hne => ?_⟩
  have hall := hcond.2
  rw [hp, Option.filter_some, if_pos (by simpa using hne)] at hall
  simpa using hall

/-- What is waited for is new, and is what one of the looks shows; without it the deadline has
passed and no look before has shown any. -/
theorem waitForNewDevice_some (h : waitForNewDevice lower known port looks = some found) :
    (∃ look ∈ looks, found ≠ [] ∧ found = findUntracked lower known port look.view) ∨
    found = [] ∧ ∃ before look after, looks = before ++ look :: after ∧ look.late = true ∧
      ∀ l ∈ before ++ [look], findUntracked lower known port l.view = [] := by
  induction looks with
  | nil => cases h
  | cons look looks ih =>
    rw [waitForNewDevice] at h
    split_ifs at h with hfound hlate
    · obtain ⟨next, hnext, rfl⟩ := Option.map_eq_some_iff.mp h
      have hmem : next ∈ looks := List.mem_of_head? hnext
      refine Or.inl ?_
      dsimp only
      split_ifs with hagain
      · exact ⟨look, List.mem_cons_self, hfound, rfl⟩
      · exact ⟨next, List.mem_cons_of_mem look hmem, hagain, rfl⟩
    · cases h
      exact Or.inr ⟨rfl, [], look, looks, rfl, hlate, by simpa using hfound⟩
    · rcases ih h with ⟨next, hnext, hshown⟩ | ⟨rfl, before, last, after, heq, hlast, hnone⟩
      · exact Or.inl ⟨next, List.mem_cons_of_mem look hnext, hshown⟩
      · refine Or.inr ⟨rfl, look :: before, last, after, by rw [heq]; rfl, hlast, fun l hl => ?_⟩
        rcases List.mem_cons.mp hl with rfl | hl
        · simpa using hfound
        · exact hnone l hl

end Facts

/-! ## The names -/

def expectedName (fw chipset serial : Str) : Str :=
  "usb-".toList ++ fw ++ '_' :: (chipset ++ '_' :: serial)

/-- `expected_path`, which knows no other directory than udev's own. -/
def expectedPath (fw chipset serial : Str) : Str :=
  "/dev/serial/by-id/".toList ++ expectedName fw chipset serial

section Names
variable {s t name directory fw chipset serial blob : Str} {dev : BusDevice} {v : ByidView}

theorem canonicalSerial_append_suffix (s : Str) : canonicalSerial (s ++ interfaceSuffix) = s := by
  rw [canonicalSerial, if_pos (List.suffix_append _ _), List.length_append]
  simp

theorem canonicalSerial_cases (s : Str) :
    canonicalSerial s = s ∨ s = canonicalSerial s ++ interfaceSuffix := by
  by_cases h : interfaceSuffix <:+ s
  · obtain ⟨t, rfl⟩ := h
    exact Or.inr (by rw [canonicalSerial_append_suffix])
  · exact Or.inl (by rw [canonicalSerial, if_neg h])

theorem rsplitWord_append (h : '_' ∉ serial) (blob : Str) :
    rsplitWord (blob ++ '_' :: serial) = some (blob, serial) := by
  have hword : ∀ c ∈ serial.reverse, decide (c ≠ '_') = true := fun c hc => by
    simpa using fun heq : c = '_' => h (heq ▸ List.mem_reverse.mp hc)
  have hrev : (blob ++ '_' :: serial).reverse = serial.reverse ++ '_' :: blob.reverse := by simp
  have hdrop : (blob ++ '_' :: serial).rdropWhile (· ≠ '_') = blob ++ ['_'] := by
    rw [List.rdropWhile, hrev, List.dropWhile_append_of_pos hword]
    simp
  have htake : (blob ++ '_' :: serial).rtakeWhile (· ≠ '_') = serial := by
    rw [List.rtakeWhile, hrev, List.takeWhile_append_of_pos hword]
    simp
  rw [rsplitWord, if_pos (by simp), hdrop, htake, List.dropLast_concat]

theorem rsplitWord_eq_some : rsplitWord s = some (blob, serial) ↔
    s = blob ++ '_' :: serial ∧ '_' ∉ serial := by
  refine ⟨fun h => ?_, fun ⟨heq, hword⟩ => heq ▸ rsplitWord_append hword blob⟩
  rw [rsplitWord] at h
  split_ifs at h with hmem
  obtain ⟨rfl, rfl⟩ := Prod.mk.inj (Option.some.inj h)
  have hne : s.rdropWhile (· ≠ '_') ≠ [] := fun hnil => by
    have hall := List.rdropWhile_eq_nil_iff.mp hnil '_' hmem
    simp at hall
  have hlast : (s.rdropWhile (· ≠ '_')).getLast hne = '_' := by
    simpa using List.rdropWhile_last_not (· ≠ '_') s hne
  have hend : (s.rdropWhile (· ≠ '_')).dropLast ++ ['_'] = s.rdropWhile (· ≠ '_') := by
    have hconcat := List.dropLast_concat_getLast hne
    rwa [hlast] at hconcat
  refine ⟨?_, fun hc => by simpa using List.mem_rtakeWhile_imp hc⟩
  rw [List.append_cons, hend, List.rdropWhile_append_rtakeWhile]

theorem splitBlob_append (hfw : '_' ∉ fw) (hchipset : '_' ∉ chipset) :
    splitBlob (fw ++ '_' :: chipset) = (fw, chipset) := by
  have hcount : (fw ++ '_' :: chipset).count '_' = 1 := by
    rw [List.count_append, List.count_cons_self, List.count_eq_zero_of_not_mem hfw,
      List.count_eq_zero_of_not_mem hchipset]
  have hword : ∀ c ∈ fw, decide (c ≠ '_') = true := fun c hc => by
    simpa using fun heq : c = '_' => hfw (heq ▸ hc)
  rw [splitBlob, if_pos hcount.le, List.takeWhile_append_of_pos hword,
    List.dropWhile_append_of_pos hword]
  simp

/-- With one underscore the words are the firmware and the chipset, else all of them are the
firmware. -/
theorem splitBlob_cases (blob : Str) :
    (∃ fw chipset, blob = fw ++ '_' :: chipset ∧ splitBlob blob = (fw, chipset)) ∨
      splitBlob blob = (blob, []) := by
  by_cases hmem : '_' ∈ blob
  · obtain ⟨fw, chipset, rfl, hfw⟩ := List.eq_append_cons_of_mem hmem
    by_cases hchipset : '_' ∈ chipset
    · have hmany : 0 < chipset.count '_' := List.count_pos_iff.mpr hchipset
      refine Or.inr (if_neg ?_)
      rw [List.count_append, List.count_cons_self]
      omega
    · exact Or.inl ⟨fw, chipset, rfl, splitBlob_append hfw hchipset⟩
  · have hword : ∀ c ∈ blob, decide (c ≠ '_') = true := fun c hc => by
      simpa using fun heq : c = '_' => hmem (heq ▸ hc)
    have htake := List.takeWhile_eq_self_iff.mpr hword
    have hdrop := List.dropWhile_eq_nil_iff.mpr hword
    refine Or.inr ?_
    rw [splitBlob, if_pos (by simp [List.count_eq_zero_of_not_mem hmem]), htake, hdrop]
    rfl

theorem name_of_parseEntry (h : parseEntry name directory = some dev) (hchipset : dev.chipset ≠ []) :
    dev.path = joinPath directory name ∧
      (name = expectedName dev.fw dev.chipset dev.serial ∨
        name = expectedName dev.fw dev.chipset (dev.serial ++ interfaceSuffix)) := by
  obtain ⟨rest, hrest, h⟩ := Option.bind_eq_some_iff.mp h
  obtain ⟨⟨blob, serial⟩, hsplit, h⟩ := Option.bind_eq_some_iff.mp h
  dsimp only at h
  split_ifs at h with hblank
  cases h
  obtain rfl := Numbers.after_eq_some.mp hrest
  obtain ⟨rfl, -⟩ := rsplitWord_eq_some.mp hsplit
  refine ⟨rfl, ?_⟩
  rcases splitBlob_cases blob with ⟨fw, chipset, rfl, heq⟩ | heq
  · rw [heq]
    rcases canonicalSerial_cases serial with hserial | hserial
    · exact Or.inl (by simp [expectedName, hserial])
    · exact Or.inr (by simp [expectedName, ← hserial])
  · exact absurd (by rw [heq]) hchipset

theorem parseEntry_expectedName (hfw : '_' ∉ fw) (hchipset : '_' ∉ chipset) (hserial : '_' ∉ serial)
    (hne : serial ≠ []) (directory : Str) :
    parseEntry (expectedName fw chipset serial) directory =
      some { fw, chipset, serial := canonicalSerial serial,
             path := joinPath directory (expectedName fw chipset serial) } := by
  have hrest : after "usb-".toList (expectedName fw chipset serial) =
      some (fw ++ '_' :: chipset ++ '_' :: serial) :=
    Numbers.after_eq_some.mpr (by simp [expectedName])
  rw [parseEntry, hrest]
  simp only [Option.bind_eq_bind, Option.bind_some, rsplitWord_append hserial,
    splitBlob_append hfw hchipset]
  simp [hne]

theorem joinPath_injective (root : Str) : Function.Injective (joinPath root) := by
  intro a b h
  unfold joinPath at h
  split at h
  · exact List.append_cancel_left h
  · exact (List.cons.inj (List.append_cancel_left h)).2

theorem path_of_parseEntry (h : parseEntry name directory = some dev) :
    dev.path = joinPath directory name := by
  obtain ⟨rest, -, h⟩ := Option.bind_eq_some_iff.mp h
  obtain ⟨⟨blob, serial⟩, -, h⟩ := Option.bind_eq_some_iff.mp h
  dsimp only at h
  split_ifs at h
  cases h
  rfl

theorem device_eq_some (h : v.device name = some dev) : ∃ parsed,
    parseEntry name v.directory = some parsed ∧ dev.path = parsed.path ∧
      dev = { parsed with serial := ((v.hardware dev.path).bind (·.serial)).getD parsed.serial } := by
  obtain ⟨parsed, hparsed, rfl⟩ := Option.map_eq_some_iff.mp h
  refine ⟨parsed, hparsed, ?_⟩
  split
  · rename_i serial hserial
    simp [hserial]
  · rename_i hserial
    simp [hserial]

end Names

/-- The scan of the directory and `expected_path` name the same files, each below its own
directory. -/
structure ByidPaths (v : ByidView) : Prop where
  named : ∀ dev ∈ v.scan, dev.chipset ≠ [] → (v.hardware dev.path).bind (·.serial) = none →
    ∃ name ∈ v.names, dev.path = joinPath v.directory name ∧
      ("/dev/serial/by-id/".toList ++ name = expectedPath dev.fw dev.chipset dev.serial ∨
        "/dev/serial/by-id/".toList ++ name =
          expectedPath dev.fw dev.chipset (dev.serial ++ interfaceSuffix))
  found : ∀ fw chipset serial, '_' ∉ fw → '_' ∉ chipset → '_' ∉ serial → serial ≠ [] →
    ∀ name ∈ v.names, "/dev/serial/by-id/".toList ++ name = expectedPath fw chipset serial →
      ∃ dev ∈ v.scan, dev.fw = fw ∧ dev.chipset = chipset ∧ dev.path = joinPath v.directory name ∧
        dev.serial = ((v.hardware dev.path).bind (·.serial)).getD (canonicalSerial serial)
  once : v.names.Nodup → (v.scan.map (·.path)).Nodup

theorem by_id_paths (v : ByidView) : ByidPaths v where
  named dev hdev hchipset hhardware := by
    obtain ⟨name, hmem, hname⟩ := List.mem_filterMap.mp hdev
    obtain ⟨parsed, hparsed, -, heq⟩ := device_eq_some hname
    rw [hhardware, Option.getD_none] at heq
    subst heq
    obtain ⟨hpath, hexpected⟩ := name_of_parseEntry hparsed hchipset
    refine ⟨name, List.mem_mergeSort.mp hmem, hpath, ?_⟩
    exact hexpected.imp (congrArg ("/dev/serial/by-id/".toList ++ ·))
      (congrArg ("/dev/serial/by-id/".toList ++ ·))
  found fw chipset serial hfw hchipset hserial hne name hmem hexpected := by
    obtain rfl : name = expectedName fw chipset serial := List.append_cancel_left hexpected
    have hparsed := parseEntry_expectedName hfw hchipset hserial hne v.directory
    obtain ⟨dev, hdev⟩ : ∃ dev, v.device (expectedName fw chipset serial) = some dev := by
      rw [ByidView.device, hparsed]
      exact ⟨_, rfl⟩
    obtain ⟨parsed, hsame, hpath, heq⟩ := device_eq_some hdev
    obtain rfl := Option.some.inj (hparsed.symm.trans hsame)
    refine ⟨dev, List.mem_filterMap.mpr ⟨_, List.mem_mergeSort.mpr hmem, hdev⟩, ?_, ?_, hpath, ?_⟩
    · rw [heq]
    · rw [heq]
    · exact congrArg BusDevice.serial heq
  once hnodup := by
    have hsorted : (sorted v.names).Nodup := (List.mergeSort_perm _ _).nodup_iff.mpr hnodup
    rw [ByidView.scan, List.map_filterMap]
    refine List.Nodup.filterMap (fun a b path ha hb => ?_) hsorted
    obtain ⟨dev, hdev, rfl⟩ := Option.map_eq_some_iff.mp ha
    obtain ⟨other, hother, hpath⟩ := Option.map_eq_some_iff.mp hb
    obtain ⟨parsed, hparsed, hpathA, -⟩ := device_eq_some hdev
    obtain ⟨parsed', hparsed', hpathB, -⟩ := device_eq_some hother
    rw [hpathA, hpathB, path_of_parseEntry hparsed, path_of_parseEntry hparsed'] at hpath
    exact joinPath_injective _ hpath.symm

end McuUpdater.Discovery
