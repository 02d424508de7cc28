import McuUpdater.Discovery.Bootsel

/-! `discovery/usb.py`: the USB device that a serial port or a drive hangs off, by the path that
sysfs has for it. -/
namespace McuUpdater.Usb
open PyText
open Kconfig (basename)
open Bootsel (joinPath)

/-- What the scans read of a device in sysfs. -/
structure UsbDevice where
  name : Str
  vendorId : Option Str
  productId : Option Str
  serial : Option Str
  deriving DecidableEq

/-- The components of an absolute path, the last one first. -/
def components (path : Str) : List Str := ((path.splitOn '/').filter (· ≠ [])).reverse

/-- `component.split(":", 1)[0]` -/
def deviceName (component : Str) : Str := component.takeWhile (· ≠ ':')

/-- `_usb_ancestor`, of a resolved path. -/
def usbAncestor (devices : List UsbDevice) (path : Str) : Option (UsbDevice × Str) :=
  (components path).findSome? fun component =>
    (devices.reverse.find? (·.name = deviceName component)).map (·, component)

/-- What the scans read of sysfs. -/
structure SysView where
  /-- `collect` -/
  devices : List UsbDevice
  /-- `os.listdir` of the tty class, `none` where it raises -/
  ttys : Option (List Str)
  ttyRoot : Str
  blockRoot : Str
  realpath : Str → Str

/-- The names of `_USB_TTY_PREFIXES` -/
def isUsbTty (name : Str) : Bool :=
  "ttyUSB".toList.isPrefixOf name || "ttyACM".toList.isPrefixOf name

structure SerialPort where
  tty : Str
  device : UsbDevice
  interface : Str
  deriving DecidableEq

/-- `SerialPort.path` -/
def SerialPort.path (p : SerialPort) : Str := "/dev/".toList ++ p.tty

section Model
variable (v : SysView)

/-- The order of `(len(name), name)` -/
def shorterFirst (a b : Str) : Bool :=
  decide (a.length < b.length) || decide (a.length = b.length) && decide (a ≤ b)

/-- The device and the interface that a tty belongs to. -/
def SysView.serialPort (tty : Str) : Option SerialPort :=
  (usbAncestor v.devices (v.realpath (joinPath (joinPath v.ttyRoot tty) "device".toList))).map
    fun (device, interface) => ⟨tty, device, interface⟩

/-- `serial_ports` -/
def SysView.serialPorts : List SerialPort :=
  (((v.ttys.getD []).filter isUsbTty).mergeSort shorterFirst).filterMap v.serialPort

/-- `device_for_block` -/
def SysView.deviceForBlock (node : Str) : Option UsbDevice :=
  (usbAncestor v.devices (v.realpath (joinPath v.blockRoot (basename (v.realpath node))))).map
    Prod.fst

end Model

section Facts
variable {devices : List UsbDevice} {path component : Str} {d : UsbDevice}

theorem usbAncestor_some (h : usbAncestor devices path = some (d, component)) :
    d ∈ devices ∧ d.name = deviceName component ∧ ∃ below above,
      components path = below ++ component :: above ∧
        ∀ c ∈ below, ∀ e ∈ devices, e.name ≠ deviceName c := by
  obtain ⟨below, found, above, heq, hfound, hbelow⟩ := List.findSome?_eq_some_iff.mp h
  obtain ⟨e, he, hpair⟩ := Option.map_eq_some_iff.mp hfound
  obtain ⟨rfl, rfl⟩ := Prod.mk.inj hpair
  have hname := List.find?_some he
  refine ⟨List.mem_reverse.mp (List.mem_of_find?_eq_some he), by simpa using hname,
    below, above, heq, fun c hc e he => ?_⟩
  have hnone := Option.map_eq_none_iff.mp (hbelow c hc)
  simpa using List.find?_eq_none.mp hnone e (List.mem_reverse.mpr he)

end Facts

end McuUpdater.Usb
