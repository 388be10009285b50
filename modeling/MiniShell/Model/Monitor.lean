import Mathlib.Algebra.Order.Ring.Unbundled.Rat
import MiniShell.Lib.Selection
import MiniShell.Model.Sysfs
import MiniShell.Model.Shell

/-!
# `network_monitor.c` and `thermal_monitor.c`

A directory is the names that `readdir` gives, in its order, and the file system below it is a function of the path.
`qsort` is a parameter.  A temperature is an exact number of degrees.
-/

namespace MiniShell

open MiniShell.Lib MiniShellError

/-! ### What the monitors share -/

/-- `d_name`: a C string. -/
structure Dirent where
  name : Bytes
  noNul : 0 ∉ name
  deriving DecidableEq

/-- `copy_text`. -/
def copyText (size : ℕ) (src : Bytes) : Bytes := src.take (size - 1)

/-- `build_path`, into 512 bytes. -/
def buildPath (base name file : Bytes) : Option Bytes :=
  let path := base ++ 47 :: name ++ 47 :: file
  if 512 ≤ path.length then none else some path

/-- `strcmp`: the first two bytes that differ decide. -/
def strcmpBytes : Bytes → Bytes → Int
  | [], [] => 0
  | [], b :: _ => -b.toNat
  | a :: _, [] => a.toNat
  | a :: s, b :: t => if a = b then strcmpBytes s t else a.toNat - b.toNat

def strcmp (a b : Bytes) : Int := strcmpBytes (cString a) (cString b)

/-- What `sysfs_read_text` leaves in a buffer of zeros. -/
def sysfsFill (file : Option SysfsFile) (size : ℕ) : Bytes :=
  match file with
  | none => []
  | some file => (sysfsRead file size).2

/-- The attribute `file` of `name`, when its path has room. -/
def attributeFile (files : Bytes → Option SysfsFile) (base name file : Bytes) : Option SysfsFile :=
  (buildPath base name file).bind files

/-! ### `network_monitor.c` -/

structure NetworkRuntimeInfo where
  name : Bytes
  state : Bytes
  rxBytes : Int
  txBytes : Int
  hasRx : Bool
  hasTx : Bool
  deriving DecidableEq

def networkMonitorMaxInterfaces : ℕ := 16

/-- The interfaces in use; there is room for them. -/
structure NetworkMonitor where
  interfaces : List NetworkRuntimeInfo
  room : interfaces.length ≤ networkMonitorMaxInterfaces

/-- After `memset`. -/
def NetworkMonitor.cleared : NetworkMonitor := ⟨[], Nat.zero_le _⟩

/-- `network_info_compare`. -/
def networkInfoCompare (a b : NetworkRuntimeInfo) : Int := strcmp a.name b.name

/-- An entry that is not skipped. -/
def networkCounts (entry : Dirent) : Bool := entry.name.head? ≠ some 46

/-- What the loop of `network_monitor_collect_from` reads of one entry. -/
def networkReadInfo (files : Bytes → Option SysfsFile) (base : Bytes) (entry : Dirent) : NetworkRuntimeInfo :=
  let read := attributeFile files base entry.name
  let rx := sysfsReadUll (read (ascii ['s', 't', 'a', 't', 'i', 's', 't', 'i', 'c', 's', '/', 'r', 'x', '_',
    'b', 'y', 't', 'e', 's'])) 0
  let tx := sysfsReadUll (read (ascii ['s', 't', 'a', 't', 'i', 's', 't', 'i', 'c', 's', '/', 't', 'x', '_',
    'b', 'y', 't', 'e', 's'])) 0
  { name := copyText 64 entry.name
    state := sysfsFill (read (ascii ['o', 'p', 'e', 'r', 's', 't', 'a', 't', 'e'])) 32
    rxBytes := rx.2
    txBytes := tx.2
    hasRx := rx.1 = 0
    hasTx := tx.1 = 0 }

/-- The interfaces after the loop and `qsort`. -/
def networkCollected (q : Qsort) (files : Bytes → Option SysfsFile) (base : Bytes) (listing : List Dirent) :
    List NetworkRuntimeInfo :=
  collectSorted q networkMonitorMaxInterfaces networkCounts (networkReadInfo files base) networkInfoCompare listing

/-- `network_monitor_collect_from`: what it returns, and `*monitor` afterwards.  A `listing` of `none` is a
directory that cannot be opened. -/
def networkMonitorCollectFrom (q : Qsort) (files : Bytes → Option SysfsFile) (listing : Option (List Dirent))
    (monitor : Option NetworkMonitor) (base : Option Bytes) : Int × Option NetworkMonitor :=
  match monitor, base with
  | none, _ => (errUnknown, none)
  | some old, none => (errUnknown, some old)
  | some old, some base =>
    if base = [] then (errUnknown, some old)
    else
      match listing with
      | none => (errOpen, some .cleared)
      | some listing => (ok, some ⟨networkCollected q files base listing, length_collectSorted_le _ _ _ _ _ _⟩)

/-- `"lo"` and `"up"`. -/
def isLo (info : NetworkRuntimeInfo) : Bool := strcmp info.name (ascii ['l', 'o']) = 0

def isUp (info : NetworkRuntimeInfo) : Bool := strcmp info.state (ascii ['u', 'p']) = 0

/-- `network_monitor_primary`. -/
def networkMonitorPrimary (monitor : Option NetworkMonitor) : Option NetworkRuntimeInfo :=
  match monitor with
  | none => none
  | some monitor =>
    match monitor.interfaces.find? fun info => !isLo info && isUp info with
    | some info => some info
    | none =>
      match monitor.interfaces.find? fun info => !isLo info with
      | some info => some info
      | none => monitor.interfaces.head?

/-! ### `thermal_monitor.c` -/

structure ThermalRuntimeInfo where
  name : Bytes
  type : Bytes
  temperature : ℚ
  hasTemperature : Bool
  deriving DecidableEq

def thermalMonitorMaxZones : ℕ := 16

structure ThermalMonitor where
  zones : List ThermalRuntimeInfo
  room : zones.length ≤ thermalMonitorMaxZones

def ThermalMonitor.cleared : ThermalMonitor := ⟨[], Nat.zero_le _⟩

/-- `thermal_info_compare`. -/
def thermalInfoCompare (a b : ThermalRuntimeInfo) : Int := strcmp a.name b.name

/-- `"thermal_zone"`. -/
def thermalZone : Bytes := ascii ['t', 'h', 'e', 'r', 'm', 'a', 'l', '_', 'z', 'o', 'n', 'e']

def thermalCounts (entry : Dirent) : Bool := thermalZone <+: entry.name

/-- What `sysfs_read_long` returns for the `temp` of an entry, and the value. -/
def thermalReadTemp (files : Bytes → Option SysfsFile) (base : Bytes) (entry : Dirent) : Int × Int :=
  sysfsReadLong (attributeFile files base entry.name (ascii ['t', 'e', 'm', 'p'])) 0

/-- What the loop of `thermal_monitor_collect_from` reads of one entry. -/
def thermalReadInfo (files : Bytes → Option SysfsFile) (base : Bytes) (entry : Dirent) : ThermalRuntimeInfo :=
  let temp := thermalReadTemp files base entry
  { name := copyText 64 entry.name
    type := sysfsFill (attributeFile files base entry.name (ascii ['t', 'y', 'p', 'e'])) 64
    temperature := if temp.1 = 0 then temp.2 / 1000 else 0
    hasTemperature := temp.1 = 0 }

/-- The zones after the loop and `qsort`. -/
def thermalCollected (q : Qsort) (files : Bytes → Option SysfsFile) (base : Bytes) (listing : List Dirent) :
    List ThermalRuntimeInfo :=
  collectSorted q thermalMonitorMaxZones thermalCounts (thermalReadInfo files base) thermalInfoCompare listing

/-- `thermal_monitor_collect_from`. -/
def thermalMonitorCollectFrom (q : Qsort) (files : Bytes → Option SysfsFile) (listing : Option (List Dirent))
    (monitor : Option ThermalMonitor) (base : Option Bytes) : Int × Option ThermalMonitor :=
  match monitor, base with
  | none, _ => (errUnknown, none)
  | some old, none => (errUnknown, some old)
  | some old, some base =>
    if base = [] then (errUnknown, some old)
    else
      match listing with
      | none => (errOpen, some .cleared)
      | some listing => (ok, some ⟨thermalCollected q files base listing, length_collectSorted_le _ _ _ _ _ _⟩)

/-- `thermal_monitor_hottest`. -/
def thermalMonitorHottest (monitor : Option ThermalMonitor) : Option ThermalRuntimeInfo :=
  match monitor with
  | none => none
  | some monitor =>
    monitor.zones.foldl (challenge ThermalRuntimeInfo.hasTemperature ThermalRuntimeInfo.temperature) none

end MiniShell
