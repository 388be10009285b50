import MiniShell.Model.Table
import MiniShell.Model.Dispatcher

/-!
# `device_tree.c`

The files below `/proc/device-tree` are a function of the path, to what `fread` gives of them.  A pointer into a
buffer is an offset, and a text that has been stored is what stands before its `'\0'`.
-/

namespace MiniShell

open MiniShell.Lib MiniShellError

def DEVICE_TREE_MAX_COMPATIBLE : ℕ := 8

structure DeviceTreeInfo where
  available : Bool
  model : Bytes
  compatible : List Bytes
  bootargs : Bytes
  deriving DecidableEq

/-- `read_property`: the start of the file that fits into the buffer. -/
def readProperty (file : Option Bytes) (size : ℕ) : Bytes := (file.getD []).take size

/-- `copy_property_text`. -/
def copyPropertyText (size : ℕ) (src : Bytes) : Bytes :=
  (src.takeWhile fun c => c ≠ 0 ∧ c ≠ 13 ∧ c ≠ 10).take (size - 1)

/-- The loop of `collect_compatible`, at an offset of the buffer; `size` is that of an item. -/
def compatibleLoop (size : ℕ) (buffer : Bytes) (offset : ℕ) (compatible : List Bytes) : List Bytes :=
  if h : offset < buffer.length ∧ compatible.length < DEVICE_TREE_MAX_COMPATIBLE then
    -- the inner loop stops at a `'\0'` or at the end
    let itemLength := ((buffer.drop offset).takeWhile (· ≠ 0)).length
    let stop := offset + itemLength
    let compatible :=
      if 0 < itemLength then compatible ++ [(buffer.drop offset).take (min itemLength (size - 1))] else compatible
    compatibleLoop size buffer (if stop < buffer.length then stop + 1 else stop) compatible
  else compatible
termination_by buffer.length - offset
decreasing_by
  split
  · omega
  · omega

/-- `collect_compatible`. -/
def collectCompatible (file : Option Bytes) (info : DeviceTreeInfo) : DeviceTreeInfo :=
  let buffer := readProperty file 1024
  if buffer.length = 0 then info else { info with compatible := compatibleLoop 128 buffer 0 info.compatible }

/-- `collect_model`. -/
def collectModel (file : Option Bytes) (info : DeviceTreeInfo) : DeviceTreeInfo :=
  let buffer := readProperty file 256
  if buffer.length = 0 then info else { info with model := copyPropertyText 128 buffer }

/-- `collect_bootargs`. -/
def collectBootargs (file : Option Bytes) (info : DeviceTreeInfo) : DeviceTreeInfo :=
  let buffer := readProperty file 1024
  if buffer.length = 0 then info else { info with bootargs := copyPropertyText 1024 buffer }

/-- The properties that are read. -/
structure DeviceTree where
  model : Option Bytes
  compatible : Option Bytes
  bootargs : Option Bytes

/-- `device_tree_collect`; `none` is a system without a device tree. -/
def deviceTreeCollect (tree : Option DeviceTree) : Int × DeviceTreeInfo :=
  let info : DeviceTreeInfo := ⟨false, [], [], []⟩
  match tree with
  | none => (ok, info)
  | some tree =>
    let info := { info with available := true }
    (ok, collectBootargs tree.bootargs (collectCompatible tree.compatible (collectModel tree.model info)))

end MiniShell
