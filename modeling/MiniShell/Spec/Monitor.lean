import Mathlib.Data.List.Lex
import MiniShell.Model.Monitor

/-!
# What the monitors report does not depend on the order of the directory

* `strcmp_nonpos` — `strcmp` orders C strings as lists of bytes, so that both comparisons are consistent;
* `IsPrimary`, `IsHottest` — the selection rules, over the entries that are collected;
* **`monitors_ignore_order`** — two orders in which the same entries are collected give the same interface and
  the same temperature, and both meet the rules;
* `order_matters` — with more entries than there is room for they can differ.
-/

namespace MiniShell

open MiniShell.Lib MiniShellError

/-! ### `strcmp` -/

/-- The characters as numbers. -/
def codes (s : Bytes) : List ℕ := s.map UInt8.toNat

theorem codes_injective : Function.Injective codes := List.map_injective_iff.mpr fun _ _ h => UInt8.toNat_inj.mp h

theorem strcmpBytes_pos {a b : Bytes} (ha : 0 ∉ a) (hb : 0 ∉ b) :
    0 < strcmpBytes a b ↔ codes b < codes a := by
  induction a generalizing b with
  | nil => cases b <;> simp [strcmpBytes, codes]
  | cons x s ih =>
    cases b with
    | nil =>
      have hx : x.toNat ≠ 0 := fun hx => ha (by simp [UInt8.toNat_inj.mp (hx.trans UInt8.toNat_zero.symm)])
      simp only [strcmpBytes, codes, List.map_nil, List.map_cons, List.nil_lt_cons, iff_true]
      omega
    | cons y t =>
      have ih' := @ih t (fun h => ha (List.mem_cons_of_mem _ h)) fun h => hb (List.mem_cons_of_mem _ h)
      unfold codes at ih' ⊢
      unfold strcmpBytes
      rw [List.map_cons, List.map_cons, List.cons_lt_cons_iff]
      split
      · rename_i heq
        rw [ih', heq]
        simp
      · rename_i hne
        have htoNat : x.toNat ≠ y.toNat := fun h => hne (UInt8.toNat_inj.mp h)
        omega

theorem zero_notMem_cString (s : Bytes) : 0 ∉ cString s := by
  intro h
  have := List.mem_takeWhile_imp h
  simp at this

theorem strcmp_nonpos (a b : Bytes) : strcmp a b ≤ 0 ↔ codes (cString a) ≤ codes (cString b) := by
  have hpos := strcmpBytes_pos (zero_notMem_cString a) (zero_notMem_cString b)
  exact (not_lt.symm.trans (not_congr hpos)).trans not_lt

/-- A comparison of names is consistent. -/
theorem consistent_strcmp {α : Type} (name : α → Bytes) : Consistent fun a b => strcmp (name a) (name b) where
  total a b := by
    rw [strcmp_nonpos, strcmp_nonpos]
    exact le_total _ _
  trans a b c := by
    rw [strcmp_nonpos, strcmp_nonpos, strcmp_nonpos]
    exact fun hab hbc => le_trans hab hbc

theorem consistent_networkInfoCompare : Consistent networkInfoCompare := consistent_strcmp NetworkRuntimeInfo.name

theorem cString_name (entry : Dirent) : cString entry.name = entry.name := by
  unfold cString
  apply List.takeWhile_eq_self_iff.mpr
  intro c hc
  rw [decide_eq_true_eq]
  rintro rfl
  exact entry.noNul hc

/-- Names that have room compare equal when they are the same. -/
theorem name_eq_of_strcmp {a b : Dirent} (ha : a.name.length ≤ 63) (hb : b.name.length ≤ 63)
    (hab : strcmp (copyText 64 a.name) (copyText 64 b.name) ≤ 0)
    (hba : strcmp (copyText 64 b.name) (copyText 64 a.name) ≤ 0) : a.name = b.name := by
  unfold copyText at hab hba
  rw [List.take_of_length_le ha, List.take_of_length_le hb, strcmp_nonpos, cString_name, cString_name] at hab hba
  exact codes_injective (le_antisymm hab hba)

theorem strcmpBytes_eq_zero {a b : Bytes} (ha : 0 ∉ a) (hb : 0 ∉ b) : strcmpBytes a b = 0 ↔ a = b := by
  induction a generalizing b with
  | nil =>
    cases b with
    | nil => simp [strcmpBytes]
    | cons y t =>
      have hy : y.toNat ≠ 0 := fun hy => hb (by simp [UInt8.toNat_inj.mp (hy.trans UInt8.toNat_zero.symm)])
      simp [strcmpBytes, hy]
  | cons x s ih =>
    cases b with
    | nil =>
      have hx : x.toNat ≠ 0 := fun hx => ha (by simp [UInt8.toNat_inj.mp (hx.trans UInt8.toNat_zero.symm)])
      simp [strcmpBytes, hx]
    | cons y t =>
      unfold strcmpBytes
      split
      · rename_i heq
        rw [ih (fun h => ha (List.mem_cons_of_mem _ h)) fun h => hb (List.mem_cons_of_mem _ h), heq]
        simp
      · rename_i hne
        have htoNat : x.toNat ≠ y.toNat := fun h => hne (UInt8.toNat_inj.mp h)
        simp only [List.cons.injEq, hne, false_and, iff_false]
        omega

theorem strcmp_eq_zero (a b : Bytes) : strcmp a b = 0 ↔ cString a = cString b :=
  strcmpBytes_eq_zero (zero_notMem_cString a) (zero_notMem_cString b)

/-! ### The selection rules -/

section Rules

variable (files : Bytes → Option SysfsFile) (base : Bytes)

/-- The entry is called `"lo"`. -/
def Dirent.IsLo (entry : Dirent) : Prop := entry.name = ascii ['l', 'o']

/-- The `operstate` of the entry is `"up"`. -/
def HasStateUp (entry : Dirent) : Prop := cString (networkReadInfo files base entry).state = ascii ['u', 'p']

/-- The interface is the one of an entry: one that is not `"lo"` and is up when there is one, and one that is not `"lo"`
when there is one. -/
def IsPrimary (entries : List Dirent) : Option NetworkRuntimeInfo → Prop
  | none => entries = []
  | some info => ∃ entry ∈ entries, info = networkReadInfo files base entry ∧
      ((∃ e ∈ entries, ¬ e.IsLo ∧ HasStateUp files base e) → ¬ entry.IsLo ∧
        HasStateUp files base entry) ∧
      ((∃ e ∈ entries, ¬ e.IsLo) → ¬ entry.IsLo)

/-- The temperature of an entry, when its `temp` can be read. -/
def tempOf (entry : Dirent) : Option ℚ :=
  if (thermalReadTemp files base entry).1 = 0 then some ((thermalReadTemp files base entry).2 / 1000) else none

/-- The temperature is the greatest of those that can be read. -/
def IsHottest (entries : List Dirent) : Option ℚ → Prop
  | none => ∀ entry ∈ entries, tempOf files base entry = none
  | some t => (∃ entry ∈ entries, tempOf files base entry = some t) ∧
      ∀ entry ∈ entries, ∀ t', tempOf files base entry = some t' → t' ≤ t

variable {files base}

theorem isLo_networkReadInfo (entry : Dirent) : isLo (networkReadInfo files base entry) = true ↔ entry.IsLo := by
  unfold isLo Dirent.IsLo
  rw [decide_eq_true_eq, strcmp_eq_zero]
  have hlo : cString (ascii ['l', 'o']) = ascii ['l', 'o'] := by decide
  have hname : cString (networkReadInfo files base entry).name = entry.name.take 63 := by
    apply List.takeWhile_eq_self_iff.mpr
    intro c hc
    rw [decide_eq_true_eq]
    rintro rfl
    exact entry.noNul (List.mem_of_mem_take hc)
  rw [hlo, hname]
  constructor
  · intro h
    have hlength : entry.name.length ≤ 63 := by
      have hl := congrArg List.length h
      rw [List.length_take] at hl
      have htwo : (ascii ['l', 'o']).length = 2 := rfl
      omega
    rwa [List.take_of_length_le hlength] at h
  · intro h
    rw [h]
    rfl

theorem isUp_networkReadInfo (entry : Dirent) :
    isUp (networkReadInfo files base entry) = true ↔ HasStateUp files base entry := by
  unfold isUp HasStateUp
  rw [decide_eq_true_eq, strcmp_eq_zero]
  have hup : cString (ascii ['u', 'p']) = ascii ['u', 'p'] := by decide
  rw [hup]

/-- **`network_monitor_primary` follows the rules**, whatever the order of the interfaces. -/
theorem isPrimary_networkMonitorPrimary {entries : List Dirent} {monitor : NetworkMonitor}
    (h : monitor.interfaces.Perm (entries.map (networkReadInfo files base))) :
    IsPrimary files base entries (networkMonitorPrimary (some monitor)) := by
  -- every interface is the one of an entry
  have entry_of : ∀ info ∈ monitor.interfaces, ∃ entry ∈ entries, info =
      networkReadInfo files base entry := by
    intro info hinfo
    obtain ⟨entry, hentry, rfl⟩ := List.mem_map.mp (h.subset hinfo)
    exact ⟨entry, hentry, rfl⟩
  have mem_of : ∀ entry ∈ entries, networkReadInfo files base entry ∈ monitor.interfaces :=
    fun entry hentry => h.symm.subset (List.mem_map_of_mem hentry)
  unfold networkMonitorPrimary
  simp only
  split
  · rename_i info hfind
    obtain ⟨entry, hentry, rfl⟩ := entry_of info (List.mem_of_find?_eq_some hfind)
    have hp := List.find?_some hfind
    rw [Bool.and_eq_true, Bool.not_eq_true', Bool.eq_false_iff, ne_eq, isLo_networkReadInfo,
      isUp_networkReadInfo] at hp
    exact ⟨entry, hentry, rfl, fun _ => hp, fun _ => hp.1⟩
  · rename_i hnone
    have hup : ¬ ∃ e ∈ entries, ¬ e.IsLo ∧ HasStateUp files base e := by
      rintro ⟨e, he, hlo, hstate⟩
      have hnot := List.find?_eq_none.mp hnone _ (mem_of e he)
      rw [Bool.and_eq_true, Bool.not_eq_true', Bool.eq_false_iff, ne_eq, isLo_networkReadInfo,
        isUp_networkReadInfo] at hnot
      exact hnot ⟨hlo, hstate⟩
    split
    · rename_i info hfind
      obtain ⟨entry, hentry, rfl⟩ := entry_of info (List.mem_of_find?_eq_some hfind)
      have hp := List.find?_some hfind
      rw [Bool.not_eq_true', Bool.eq_false_iff, ne_eq, isLo_networkReadInfo] at hp
      exact ⟨entry, hentry, rfl, fun h => absurd h hup, fun _ => hp⟩
    · rename_i hnone'
      have hlo : ¬ ∃ e ∈ entries, ¬ e.IsLo := by
        rintro ⟨e, he, hlo⟩
        have hnot := List.find?_eq_none.mp hnone' _ (mem_of e he)
        rw [Bool.not_eq_true', Bool.eq_false_iff, ne_eq, isLo_networkReadInfo] at hnot
        exact hnot hlo
      cases hinterfaces : monitor.interfaces with
      | nil =>
        rw [hinterfaces] at h
        exact List.map_eq_nil_iff.mp h.nil_eq.symm
      | cons info rest =>
        obtain ⟨entry, hentry, hinfo⟩ := entry_of info (by simp [hinterfaces])
        exact ⟨entry, hentry, hinfo, fun h => absurd h hup, fun h => absurd h hlo⟩

theorem tempOf_eq_some {entry : Dirent} {t : ℚ} : tempOf files base entry = some t ↔
    (thermalReadInfo files base entry).hasTemperature = true ∧
    (thermalReadInfo files base entry).temperature = t := by
  unfold tempOf thermalReadInfo
  simp only [decide_eq_true_eq]
  split <;> simp_all

theorem tempOf_eq_none {entry : Dirent} : tempOf files base entry = none ↔
    (thermalReadInfo files base entry).hasTemperature = false := by
  unfold tempOf thermalReadInfo
  simp

/-- **The best zone has the temperature that the rule asks for.** -/
theorem isHottest_of_isBest {entries : List Dirent} {hottest : Option ThermalRuntimeInfo}
    (h : IsBest ThermalRuntimeInfo.hasTemperature ThermalRuntimeInfo.temperature
      (entries.map (thermalReadInfo files base)) hottest) :
    IsHottest files base entries (hottest.map ThermalRuntimeInfo.temperature) := by
  cases hottest with
  | none => exact fun entry hentry => tempOf_eq_none.mpr (h _ (List.mem_map_of_mem hentry))
  | some info =>
    obtain ⟨hinfo, htemp, hmax⟩ := h
    obtain ⟨entry, hentry, rfl⟩ := List.mem_map.mp hinfo
    refine ⟨⟨entry, hentry, tempOf_eq_some.mpr ⟨htemp, rfl⟩⟩, fun e he t ht => ?_⟩
    obtain ⟨hhas, rfl⟩ := tempOf_eq_some.mp ht
    exact hmax _ (List.mem_map_of_mem he) hhas

end Rules

/-! ### Two orders of one directory -/

/-- `network_monitor_collect_from` followed by `network_monitor_primary`. -/
def networkPrimaryFrom (q : Qsort) (files : Bytes → Option SysfsFile) (base : Bytes) (listing : List Dirent)
    (monitor : NetworkMonitor) : Option NetworkRuntimeInfo :=
  networkMonitorPrimary (networkMonitorCollectFrom q files (some listing) (some monitor) (some base)).2

/-- `thermal_monitor_collect_from` followed by `thermal_monitor_hottest`. -/
def thermalHottestFrom (q : Qsort) (files : Bytes → Option SysfsFile) (base : Bytes) (listing : List Dirent)
    (monitor : ThermalMonitor) : Option ThermalRuntimeInfo :=
  thermalMonitorHottest (thermalMonitorCollectFrom q files (some listing) (some monitor) (some base)).2

section Orders

variable (q q' : Qsort) (files : Bytes → Option SysfsFile) {base : Bytes} (hbase : base ≠ [])
include hbase

theorem networkPrimaryFrom_eq {listing listing' : List Dirent}
    (h : Alike networkMonitorMaxInterfaces networkCounts listing listing')
    (hdistinct : (listing.map Dirent.name).Nodup)
    (hshort : ∀ entry ∈ listing, entry.name.length ≤ 63) (monitor monitor' : NetworkMonitor) :
    networkPrimaryFrom q files base listing monitor = networkPrimaryFrom q' files base listing' monitor' := by
  have hcollected : networkCollected q files base listing = networkCollected q' files base listing' := by
    apply collectSorted_eq q q' consistent_networkInfoCompare h
    intro a ha b hb hab hba
    have hname : a.name = b.name := name_eq_of_strcmp (hshort a ha) (hshort b hb) hab hba
    rw [List.inj_on_of_nodup_map hdistinct ha hb hname]
  unfold networkPrimaryFrom networkMonitorCollectFrom
  simp only [if_neg hbase, hcollected]

theorem isPrimary_networkPrimaryFrom (listing : List Dirent) (monitor : NetworkMonitor) :
    IsPrimary files base (firstOf networkMonitorMaxInterfaces networkCounts listing)
      (networkPrimaryFrom q files base listing monitor) := by
  unfold networkPrimaryFrom networkMonitorCollectFrom
  simp only [if_neg hbase]
  exact isPrimary_networkMonitorPrimary (collectSorted_perm q _ _ _ _ listing)

theorem isBest_thermalHottestFrom (listing : List Dirent) (monitor : ThermalMonitor) :
    IsBest ThermalRuntimeInfo.hasTemperature ThermalRuntimeInfo.temperature
      ((firstOf thermalMonitorMaxZones thermalCounts listing).map (thermalReadInfo files base))
      (thermalHottestFrom q files base listing monitor) := by
  unfold thermalHottestFrom thermalMonitorCollectFrom
  simp only [if_neg hbase]
  exact (isBest_foldl _).perm (collectSorted_perm q _ _ _ _ listing)

end Orders

/-- **What the monitors report does not depend on the order of the directory.**  When all the entries that count have
room, or the same ones come first, the interface is the same and the temperature is the same, and they are selected from
the entries that are collected by the rules. -/
theorem monitors_ignore_order (q q' : Qsort) (files : Bytes → Option SysfsFile) {base zoneBase : Bytes}
    (hbase : base ≠ []) (hzoneBase : zoneBase ≠ []) {net net' zones zones' : List Dirent}
    (hnet : Alike networkMonitorMaxInterfaces networkCounts net net')
    (hdistinct : (net.map Dirent.name).Nodup) (hshort : ∀ entry ∈ net, entry.name.length ≤ 63)
    (hzones : Alike thermalMonitorMaxZones thermalCounts zones zones') (n n' : NetworkMonitor)
    (t t' : ThermalMonitor) :
    (networkPrimaryFrom q files base net n = networkPrimaryFrom q' files base net' n' ∧
      IsPrimary files base (firstOf networkMonitorMaxInterfaces networkCounts net)
        (networkPrimaryFrom q files base net n)) ∧
    (thermalHottestFrom q files zoneBase zones t).map ThermalRuntimeInfo.temperature =
        (thermalHottestFrom q' files zoneBase zones' t').map ThermalRuntimeInfo.temperature ∧
      IsHottest files zoneBase (firstOf thermalMonitorMaxZones thermalCounts zones)
        ((thermalHottestFrom q files zoneBase zones t).map ThermalRuntimeInfo.temperature) := by
  have hbest := isBest_thermalHottestFrom q files hzoneBase zones t
  have hbest' := isBest_thermalHottestFrom q' files hzoneBase zones' t'
  refine ⟨⟨networkPrimaryFrom_eq q q' files hbase hnet hdistinct hshort n n', ?_⟩, ?_,
    isHottest_of_isBest hbest⟩
  · exact isPrimary_networkPrimaryFrom q files hbase net n
  · exact (hbest.perm (hzones.perm.map _)).key_eq hbest'

/-! ### More entries than there is room for -/

/-- An entry of one letter after `pre`. -/
def letterEntry (pre : List Char) (c : Char) : Dirent :=
  if h : 0 ∉ ascii (pre ++ [c]) then ⟨ascii (pre ++ [c]), h⟩ else ⟨[], List.not_mem_nil⟩

def seventeen : List Char :=
  ['a', 'b', 'c', 'd', 'e', 'f', 'g', 'h', 'i', 'j', 'k', 'l', 'm', 'n', 'o', 'p', 'q']

/-- In the directory `n` the interface `a` is up; in the directory `t` the zone `a` has 50 degrees. -/
def oneOfMany (path : Bytes) : Option SysfsFile :=
  if path = ascii ['n', '/', 'a', '/', 'o', 'p', 'e', 'r', 's', 't', 'a', 't', 'e'] then
    some ⟨ascii ['u', 'p', '\n'], [], true⟩
  else if path = ascii ['t', '/'] ++ thermalZone ++ ascii ['a', '/', 't', 'e', 'm', 'p'] then
    some ⟨ascii ['5', '0', '0', '0', '0', '\n'], [], true⟩
  else none

def manyInterfaces : List Dirent := seventeen.map (letterEntry [])

def manyZones : List Dirent :=
  seventeen.map (letterEntry ['t', 'h', 'e', 'r', 'm', 'a', 'l', '_', 'z', 'o', 'n', 'e'])

/-- **The entry that stands last is left out.** -/
theorem order_matters :
    manyInterfaces.Perm manyInterfaces.reverse ∧ (manyInterfaces.map Dirent.name).Nodup ∧
      (∀ entry ∈ manyInterfaces, entry.name.length ≤ 63) ∧
      (networkPrimaryFrom .insertion oneOfMany [110] manyInterfaces .cleared).map NetworkRuntimeInfo.name =
      some [97] ∧
      (networkPrimaryFrom .insertion oneOfMany [110] manyInterfaces.reverse .cleared).map NetworkRuntimeInfo.name =
        some [98] ∧
    manyZones.Perm manyZones.reverse ∧
      (thermalHottestFrom .insertion oneOfMany [116] manyZones .cleared).map ThermalRuntimeInfo.temperature =
      some 50 ∧
      thermalHottestFrom .insertion oneOfMany [116] manyZones.reverse .cleared = none := by
  refine ⟨(List.reverse_perm _).symm, by decide +kernel, by decide +kernel, ?_, ?_, (List.reverse_perm _).symm, ?_, ?_⟩
  · decide +kernel
  · decide +kernel
  · decide +kernel
  · decide +kernel

/-- With sixteen of them the order does not matter. -/
theorem sixteen_ignore_order :
    networkPrimaryFrom .insertion oneOfMany [110] (manyInterfaces.take 16) .cleared =
        networkPrimaryFrom .insertion oneOfMany [110] (manyInterfaces.take 16).reverse .cleared ∧
      (thermalHottestFrom .insertion oneOfMany [116]
        (manyZones.take 16) .cleared).map ThermalRuntimeInfo.temperature =
        (thermalHottestFrom .insertion oneOfMany [116] (manyZones.take 16).reverse .cleared).map
          ThermalRuntimeInfo.temperature := by
  have hnet : Alike networkMonitorMaxInterfaces networkCounts (manyInterfaces.take 16)
      (manyInterfaces.take 16).reverse :=
    ⟨(List.reverse_perm _).symm, Or.inl (by decide +kernel)⟩
  have hzones : Alike thermalMonitorMaxZones thermalCounts (manyZones.take 16) (manyZones.take 16).reverse :=
    ⟨(List.reverse_perm _).symm, Or.inl (by decide +kernel)⟩
  have h := @monitors_ignore_order .insertion .insertion oneOfMany [110] [116] (by decide)
    (by decide) _ _ _ _ hnet (by decide +kernel)
    (by decide +kernel) hzones .cleared .cleared .cleared .cleared
  exact ⟨h.1.1, h.2.1⟩

end MiniShell
