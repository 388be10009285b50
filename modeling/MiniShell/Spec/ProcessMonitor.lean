import MiniShell.Model.ProcessMonitor
import MiniShell.Spec.Render

/-!
# The process list

* `HasInfo files pid info` — the status file of the process can be read, has a name in it, and `info` is what it says;
* `processLoop_grown`, `processLoop_stuck` — the loop when the array can grow as far as it has to, and when it cannot;
* **`process_list_complete`** — the list is complete, sorted and free of duplicates;
* **`failed_scan_iff`** — a scan that fails hands out nothing exactly when it does not fail at a growth.
-/

namespace MiniShell

open MiniShell.Lib MiniShellError

/-! ### Names and numbers -/

/-- A name that is a decimal number. -/
def Numeric (name : Bytes) : Prop := name ≠ [] ∧ ∀ c ∈ name, Strtol.isDigit c = true

theorem isPidName_iff {name : Bytes} : isPidName name = true ↔ Numeric name := by
  unfold isPidName Numeric
  rw [Bool.and_eq_true, decide_eq_true_eq, List.all_eq_true]

instance : DecidablePred Numeric := fun _ => decidable_of_iff _ isPidName_iff

theorem decimal_ofNat (n : ℕ) : decimal n = (Nat.toDigits 10 n).map fun c => UInt8.ofNat c.toNat := rfl

theorem numeric_decimal (n : ℕ) : Numeric (decimal n) := by
  rw [decimal_ofNat]
  exact ⟨by simp [Nat.toDigits_ne_nil], Strtol.toDigits_isDigit n⟩

/-- What `strtol` makes of a decimal representation. -/
theorem strtol_decimal (n : ℕ) : Strtol.strtol isspace 64 (decimal n) =
    if 2 ^ 63 ≤ (n : Int) then ⟨2 ^ 63 - 1, some [], true⟩ else ⟨n, some [], false⟩ := by
  have hdenotes : Strtol.Denotes isspace (decimal n) ⟨false, decimal n⟩ :=
    .plain (fun c hc => absurd hc List.not_mem_nil) (numeric_decimal n).1 (numeric_decimal n).2
  have hvalue : (⟨false, decimal n⟩ : Strtol.Numeral).value = n := by
    unfold Strtol.Numeral.value Strtol.Numeral.magnitude
    rw [if_neg Bool.false_ne_true, decimal_ofNat, Strtol.digitsValue_toDigits]
  unfold Strtol.strtol
  rw [(Strtol.scanNumeral_full isspace_apart).mpr hdenotes]
  dsimp only
  rw [hvalue, if_neg (by omega)]

theorem length_statusPath {pid : ℕ} (h : pid ≤ INT_MAX) : (statusPath pid).length < 64 := by
  have hdigits : (Nat.toDigits 10 pid).length ≤ 10 :=
    (Nat.length_toDigits_le_iff (by decide) (by decide)).mpr (h.trans_lt (by decide))
  unfold statusPath
  rw [List.length_append, List.length_append, decimal_ofNat, List.length_map]
  have hproc : (ascii ['/', 'p', 'r', 'o', 'c', '/']).length = 6 := rfl
  have hsuffix : (ascii ['/', 's', 't', 'a', 't', 'u', 's']).length = 7 := rfl
  omega

/-! ### One process -/

/-- What the status file of a process says. -/
def statusInfo (pid : Int) (file : StatusFile) : ProcessInfo :=
  statusLoop file.broken (file.content.length + 1) file.content ⟨pid, [], 63, 0, 0⟩

/-- The status of the process can be read, and it has a name. -/
def HasInfo (files : Bytes → Option StatusFile) (pid : Int) (info : ProcessInfo) : Prop :=
  ∃ file, files (statusPath pid) = some file ∧ info = statusInfo pid file ∧ info.name ≠ []

section

variable {files : Bytes → Option StatusFile} {info info' : ProcessInfo} {pid : ℕ} {entry : Dirent}

theorem statusLine_pid (line : Bytes) (info : ProcessInfo) : (statusLine line info).pid = info.pid := by
  unfold statusLine
  split
  · rfl
  · split
    · split
      · rfl
      · rfl
    · split
      · rfl
      · split
        · rfl
        · rfl

theorem statusLoop_pid (broken : Bool) (n : ℕ) (rest : Bytes) (info : ProcessInfo) :
    (statusLoop broken n rest info).pid = info.pid := by
  induction n generalizing rest info with
  | zero => rfl
  | succ n ih =>
    unfold statusLoop
    split
    · rfl
    · rw [ih, statusLine_pid]

theorem HasInfo.pid_eq {pid : Int} (h : HasInfo files pid info) : info.pid = pid := by
  obtain ⟨file, -, rfl, -⟩ := h
  exact statusLoop_pid _ _ _ _

/-- **`process_monitor_get` succeeds when there is something to report.** -/
theorem processMonitorGet_ok (hpos : 1 ≤ pid) (hmax : pid ≤ INT_MAX) :
    processMonitorGet files pid info = (ok, info') ↔ HasInfo files pid info' := by
  unfold processMonitorGet HasInfo
  rw [if_neg (by omega), if_neg (not_le.mpr (length_statusPath hmax))]
  cases hfile : files (statusPath pid) with
  | none =>
    constructor
    · intro h
      have hret : errOpen = ok := congrArg Prod.fst h
      exact absurd hret (by decide)
    · rintro ⟨file, hsome, -, -⟩
      cases hsome
  | some file =>
    change (if (statusInfo pid file).name = [] then (errUnknown, statusInfo pid file) else
      (ok, statusInfo pid file)) =
      (ok, info') ↔ _
    constructor
    · intro h
      split at h
      case isTrue =>
        have hret : errUnknown = ok := congrArg Prod.fst h
        exact absurd hret (by decide)
      case isFalse hname =>
        cases h
        exact ⟨file, rfl, rfl, hname⟩
    · rintro ⟨file', hsome, rfl, hname⟩
      cases hsome
      rw [if_neg hname]

/-- **An entry with a canonical name.** -/
theorem processEntry_decimal {n : ℕ} (hname : entry.name = decimal n) :
    processEntry files entry = some info ↔ 1 ≤ n ∧ n ≤ INT_MAX ∧ HasInfo files n info := by
  unfold processEntry
  rw [hname, if_neg (not_not.mpr (isPidName_iff.mpr (numeric_decimal n))), strtol_decimal]
  have hmax : INT_MAX < 2 ^ 63 := by decide
  by_cases hlarge : 2 ^ 63 ≤ (n : Int)
  · rw [if_pos hlarge, if_pos (Or.inl rfl)]
    constructor
    · intro h
      cases h
    · rintro ⟨-, hle, -⟩
      omega
  · rw [if_neg hlarge]
    by_cases hrange : 1 ≤ n ∧ n ≤ INT_MAX
    · obtain ⟨hpos, hle⟩ := hrange
      have hcond : ¬ (false = true ∨ ([] : Bytes) ≠ [] ∨ (n : Int) ≤ 0 ∨ (INT_MAX : Int) < n) := by
        rintro (h | h | h | h)
        · cases h
        · exact h rfl
        · omega
        · omega
      have hget : processMonitorGet files n ⟨0, [], 0, 0, 0⟩ = (ok, info) ↔ HasInfo files n info :=
        processMonitorGet_ok hpos hle
      dsimp only [Option.getD_some]
      rw [if_neg hcond, ← and_assoc, and_iff_right ⟨hpos, hle⟩, ← hget]
      split
      case isTrue hfails =>
        constructor
        · intro h
          cases h
        · intro h
          exact absurd (congrArg Prod.fst h) hfails
      case isFalse hok =>
        rw [Option.some.injEq, Prod.ext_iff]
        exact ⟨fun h => ⟨not_not.mp hok, h⟩, fun h => h.2⟩
    · have hcond : (n : Int) ≤ 0 ∨ (INT_MAX : Int) < n := by omega
      rw [if_pos (Or.inr (Or.inr hcond))]
      constructor
      · intro h
        cases h
      · exact fun h => absurd ⟨h.1, h.2.1⟩ hrange

theorem processEntry_numeric (h : processEntry files entry = some info) : Numeric entry.name := by
  unfold processEntry at h
  split at h
  case isTrue => cases h
  case isFalse hname => exact isPidName_iff.mp (not_not.mp hname)

end

/-! ### The loop -/

/-- The entries that are reported, in the order of the directory. -/
def readable (files : Bytes → Option StatusFile) (listing : List Dirent) : List ProcessInfo :=
  listing.filterMap (processEntry files)

section

variable {files : Bytes → Option StatusFile} {memory : Allocations} {listing : List Dirent} {growths count : ℕ}
  {result : List ProcessInfo}

/-- A full array has room again after it has grown. -/
theorem length_grown (hfull : count = 64 * 2 ^ growths) : count + 1 ≤ 64 * 2 ^ (growths + 1) := by
  have hpos : 0 < 2 ^ growths := Nat.two_pow_pos growths
  rw [Nat.pow_succ]
  omega

/-- **The loop finds everything** when the array can grow as often as it has to: the growth number `j` is for the entry
behind `64 * 2 ^ j`. -/
theorem processLoop_grown (hcount : count = result.length) (hroom : count ≤ 64 * 2 ^ growths)
    (h : ∀ j ≥ growths, 64 * 2 ^ j < count + (readable files listing).length → memory.grows j = true) :
    processLoop files memory listing growths (64 * 2 ^ growths) count result =
      (ok, count + (readable files listing).length, result ++ readable files listing) := by
  induction listing generalizing growths count result with
  | nil => rw [processLoop, readable, List.filterMap_nil, List.length_nil, Nat.add_zero, List.append_nil]
  | cons entry listing ih =>
    unfold processLoop
    cases hentry : processEntry files entry with
    | none =>
      have hskip : readable files (entry :: listing) = readable files listing := List.filterMap_cons_none hentry
      rw [hskip] at h ⊢
      exact ih hcount hroom h
    | some info =>
      have hfound : readable files (entry :: listing) = info :: readable files listing :=
        List.filterMap_cons_some hentry
      rw [hfound, List.length_cons] at h ⊢
      have hcount' : count + 1 = (result ++ [info]).length := by
        rw [List.length_append, List.length_singleton, hcount]
      have hresult : result ++ info :: readable files listing =
        result ++ [info] ++ readable files listing := by simp
      rw [hresult, show count + ((readable files listing).length + 1) = count + 1 +
        (readable files listing).length by omega]
      dsimp only
      by_cases hfull : count = 64 * 2 ^ growths
      · have hgrows : memory.grows growths = true := h growths le_rfl (by omega)
        rw [if_pos hfull, if_neg (not_not.mpr hgrows), Nat.mul_assoc, ← Nat.pow_succ]
        exact ih hcount' (length_grown hfull) fun j hj hlt => h j (by omega) (by omega)
      · rw [if_neg hfull]
        exact ih hcount' (by omega) fun j hj hlt => h j hj (by omega)

/-- **The loop stops at the first growth that fails**, and `*count` is what it was then. -/
theorem processLoop_stuck (hcount : count = result.length) (hroom : count ≤ 64 * 2 ^ growths)
    (h : ∃ j ≥ growths, 64 * 2 ^ j < count + (readable files listing).length ∧ memory.grows j = false) :
    ∃ j ≥ growths, processLoop files memory listing growths (64 * 2 ^ growths) count result =
      (errMemory, 64 * 2 ^ j, []) := by
  induction listing generalizing growths count result with
  | nil =>
    obtain ⟨j, hj, hlt, -⟩ := h
    have hpow : 2 ^ growths ≤ 2 ^ j := Nat.pow_le_pow_right (by decide) hj
    rw [readable, List.filterMap_nil, List.length_nil, Nat.add_zero] at hlt
    omega
  | cons entry listing ih =>
    unfold processLoop
    cases hentry : processEntry files entry with
    | none =>
      have hskip : readable files (entry :: listing) = readable files listing := List.filterMap_cons_none hentry
      rw [hskip] at h
      exact ih hcount hroom h
    | some info =>
      have hfound : readable files (entry :: listing) = info :: readable files listing :=
        List.filterMap_cons_some hentry
      rw [hfound, List.length_cons] at h
      have hcount' : count + 1 = (result ++ [info]).length := by
        rw [List.length_append, List.length_singleton, hcount]
      obtain ⟨j, hj, hlt, hfails⟩ := h
      dsimp only
      by_cases hfull : count = 64 * 2 ^ growths
      · rw [if_pos hfull]
        by_cases hgrows : memory.grows growths = true
        · have hj' : growths + 1 ≤ j := by
            rcases Nat.eq_or_lt_of_le hj with rfl | hj
            · rw [hgrows] at hfails
              cases hfails
            · exact hj
          rw [if_neg (not_not.mpr hgrows), Nat.mul_assoc, ← Nat.pow_succ]
          obtain ⟨k, hk, hloop⟩ := ih hcount' (length_grown hfull) ⟨j, hj', by omega, hfails⟩
          exact ⟨k, by omega, hloop⟩
        · rw [if_pos hgrows, hfull]
          exact ⟨growths, le_rfl, rfl⟩
      · rw [if_neg hfull]
        exact ih hcount' (by omega) ⟨j, hj, by omega, hfails⟩

end

/-! ### The list -/

section

variable {files : Bytes → Option StatusFile} {listing : List Dirent}

theorem processInfoCompare_nonpos (a b : ProcessInfo) : processInfoCompare a b ≤ 0 ↔ a.pid ≤ b.pid := by
  unfold processInfoCompare
  split
  case isTrue hlt => exact iff_of_true (by decide) hlt.le
  case isFalse hge =>
    split
    case isTrue hgt => exact iff_of_false (by decide) (not_le.mpr hgt)
    case isFalse hle => exact iff_of_true (by decide) (not_lt.mp hle)

theorem processInfoCompare_consistent : Lib.Consistent processInfoCompare where
  total a b := by
    rw [processInfoCompare_nonpos, processInfoCompare_nonpos]
    exact le_total _ _
  trans a b c := by
    rw [processInfoCompare_nonpos, processInfoCompare_nonpos, processInfoCompare_nonpos]
    exact le_trans

/-- The names of processes are canonical, and none is there twice. -/
structure IsProc (listing : List Dirent) : Prop where
  canonical : ∀ entry ∈ listing, Numeric entry.name → ∃ n : ℕ, entry.name = decimal n
  distinct : (listing.filter fun entry => Numeric entry.name).Pairwise fun a b => a.name ≠ b.name

/-- **What is reported**: the processes in the range that are listed and can be read. -/
theorem mem_readable (h : IsProc listing) {info : ProcessInfo} : info ∈ readable files listing ↔
    ∃ pid : ℕ, 1 ≤ pid ∧ pid ≤ INT_MAX ∧ (∃ entry ∈ listing, entry.name = decimal pid) ∧
      HasInfo files pid info := by
  unfold readable
  rw [List.mem_filterMap]
  constructor
  · rintro ⟨entry, hentry, hinfo⟩
    obtain ⟨n, hname⟩ := h.canonical entry hentry (processEntry_numeric hinfo)
    obtain ⟨hpos, hmax, hhas⟩ := (processEntry_decimal hname).mp hinfo
    exact ⟨n, hpos, hmax, ⟨entry, hentry, hname⟩, hhas⟩
  · rintro ⟨pid, hpos, hmax, ⟨entry, hentry, hname⟩, hhas⟩
    exact ⟨entry, hentry, (processEntry_decimal hname).mpr ⟨hpos, hmax, hhas⟩⟩

/-- No process is reported twice. -/
theorem readable_distinct (h : IsProc listing) : (readable files listing).Pairwise fun a b => a.pid ≠ b.pid := by
  unfold readable
  rw [List.pairwise_filterMap]
  refine (List.pairwise_filter.mp h.distinct).imp_of_mem ?_
  intro a b ha hb hne info hinfo info' hinfo' heq
  have hnum := processEntry_numeric hinfo
  have hnum' := processEntry_numeric hinfo'
  obtain ⟨m, hm⟩ := h.canonical a ha hnum
  obtain ⟨n, hn⟩ := h.canonical b hb hnum'
  have hpid : info.pid = m := ((processEntry_decimal hm).mp hinfo).2.2.pid_eq
  have hpid' : info'.pid = n := ((processEntry_decimal hn).mp hinfo').2.2.pid_eq
  have hsame : (m : Int) = n := by rw [← hpid, ← hpid', heq]
  refine hne (decide_eq_true hnum) (decide_eq_true hnum') ?_
  rw [hm, hn, hsame]

/-- What is made of the loop, once the array is there. -/
theorem processMonitorCollect_loop {memory : Allocations} {ret : Int} {count : ℕ}
    {result : List ProcessInfo} (q : Qsort) (hfirst : memory.first = true)
    (hloop : processLoop files memory listing 0 (64 * 2 ^ 0) 0 [] = (ret, count, result)) :
    processMonitorCollect q files memory (some listing) =
      if ret ≠ ok then (ret, none, count)
      else if count = 0 then (ok, none, count)
      else (ok, some (q.sort processInfoCompare result), count) := by
  unfold processMonitorCollect
  dsimp only
  rw [if_neg (not_not.mpr hfirst), show 64 = 64 * 2 ^ 0 from rfl, hloop]

/-- The scan when the array can grow as far as it has to. -/
theorem processMonitorCollect_grown {memory : Allocations} (q : Qsort) (hfirst : memory.first = true)
    (hgrows : ∀ j, 64 * 2 ^ j < (readable files listing).length → memory.grows j = true) :
    processMonitorCollect q files memory (some listing) =
      if (readable files listing).length = 0 then (ok, none, (readable files listing).length)
      else (ok, some (q.sort processInfoCompare (readable files listing)), (readable files listing).length) := by
  have hloop : processLoop files memory listing 0 (64 * 2 ^ 0) 0 [] =
      (ok, 0 + (readable files listing).length, [] ++ readable files listing) :=
    processLoop_grown rfl (Nat.zero_le _) fun j _ hlt => hgrows j (by omega)
  rw [Nat.zero_add, List.nil_append] at hloop
  rw [processMonitorCollect_loop q hfirst hloop, if_neg (not_not.mpr rfl)]

/-- **The sorted list** is strictly increasing. -/
theorem sorted_readable (q : Qsort) (h : IsProc listing) :
    (q.sort processInfoCompare (readable files listing)).Pairwise fun a b => a.pid < b.pid := by
  have hperm := q.perm processInfoCompare (readable files listing)
  have hle := q.sorted processInfoCompare (readable files listing) processInfoCompare_consistent
  have hne : (q.sort processInfoCompare (readable files listing)).Pairwise fun a b => a.pid ≠ b.pid :=
    (hperm.pairwise_iff fun hab => Ne.symm hab).mpr (readable_distinct h)
  refine (hle.and hne).imp fun hab => ?_
  exact lt_of_le_of_ne ((processInfoCompare_nonpos _ _).mp hab.1) hab.2

end

/-- **The process list is complete, sorted and free of duplicates.**  For every listing, in any order, and every
set of status files that can be read: with memory the scan succeeds and returns the processes in the range that are
listed and can be read, with strictly increasing ids and nothing else; the list is `NULL` when there is none. -/
theorem process_list_complete (q : Qsort) (files : Bytes → Option StatusFile) (memory : Allocations)
    (listing : List Dirent) (hfirst : memory.first = true) (hgrows : ∀ j, memory.grows j = true)
    (h : IsProc listing) :
    ∃ list count, processMonitorCollect q files memory (some listing) = (ok, list, count) ∧
      (list = none ↔ count = 0) ∧ (list.getD []).length = count ∧ (list.getD []).Pairwise
      (fun a b => a.pid < b.pid) ∧
      ∀ info, info ∈ list.getD [] ↔
        ∃ pid : ℕ, 1 ≤ pid ∧ pid ≤ INT_MAX ∧ (∃ entry ∈ listing, entry.name = decimal pid) ∧
          HasInfo files pid info := by
  have hmem : ∀ info, info ∈ readable files listing ↔ _ := fun info => mem_readable h
  rw [processMonitorCollect_grown q hfirst fun j _ => hgrows j]
  by_cases hnone : (readable files listing).length = 0
  · rw [if_pos hnone]
    refine ⟨none, _, rfl, iff_of_true rfl hnone, hnone.symm, List.Pairwise.nil, fun info => ?_⟩
    rw [← hmem, List.eq_nil_of_length_eq_zero hnone]
    rfl
  · rw [if_neg hnone]
    have hperm := q.perm processInfoCompare (readable files listing)
    refine ⟨some _, _, rfl, iff_of_false (Option.some_ne_none _) hnone, hperm.length_eq,
      sorted_readable q h, fun info => ?_⟩
    rw [← hmem]
    exact hperm.mem_iff

/-- The status of every process: its name is `a`. -/
def namedA : StatusFile := ⟨keyName ++ [9, 97, 10], false⟩

/-- `/proc` with `10`, `self`, `7` and `2`, of which `10` has exited. -/
def smallProc : List Dirent :=
  [⟨decimal 10, by decide⟩, ⟨ascii ['s', 'e', 'l', 'f'], by decide⟩, ⟨decimal 7, by decide⟩,
    ⟨decimal 2, by decide⟩]

theorem smallProc_isProc : IsProc smallProc where
  canonical := by
    intro entry hentry hnumeric
    simp only [smallProc, List.mem_cons, List.not_mem_nil, or_false] at hentry
    rcases hentry with rfl | rfl | rfl | rfl
    · exact ⟨10, rfl⟩
    · exact absurd hnumeric (by decide)
    · exact ⟨7, rfl⟩
    · exact ⟨2, rfl⟩
  distinct := by decide

/-- The processes 2 and 7 are found, and sorted. -/
theorem smallProc_complete : ∃ list count, processMonitorCollect .insertion
    (fun path => if path = statusPath 10 then none else some namedA) ⟨true, fun _ => true⟩
    (some smallProc) = (ok, list, count) ∧
      (list.getD []).Pairwise (fun a b => a.pid < b.pid) ∧
      ∀ pid ∈ [7, 2], ∃ info ∈ list.getD [], info.pid = pid ∧ info.name = [97] := by
  obtain ⟨list, count, hrun, -, -, hsorted, hmem⟩ := process_list_complete .insertion
    (fun path => if path = statusPath 10 then none else some namedA) ⟨true, fun _ => true⟩ smallProc rfl
      (fun _ => rfl)
    smallProc_isProc
  refine ⟨list, count, hrun, hsorted, fun pid hpid => ?_⟩
  simp only [List.mem_cons, List.not_mem_nil, or_false] at hpid
  rcases hpid with rfl | rfl
  · refine ⟨statusInfo 7 namedA, (hmem _).mpr ⟨7, by decide, by decide, ?_, ?_⟩,
      statusLoop_pid _ _ _ _, by decide +kernel⟩
    · exact ⟨⟨decimal 7, by decide⟩, by simp [smallProc], rfl⟩
    · exact ⟨namedA, by decide, rfl, by decide +kernel⟩
  · refine ⟨statusInfo 2 namedA, (hmem _).mpr ⟨2, by decide, by decide, ?_, ?_⟩,
      statusLoop_pid _ _ _ _, by decide +kernel⟩
    · exact ⟨⟨decimal 2, by decide⟩, by simp [smallProc], rfl⟩
    · exact ⟨namedA, by decide, rfl, by decide +kernel⟩

/-! ### A scan that fails -/

/-- **A scan that fails hands out nothing** — unless it fails at a growth: of all points of failure this is the
one that leaves `*count` behind. -/
theorem failed_scan_iff (q : Qsort) (files : Bytes → Option StatusFile) (memory : Allocations)
    (dir : Option (List Dirent)) :
    ((processMonitorCollect q files memory dir).1 ≠ ok →
      (processMonitorCollect q files memory dir).2.1 = none ∧
      (processMonitorCollect q files memory dir).2.2 = 0) ↔
    ∀ listing, dir = some listing → memory.first = true →
      ∀ j, 64 * 2 ^ j < (readable files listing).length → memory.grows j = true := by
  cases dir with
  | none => exact iff_of_true (fun _ => ⟨rfl, rfl⟩) fun listing hdir => by cases hdir
  | some listing =>
    by_cases hfirst : memory.first = true
    · by_cases hgrows : ∀ j, 64 * 2 ^ j < (readable files listing).length → memory.grows j = true
      · refine iff_of_true (fun hret => absurd ?_ hret) fun listing' hdir _ => ?_
        · rw [processMonitorCollect_grown q hfirst hgrows]
          split
          case isTrue => rfl
          case isFalse => rfl
        · cases hdir
          exact hgrows
      · have hstuck : ∃ j ≥ 0, processLoop files memory listing 0 (64 * 2 ^ 0) 0
            [] = (errMemory, 64 * 2 ^ j, []) := by
          refine processLoop_stuck rfl (Nat.zero_le _) ?_
          obtain ⟨j, hj⟩ := not_forall.mp hgrows
          obtain ⟨hlt, hfails⟩ := Classical.not_imp.mp hj
          exact ⟨j, Nat.zero_le _, by omega, Bool.eq_false_of_not_eq_true hfails⟩
        obtain ⟨j, -, hloop⟩ := hstuck
        have herror : errMemory ≠ ok := by decide
        have hcollect : processMonitorCollect q files memory (some listing) = (errMemory, none, 64 * 2 ^ j) := by
          rw [processMonitorCollect_loop q hfirst hloop, if_pos herror]
        rw [hcollect]
        refine iff_of_false ?_ fun h => hgrows (h listing rfl hfirst)
        intro hnothing
        have hcount : 64 * 2 ^ j = 0 := (hnothing herror).2
        have hpos : 0 < 2 ^ j := Nat.two_pow_pos j
        omega
    · have hcollect : processMonitorCollect q files memory (some listing) = (errMemory, none, 0) := if_pos hfirst
      rw [hcollect]
      exact iff_of_true (fun _ => ⟨rfl, rfl⟩) fun _ _ h => absurd h hfirst

/-- The processes 1 to 65. -/
def manyProcesses : List Dirent :=
  (List.range 65).map fun n => ⟨decimal (n + 1 : ℕ), fun h => (decimal_bytes _ 0 h).1 rfl⟩

/-- The 65th process does not fit, and the array cannot grow: `*list` is `NULL` and `*count` is 64. -/
theorem growth_leaves_count :
    ¬ ((processMonitorCollect .insertion (fun _ => some namedA) ⟨true, fun _ => false⟩
      (some manyProcesses)).1 ≠ ok →
    (processMonitorCollect .insertion (fun _ => some namedA) ⟨true, fun _ => false⟩
      (some manyProcesses)).2.1 = none ∧
      (processMonitorCollect .insertion (fun _ => some namedA) ⟨true, fun _ => false⟩
        (some manyProcesses)).2.2 = 0) := by
  have hloop : processLoop (fun _ => some namedA) ⟨true, fun _ => false⟩ manyProcesses 0 64 0
      [] = (errMemory, 64, []) := by
    decide +kernel
  have hcollect : processMonitorCollect .insertion (fun _ => some namedA) ⟨true, fun _ => false⟩
    (some manyProcesses) =
      (errMemory, none, 64) := by
    rw [processMonitorCollect_loop .insertion rfl hloop, if_pos (by decide)]
  rw [hcollect]
  exact fun h => absurd (h (by decide)).2 (by decide)

end MiniShell
