import MiniShell.Model.Led
import MiniShell.Spec.Config
import MiniShell.Spec.Monitor
import MiniShell.Spec.Sysfs

/-!
# LED triggers

* `Active text t` — `t` is the text in the first brackets;
* `bracketed_eq_some` — the search of both readers finds it;
* **`trigger_readers_agree`** — the reader of `led_control.c` gives what that of `hardware_info.c` gives without
  cutting it, and both read the active name out of the list the kernel writes.
-/

namespace MiniShell

open MiniShell.Lib MiniShellError

/-! ### The text in brackets -/

/-- `t` stands between the first `'['` and the next `']'`. -/
def Active (text t : Bytes) : Prop :=
  ∃ before after, text = before ++ 91 :: t ++ 93 :: after ∧ 91 ∉ before ∧ 93 ∉ t ∧ t ≠ []

/-- What the readers see of a content. -/
def triggerText (content : Bytes) : Bytes := cString (trimLineEnds (content.take 2047))

section

variable {s rest text t : Bytes} {c : UInt8}

theorem strchr_append {before after : Bytes} (h : c ∉ before) :
    strchr (before ++ c :: after) c = some (c :: after) := by
  have hskip : ∀ b ∈ before, (decide (b ≠ c)) = true := by
    intro b hb
    rw [decide_eq_true_eq]
    rintro rfl
    exact h hb
  unfold strchr
  rw [List.dropWhile_append_of_pos hskip, List.dropWhile_cons_of_neg (by simp)]

theorem strchr_eq_none (h : c ∉ s) : strchr s c = none := by
  have hskip : s.dropWhile (· ≠ c) = [] := List.dropWhile_eq_nil_iff.mpr fun b hb => by
    rw [decide_eq_true_eq]
    rintro rfl
    exact h hb
  unfold strchr
  rw [hskip]

/-- The search, where the brackets are. -/
theorem bracketed_append {before inner after : Bytes} (hbefore : 91 ∉ before) (hinner : 93 ∉ inner) :
    bracketed (before ++ 91 :: inner ++ 93 :: after) = if inner = [] then none else some inner := by
  have hcons : (93 : UInt8) ∉ 91 :: inner := by
    rw [List.mem_cons, not_or]
    exact ⟨by decide, hinner⟩
  have hdistance : (91 :: inner ++ 93 :: after).length - (93 :: after).length = inner.length + 1 := by
    rw [List.length_append, List.length_cons]
    omega
  unfold bracketed
  rw [List.append_assoc, List.cons_append, strchr_append hbefore]
  dsimp only
  rw [← List.cons_append, strchr_append hcons]
  dsimp only
  rw [hdistance]
  by_cases hne : inner = []
  · rw [if_pos hne, if_pos (by rw [hne]; simp)]
  · have hpos : 0 < inner.length := List.length_pos_iff.mpr hne
    rw [if_neg hne, if_neg (by omega), List.cons_append, List.drop_one, List.tail_cons, Nat.add_sub_cancel,
      List.take_left]

/-- **The search finds the active text.** -/
theorem bracketed_eq_some : bracketed text = some t ↔ Active text t := by
  constructor
  · intro h
    by_cases hbegin : 91 ∈ text
    · obtain ⟨before, afterBegin, rfl, hbefore⟩ := List.eq_append_cons_of_mem hbegin
      by_cases hstop : 93 ∈ afterBegin
      · obtain ⟨inner, afterStop, rfl, hinner⟩ := List.eq_append_cons_of_mem hstop
        rw [show before ++ 91 :: (inner ++ 93 :: afterStop) = before ++ 91 :: inner ++
          93 :: afterStop by simp] at h ⊢
        rw [bracketed_append hbefore hinner] at h
        split at h
        case isTrue => cases h
        case isFalse hne =>
          cases h
          exact ⟨before, afterStop, rfl, hbefore, hinner, hne⟩
      · have hcons : (93 : UInt8) ∉ 91 :: afterBegin := by
          rw [List.mem_cons, not_or]
          exact ⟨by decide, hstop⟩
        unfold bracketed at h
        rw [strchr_append hbefore] at h
        dsimp only at h
        rw [strchr_eq_none hcons] at h
        cases h
    · unfold bracketed at h
      rw [strchr_eq_none hbegin] at h
      cases h
  · rintro ⟨before, after, rfl, hbefore, ht, hne⟩
    rw [bracketed_append hbefore ht, if_neg hne]

end

/-! ### The two readers -/

section

variable {file : SysfsFile} {t : Bytes} {size : ℕ}

/-- What the reader of `led_control.c` gives. -/
theorem activeTrigger_eq_some (h : file.Readable) :
    activeTrigger (some file) size = some t ↔ Active (triggerText file.content) t ∧ t.length < size := by
  unfold activeTrigger
  rw [sysfsReadText_text h (by omega)]
  rw [← bracketed_eq_some, triggerText]
  dsimp only
  cases hb : bracketed (cString (trimLineEnds (file.content.take 2047))) with
  | none => simp
  | some found =>
    dsimp only
    by_cases hlong : size ≤ found.length
    · rw [if_pos hlong]
      constructor
      · intro ht
        cases ht
      · rintro ⟨ht, hlt⟩
        cases ht
        omega
    · rw [if_neg hlong]
      constructor
      · intro ht
        cases ht
        exact ⟨rfl, not_le.mp hlong⟩
      · exact fun ht => ht.1

/-- What the reader of `hardware_info.c` gives: it cuts a long text. -/
theorem readLedTrigger_eq_some (h : file.Readable) (hsize : 0 < size) :
    readLedTrigger (some file) size = some t ↔ ∃ whole, Active (triggerText file.content) whole ∧
      t = whole.take (size - 1) := by
  unfold readLedTrigger
  rw [sysfsReadText_text h (by omega)]
  simp only [← bracketed_eq_some, triggerText]
  cases hb : bracketed (cString (trimLineEnds (file.content.take 2047))) with
  | none => simp
  | some found =>
    have hcut : (if size ≤ found.length then found.take (size - 1) else found) = found.take (size - 1) := by
      split
      case isTrue => rfl
      case isFalse hshort => exact (List.take_of_length_le (by omega)).symm
    simp only [hcut, Option.some.injEq]
    constructor
    · exact fun ht => ⟨found, rfl, ht.symm⟩
    · rintro ⟨whole, rfl, rfl⟩
      rfl

end

/-! ### The format of the kernel -/

/-- A name that the kernel lists. -/
def IsTriggerName (name : Bytes) : Prop :=
  name ≠ [] ∧ ∀ c ∈ name, isspace c = false ∧ c ≠ 91 ∧ c ≠ 93 ∧ c ≠ 0

/-- The list of triggers, with the active one in brackets. -/
def triggerLine (before : List Bytes) (active : Bytes) (after : List Bytes) : Bytes :=
  List.intercalate [32] (before ++ (91 :: active ++ [93]) :: after)

section

variable {before after : List Bytes} {active : Bytes}

theorem intercalate_space (before : List Bytes) (name : Bytes) (after : List Bytes) :
    List.intercalate [32] (before ++ name :: after) =
      before.flatMap (· ++ [32]) ++ (name ++ after.flatMap ([32] ++ ·)) := by
  induction before generalizing name with
  | nil =>
    induction after generalizing name with
    | nil => simp
    | cons next after ih =>
      have hnext := ih next
      rw [List.nil_append] at hnext ⊢
      rw [List.intercalate_cons_cons, hnext]
      simp
  | cons first before ih =>
    rw [List.cons_append, List.intercalate_cons_of_ne_nil (by simp), ih]
    simp

/-- A byte of the list stands in a name or is a space or a bracket. -/
theorem mem_triggerLine {c : UInt8} (h : c ∈ triggerLine before active after) :
    c = 32 ∨ c = 91 ∨ c = 93 ∨ ∃ name ∈ before ++ active :: after, c ∈ name := by
  unfold triggerLine at h
  rw [intercalate_space] at h
  simp only [List.mem_append, List.mem_flatMap, List.mem_cons, List.not_mem_nil, or_false] at h ⊢
  rcases h with ⟨name, hname, hc | rfl⟩ | ((rfl | hc) | rfl) | ⟨name, hname, rfl | hc⟩
  · exact Or.inr (Or.inr (Or.inr ⟨name, Or.inl hname, hc⟩))
  · exact Or.inl rfl
  · exact Or.inr (Or.inl rfl)
  · exact Or.inr (Or.inr (Or.inr ⟨active, Or.inr (Or.inl rfl), hc⟩))
  · exact Or.inr (Or.inr (Or.inl rfl))
  · exact Or.inl rfl
  · exact Or.inr (Or.inr (Or.inr ⟨name, Or.inr (Or.inr hname), hc⟩))

/-- The list has neither line ends nor a `'\0'`. -/
theorem triggerLine_plain (h : ∀ name ∈ before ++ active :: after, IsTriggerName name) :
    ∀ c ∈ triggerLine before active after, isLineEnd c = false ∧ c ≠ 0 := by
  intro c hc
  rcases mem_triggerLine hc with rfl | rfl | rfl | ⟨name, hname, hmem⟩
  · decide
  · decide
  · decide
  · obtain ⟨hspace, -, -, hzero⟩ := (h name hname).2 c hmem
    refine ⟨?_, hzero⟩
    by_contra hend
    rw [Bool.not_eq_false, isLineEnd, Bool.or_eq_true, beq_iff_eq, beq_iff_eq] at hend
    rcases hend with rfl | rfl
    · exact absurd hspace (by decide)
    · exact absurd hspace (by decide)

/-- The readers see the list as it was written. -/
theorem triggerText_line (h : ∀ name ∈ before ++ active :: after, IsTriggerName name)
    (hlength : (triggerLine before active after).length ≤ 2047) :
    triggerText (triggerLine before active after ++ [10]) = triggerLine before active after := by
  have hplain := triggerLine_plain h
  generalize triggerLine before active after = line at hlength hplain
  have hkeep : line.rdropWhile isLineEnd = line := by
    rcases List.eq_nil_or_concat line with rfl | ⟨start, last, rfl⟩
    · rfl
    · rw [List.concat_eq_append]
      exact List.rdropWhile_concat_neg _ _ _ (by rw [(hplain last (by simp)).1]; decide)
  have htrim : trimLineEnds ((line ++ [10]).take 2047) = line := by
    unfold trimLineEnds
    rcases Nat.lt_or_ge line.length 2047 with hlt | hge
    · rw [List.take_of_length_le (by rw [List.length_append, List.length_singleton]; omega),
        List.rdropWhile_concat_pos _ _ _ (by decide), hkeep]
    · rw [List.take_append_of_le_length hge, List.take_of_length_le hlength, hkeep]
  unfold triggerText
  rw [htrim]
  exact cString_eq_self fun h0 => (hplain 0 h0).2 rfl

/-- The active name is the active text of the list. -/
theorem active_triggerLine (h : ∀ name ∈ before ++ active :: after, IsTriggerName name) :
    Active (triggerLine before active after) active := by
  refine ⟨before.flatMap (· ++ [32]), after.flatMap ([32] ++ ·), ?_, ?_, ?_, (h active (by simp)).1⟩
  · unfold triggerLine
    rw [intercalate_space]
    simp
  · intro hmem
    obtain ⟨name, hname, hc⟩ := List.mem_flatMap.mp hmem
    rcases List.mem_append.mp hc with hc | hc
    · exact ((h name (List.mem_append_left _ hname)).2 91 hc).2.1 rfl
    · exact absurd (List.mem_singleton.mp hc) (by decide)
  · exact fun hmem => ((h active (by simp)).2 93 hmem).2.2.1 rfl

end

/-! ### Names and paths -/

/-- A single component of a path, other than the directory itself and its parent. -/
def LedName (name : Bytes) : Prop :=
  name ≠ [] ∧ name ≠ [46] ∧ name ≠ [46, 46] ∧ ∀ c ∈ name, c ≠ 47 ∧ isControl c = false

/-- `/sys/class/leds/<name>/<attribute>`. -/
def ledPath (name attr : Bytes) : Bytes := ledSysfsBase ++ 47 :: name ++ 47 :: attr

section

variable {name attr : Bytes} {size : ℕ}

theorem zero_control : isControl 0 = true := by decide

theorem ledNameValid_iff : ledNameValid name = true ↔ LedName name := by
  unfold ledNameValid LedName
  simp only [Bool.and_eq_true, decide_eq_true_eq, List.all_eq_true, Bool.not_eq_true', Bool.or_eq_false_iff,
    beq_eq_false_iff_ne, and_assoc, ne_eq, strcmp_eq_zero]
  have hstring (h : ∀ c ∈ name, ¬ c = 47 ∧ isControl c = false) : cString name = name :=
    cString_eq_self fun h0 => absurd (h 0 h0).2 (by rw [zero_control]; decide)
  constructor
  · rintro ⟨hne, hdot, hdots, hall⟩
    rw [hstring hall] at hdot hdots
    exact ⟨hne, hdot, hdots, hall⟩
  · rintro ⟨hne, hdot, hdots, hall⟩
    rw [hstring hall]
    exact ⟨hne, hdot, hdots, hall⟩

/-- **A path is built when the name is one and the whole path has room.** -/
theorem ledBuildPath_eq_some {path : Bytes} (hattr : attr ≠ []) :
    ledBuildPath size name attr = some path ↔ LedName name ∧ (ledPath name attr).length < size ∧
      path = ledPath name attr := by
  unfold ledBuildPath
  rw [show ledSysfsBase ++ 47 :: name ++ 47 :: attr = ledPath name attr from rfl]
  by_cases hname : LedName name
  · by_cases hlong : size ≤ (ledPath name attr).length
    · simp [hlong, not_lt.mpr hlong]
    · have hsize : size ≠ 0 := by omega
      rw [if_neg (by simp [hsize, hattr, ledNameValid_iff.mpr hname]), if_neg hlong]
      constructor
      · intro h
        cases h
        exact ⟨hname, not_le.mp hlong, rfl⟩
      · rintro ⟨-, -, rfl⟩
        rfl
  · have hfalse : ¬ ledNameValid name = true := fun h => hname (ledNameValid_iff.mp h)
    rw [if_pos (Or.inr (Or.inl hfalse))]
    constructor
    · intro h
      cases h
    · exact fun h => absurd h.1 hname

/-- What `led_read_active_trigger` returns and opens. -/
theorem ledReadActiveTrigger_eq {files : LedFiles} {log : List LedOp} (hname : LedName name)
    (hroom : (ledPath name attrTrigger).length < ledPathSize) (hsize : size ≠ 0) :
    ledReadActiveTrigger files name size log =
      .done (activeTrigger (files.readable log (ledPath name attrTrigger)) size)
        (log ++ [.read (ledPath name attrTrigger) (files.readable log (ledPath name attrTrigger))]) := by
  unfold ledReadActiveTrigger
  rw [if_neg hsize, (ledBuildPath_eq_some (by decide)).mpr ⟨hname, hroom, rfl⟩]
  rfl

end

/-- **The two readers of the active trigger agree, and read what the kernel writes.**  The reader of
`led_control.c` succeeds when that of `hardware_info.c` does and its text has not been cut; then the two texts are
the same.  Of a list of triggers both give the active one. -/
theorem trigger_readers_agree (files : LedFiles) (log : List LedOp) (name : Bytes) (hname : LedName name)
    (hroom : (ledPath name attrTrigger).length < ledPathSize) (file file' : SysfsFile)
    (hfile : files.readable log (ledPath name attrTrigger) = some file) (hread : file.Readable)
    (hread' : file'.Readable) (hcontent : file'.content = file.content) :
    ∃ control, ledReadActiveTrigger files name 64 log =
        .done control (log ++ [.read (ledPath name attrTrigger) (some file)]) ∧
      (∀ t, control = some t ↔
        readLedTrigger (some file') 64 = some t ∧ t.length < 64 ∧ Active (triggerText file.content) t) ∧
      (control ≠ none → control = readLedTrigger (some file') 64) ∧
      ∀ before active after, (∀ trigger ∈ before ++ active :: after, IsTriggerName trigger) →
        active.length ≤ 63 →
        (triggerLine before active after).length ≤ 2047 →
        file.content = triggerLine before active after ++ [10] →
        control = some active ∧ readLedTrigger (some file') 64 = some active := by
  have hcontrol : ∀ t, activeTrigger (some file) 64 = some t ↔ Active (triggerText file.content) t ∧
      t.length < 64 :=
    fun t => activeTrigger_eq_some hread
  have hhardware : ∀ t, Active (triggerText file.content) t → t.length < 64 →
      readLedTrigger (some file') 64 = some t := by
    intro t ht hlt
    refine (readLedTrigger_eq_some hread' (by omega)).mpr ⟨t, ?_, ?_⟩
    · rwa [hcontent]
    · exact (List.take_of_length_le (by omega)).symm
  refine ⟨activeTrigger (some file) 64, ?_, fun t => ?_, fun hne => ?_,
    fun before active after hnames hshort hlength hline => ?_⟩
  · rw [ledReadActiveTrigger_eq hname hroom (by decide), hfile]
  · rw [hcontrol]
    constructor
    · rintro ⟨hactive, hlt⟩
      exact ⟨hhardware t hactive hlt, hlt, hactive⟩
    · rintro ⟨-, hlt, hactive⟩
      exact ⟨hactive, hlt⟩
  · obtain ⟨t, ht⟩ := Option.ne_none_iff_exists'.mp hne
    obtain ⟨hactive, hlt⟩ := (hcontrol t).mp ht
    rw [ht, hhardware t hactive hlt]
  · have hactive : Active (triggerText file.content) active := by
      rw [hline, triggerText_line hnames hlength]
      exact active_triggerLine hnames
    exact ⟨(hcontrol active).mpr ⟨hactive, by omega⟩, hhardware active hactive (by omega)⟩

/-- `none [cpu] mmc`. -/
def cpuLine : Bytes := triggerLine [triggerNone] [99, 112, 117] [[109, 109, 99]]

/-- A LED whose trigger is read in pieces. -/
def cpuFiles : LedFiles :=
  ⟨fun _ _ => some ⟨cpuLine ++ [10], [.bytes 3, .interrupted], true⟩, fun _ _ => none⟩

/-- One reader reads it in pieces, the other at once. -/
theorem cpu_readers_agree :
    (∃ log, ledReadActiveTrigger cpuFiles [108] 64 [] = .done (some [99, 112, 117]) log) ∧
    readLedTrigger (some ⟨cpuLine ++ [10], [], true⟩) 64 = some [99, 112, 117] := by
  obtain ⟨control, hrun, -, -, hkernel⟩ := trigger_readers_agree cpuFiles [] [108]
    ⟨by decide, by decide, by decide, by decide +kernel⟩ (by decide)
      ⟨cpuLine ++ [10], [.bytes 3, .interrupted], true⟩
    ⟨cpuLine ++ [10], [], true⟩ rfl ⟨by decide, rfl⟩ ⟨by decide, rfl⟩ rfl
  have hnames : ∀ trigger ∈ [triggerNone] ++ [99, 112, 117] :: [[109, 109, 99]], IsTriggerName trigger := by
    intro trigger htrigger
    simp only [List.cons_append, List.nil_append, List.mem_cons, List.not_mem_nil, or_false] at htrigger
    rcases htrigger with rfl | rfl | rfl
    · exact ⟨by decide, by decide +kernel⟩
    · exact ⟨by decide, by decide +kernel⟩
    · exact ⟨by decide, by decide +kernel⟩
  obtain ⟨hcontrol, hhardware⟩ :=
    hkernel [triggerNone] [99, 112, 117] [[109, 109, 99]] hnames (by decide) (by decide) rfl
  exact ⟨⟨_, hcontrol ▸ hrun⟩, hhardware⟩

end MiniShell
