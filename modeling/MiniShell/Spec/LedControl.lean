import MiniShell.Lib.Trace
import MiniShell.Spec.Led

/-!
# What the LED commands open and write

* `LedAllowed request name log op` — after the operations in `log` the call may open the file of `op`;
* `Careful` — every operation of a log was allowed where it stands, by the monitor of the request;
* `ledWriteTrigger_wp`, `ledWriteBrightness_wp` — each step keeps this, and says what it has read back;
* **`led_control_careful`** — every call is careful, and opens nothing for a name or a trigger that is not one.
-/

namespace MiniShell

open MiniShell.Lib MiniShellError Prog

/-- The three functions of `led_control.h`. -/
inductive LedRequest where
  | on | off
  | trigger (text : Bytes)
  deriving DecidableEq

def LedRequest.run (files : LedFiles) (name : Bytes) : LedRequest → Led Int
  | on => ledControlSetOn files name
  | off => ledControlSetOff files name
  | trigger text => ledControlSetTrigger files name text

/-- What the request writes to the trigger. -/
def LedRequest.text : LedRequest → Bytes
  | on => triggerNone
  | off => triggerNone
  | trigger text => text

/-- The attributes the request needs, in the order in which it opens them. -/
def LedRequest.attributes : LedRequest → List Bytes
  | on => [attrMaxBrightness, attrTrigger, attrBrightness]
  | off => [attrTrigger, attrBrightness]
  | trigger _ => [attrTrigger]

/-- A text that may be written to the trigger. -/
def TriggerText (text : Bytes) : Prop :=
  text ≠ [] ∧ ∀ c ∈ text, c ≠ 47 ∧ isspace c = false ∧ isControl c = false

/-- The last operation has read the trigger, and this is the active one. -/
def ReadBack (name : Bytes) (log : List LedOp) (text : Bytes) : Prop :=
  ∃ pre file seen, log = pre ++ [.read (ledPath name attrTrigger) file] ∧
    sysfsReadText file 2048 = some seen ∧
    Active (cString seen) text

/-- The maximum brightness was read, and is positive. -/
def MaxRead (name : Bytes) (log : List LedOp) (value : Int) : Prop :=
  ∃ file, .read (ledPath name attrMaxBrightness) file ∈ log ∧ sysfsReadLong file 0 = (0, value) ∧ 0 < value

/-- What the request may write to the brightness. -/
def LedRequest.Brightness (name : Bytes) (log : List LedOp) (text : Bytes) : LedRequest → Prop
  | on => ∃ value, MaxRead name log value ∧ text = decimal value
  | off => text = [48]
  | trigger _ => False

/-- The file at the path is a complete one of the LED's own attributes. -/
def LedFile (name path : Bytes) : Prop :=
  LedName name ∧ path.length < ledPathSize ∧
    ∃ attr ∈ [attrTrigger, attrBrightness, attrMaxBrightness], path = ledPath name attr

/-- What may be opened after the operations in the log. -/
def LedAllowed (request : LedRequest) (name : Bytes) (log : List LedOp) : LedOp → Prop
  | .read path _ => LedFile name path
  | .write path text _ => LedFile name path ∧
      (path = ledPath name attrTrigger ∧ text = request.text ∧ TriggerText text ∨
        path = ledPath name attrBrightness ∧ ReadBack name log triggerNone ∧ request.Brightness name log text)

/-- The monitor of a request: its state is the log. -/
def ledMonitor (request : LedRequest) (name : Bytes) : Monitor (List LedOp) LedOp :=
  ⟨fun log op => log ++ [op], LedAllowed request name⟩

/-- Every operation was allowed where it stands. -/
def Careful (request : LedRequest) (name : Bytes) (log : List LedOp) : Prop :=
  (ledMonitor request name).Allows [] log

section

variable {files : LedFiles} {request : LedRequest} {name path text : Bytes} {log log' : List LedOp}
  {op : LedOp} {value : Int}

theorem ledMonitor_after (log tr : List LedOp) : (ledMonitor request name).after log tr = log ++ tr := by
  induction tr generalizing log with
  | nil => simp [Monitor.after]
  | cons op tr ih =>
    have h := ih (log ++ [op])
    rw [List.append_assoc] at h
    exact h

theorem careful_nil : Careful request name [] := trivial

theorem careful_snoc : Careful request name (log ++ [op]) ↔ Careful request name log ∧
    LedAllowed request name log op := by
  unfold Careful
  rw [Monitor.allows_snoc, ledMonitor_after]
  rfl

theorem MaxRead.mono (h : MaxRead name log value) (hlog : log <+: log') : MaxRead name log' value := by
  obtain ⟨file, hmem, hread⟩ := h
  exact ⟨file, hlog.subset hmem, hread⟩

theorem triggerNone_text : TriggerText triggerNone := ⟨by decide, by decide +kernel⟩

theorem ledTriggerValid_iff : ledTriggerValid text = true ↔ TriggerText text := by
  unfold ledTriggerValid TriggerText
  simp only [Bool.and_eq_true, decide_eq_true_eq, List.all_eq_true, Bool.not_eq_true', Bool.or_eq_false_iff,
    beq_eq_false_iff_ne, and_assoc]

/-- The path that was built is one of the LED's. -/
theorem ledBuildPath_file {attr : Bytes} (hattr : attr ∈ [attrTrigger, attrBrightness, attrMaxBrightness])
    (h : ledBuildPath ledPathSize name attr = some path) : LedFile name path ∧ path = ledPath name attr := by
  have hne : attr ≠ [] := by
    rintro rfl
    exact absurd hattr (by decide)
  obtain ⟨hname, hroom, rfl⟩ := (ledBuildPath_eq_some hne).mp h
  exact ⟨⟨hname, hroom, attr, hattr, rfl⟩, rfl⟩

/-! ### The steps -/

theorem openRead_wp {R : List LedOp → Prop} (h : Careful request name log) (hpath : LedFile name path) :
    wp (openRead files path) (fun file log' => log' = log ++ [.read path file] ∧
        Careful request name log') R log :=
  ⟨rfl, careful_snoc.mpr ⟨h, hpath⟩⟩

theorem openWrite_wp {R : List LedOp → Prop} (h : Careful request name log)
    (hallowed : ∀ file, LedAllowed request name log (.write path text file)) :
    wp (openWrite files path text) (fun file log' => log' = log ++ [.write path text file] ∧
        Careful request name log') R log :=
  ⟨rfl, careful_snoc.mpr ⟨h, hallowed _⟩⟩

/-- **The trigger that is reported was read just now.** -/
theorem ledReadActiveTrigger_wp {R : List LedOp → Prop} {size : ℕ} (h : Careful request name log) :
    wp (ledReadActiveTrigger files name size)
      (fun r log' => Careful request name log' ∧ log <+: log' ∧ ∀ t, r = some t →
        ReadBack name log' t) R log := by
  unfold ledReadActiveTrigger
  split
  case isTrue => exact ⟨h, List.prefix_rfl, fun t ht => by cases ht⟩
  case isFalse =>
    split
    case h_1 => exact ⟨h, List.prefix_rfl, fun t ht => by cases ht⟩
    case h_2 path hpath =>
      obtain ⟨hfile, rfl⟩ := ledBuildPath_file (by decide) hpath
      rw [wp_bind]
      refine wp_mono (openRead_wp h hfile) ?_ fun _ h => h
      rintro file _ ⟨rfl, hcareful⟩
      refine ⟨hcareful, List.prefix_append _ _, fun t ht => ?_⟩
      unfold activeTrigger at ht
      split at ht
      case h_1 => cases ht
      case h_2 seen hseen =>
        split at ht
        case h_1 => cases ht
        case h_2 found hfound =>
          split at ht
          case isTrue => cases ht
          case isFalse =>
            cases ht
            exact ⟨log, file, seen, rfl, hseen, bracketed_eq_some.mp hfound⟩

/-- **A trigger that is written is the request's, and it is read back when 0 is returned.** -/
theorem ledWriteTrigger_wp {R : List LedOp → Prop} (h : Careful request name log)
    (htext : TriggerText request.text) :
    wp (ledWriteTrigger files name request.text)
      (fun r log' => Careful request name log' ∧ log <+: log' ∧
        (0 ≤ r → ReadBack name log' request.text)) R log := by
  unfold ledWriteTrigger
  split
  case h_1 => exact ⟨h, List.prefix_rfl, fun hr => absurd hr (by decide)⟩
  case h_2 path hpath =>
    obtain ⟨hfile, rfl⟩ := ledBuildPath_file (by decide) hpath
    rw [wp_bind]
    refine wp_mono (openWrite_wp h fun file => ⟨hfile, Or.inl ⟨rfl, rfl, htext⟩⟩) ?_ fun _ h => h
    rintro file written ⟨rfl, hcareful⟩
    split
    case isTrue => exact ⟨hcareful, List.prefix_append _ _, fun hr => absurd hr (by decide)⟩
    case isFalse =>
      rw [wp_bind]
      refine wp_mono (ledReadActiveTrigger_wp hcareful) ?_ fun _ h => h
      rintro r log' ⟨hcareful', hlog, hback⟩
      have hgoesOn : log <+: log' := (List.prefix_append _ _).trans hlog
      cases r with
      | none => exact ⟨hcareful', hgoesOn, fun hr => absurd hr (by decide)⟩
      | some actual =>
        dsimp only
        split
        case isTrue => exact ⟨hcareful', hgoesOn, fun hr => absurd hr (by decide)⟩
        case isFalse heq =>
          refine ⟨hcareful', hgoesOn, fun _ => ?_⟩
          obtain ⟨pre, file, seen, hpre, hseen, hactive⟩ := hback actual rfl
          have hactual : cString actual = actual := by
            obtain ⟨before, after, hsplit, -, -, -⟩ := hactive
            refine cString_eq_self fun h0 => zero_notMem_cString seen ?_
            rw [hsplit]
            exact List.mem_append_left _ (List.mem_append_right _ (List.mem_cons_of_mem _ h0))
          have hrequest : cString request.text = request.text :=
            cString_eq_self fun h0 => absurd (htext.2 0 h0).2.2 (by rw [zero_control]; decide)
          have hsame : actual = request.text := by
            rw [← hactual, ← hrequest]
            exact (strcmp_eq_zero _ _).mp (not_ne_iff.mp heq)
          rw [hsame] at hactive
          exact ⟨pre, file, seen, hpre, hseen, hactive⟩

theorem sysfsReadLong_returns (file : Option SysfsFile) (value : Int) :
    (sysfsReadLong file value).1 = 0 ∨ (sysfsReadLong file value).1 = -1 := by
  unfold sysfsReadLong
  split
  case h_1 => exact Or.inr rfl
  case h_2 =>
    dsimp only
    split
    case isTrue => exact Or.inr rfl
    case isFalse => exact Or.inl rfl

/-- The value that is returned was read, and is positive. -/
theorem ledReadMaxBrightness_wp {R : List LedOp → Prop} (h : Careful request name log) :
    wp (ledReadMaxBrightness files name)
      (fun r log' => Careful request name log' ∧ ∀ value, r = some value →
        MaxRead name log' value) R log := by
  unfold ledReadMaxBrightness
  split
  case h_1 => exact ⟨h, fun value hv => by cases hv⟩
  case h_2 path hpath =>
    obtain ⟨hfile, rfl⟩ := ledBuildPath_file (by decide) hpath
    rw [wp_bind]
    refine wp_mono (openRead_wp h hfile) ?_ fun _ h => h
    rintro file _ ⟨rfl, hcareful⟩
    dsimp only
    split
    case isTrue => exact ⟨hcareful, fun value hv => by cases hv⟩
    case isFalse hret =>
      split
      case isTrue => exact ⟨hcareful, fun value hv => by cases hv⟩
      case isFalse hpos =>
        refine ⟨hcareful, fun value hv => ?_⟩
        cases hv
        refine ⟨file, by simp, Prod.ext ?_ rfl, not_le.mp hpos⟩
        rcases sysfsReadLong_returns file 0 with hzero | hfail
        · exact hzero
        · exact absurd (hfail ▸ hret) (by decide)

/-- **The brightness is written only when it is allowed**, and its path has room when 0 is returned. -/
theorem ledWriteBrightness_wp {R : List LedOp → Prop} (h : Careful request name log)
    (hback : ReadBack name log triggerNone) (hvalue : request.Brightness name log (decimal value)) :
    wp (ledWriteBrightness files name value)
      (fun r log' => Careful request name log' ∧
        (0 ≤ r → LedFile name (ledPath name attrBrightness))) R log := by
  unfold ledWriteBrightness
  split
  case h_1 => exact ⟨h, fun hr => absurd hr (by decide)⟩
  case h_2 path hpath =>
    obtain ⟨hfile, rfl⟩ := ledBuildPath_file (by decide) hpath
    dsimp only
    split
    case isTrue => exact ⟨h, fun hr => absurd hr (by decide)⟩
    case isFalse =>
      rw [wp_bind]
      refine wp_mono (openWrite_wp h fun file => ⟨hfile, Or.inr ⟨rfl, hback, hvalue⟩⟩) ?_ fun _ h => h
      rintro file written ⟨rfl, hcareful⟩
      split
      case isTrue => exact ⟨hcareful, fun hr => absurd hr (by decide)⟩
      case isFalse =>
        rw [wp_bind]
        refine wp_mono (openRead_wp hcareful hfile) ?_ fun _ h => h
        rintro found _ ⟨rfl, hcareful'⟩
        split
        case isTrue => exact ⟨hcareful', fun hr => absurd hr (by decide)⟩
        case isFalse =>
          split
          case isTrue => exact ⟨hcareful', fun hr => absurd hr (by decide)⟩
          case isFalse => exact ⟨hcareful', fun _ => hfile⟩

/-! ### The requests -/

/-- What a call leaves: its log, and that a successful one had room for every path. -/
def LedDone (request : LedRequest) (name : Bytes) (ret : Int) (log : List LedOp) : Prop :=
  Careful request name log ∧ (ret = errUnknown ∨ ret = ok ∧
    ∀ attr ∈ request.attributes, LedFile name (ledPath name attr))

theorem LedDone.failed (h : Careful request name log) : LedDone request name errUnknown log := ⟨h, Or.inl rfl⟩

theorem ReadBack.file (h : ReadBack name log text) (hcareful : Careful request name log) :
    LedFile name (ledPath name attrTrigger) := by
  obtain ⟨pre, file, seen, rfl, -, -⟩ := h
  exact (careful_snoc.mp hcareful).2

theorem Careful.mem (h : Careful request name log) (hop : op ∈ log) :
    ∃ before, LedAllowed request name before op := by
  induction log using List.reverseRecOn with
  | nil => cases hop
  | append_singleton log last ih =>
    obtain ⟨hlog, hlast⟩ := careful_snoc.mp h
    rcases List.mem_append.mp hop with hop | hop
    · exact ih hlog hop
    · exact ⟨log, List.mem_singleton.mp hop ▸ hlast⟩

theorem MaxRead.file (h : MaxRead name log value) (hcareful : Careful request name log) :
    LedFile name (ledPath name attrMaxBrightness) := by
  obtain ⟨file, hmem, -⟩ := h
  obtain ⟨before, hallowed⟩ := hcareful.mem hmem
  exact hallowed

theorem ledControlSetOn_wp : wp (ledControlSetOn files name) (LedDone .on name) (fun _ => False) [] := by
  unfold ledControlSetOn
  split
  case isTrue => exact LedDone.failed careful_nil
  case isFalse =>
    have hstart : Careful .on name [] := careful_nil
    rw [wp_bind]
    refine wp_mono (ledReadMaxBrightness_wp hstart) ?_ fun _ h => h
    rintro r log ⟨hcareful, hmax⟩
    cases r with
    | none => exact LedDone.failed hcareful
    | some maxBrightness =>
      dsimp only
      rw [wp_bind, show triggerNone = LedRequest.on.text from rfl]
      refine wp_mono (ledWriteTrigger_wp hcareful triggerNone_text) ?_ fun _ h => h
      rintro r log' ⟨hcareful', hgoesOn, hback⟩
      split
      case isTrue => exact LedDone.failed hcareful'
      case isFalse hr =>
        have hmax' : MaxRead name log' maxBrightness := (hmax _ rfl).mono hgoesOn
        have hready := hback (not_lt.mp hr)
        rw [wp_bind]
        refine wp_mono (ledWriteBrightness_wp hcareful' hready ⟨_, hmax', rfl⟩) ?_ fun _ h => h
        rintro r log'' ⟨hcareful'', hfile⟩
        split
        case isTrue => exact LedDone.failed hcareful''
        case isFalse hr' =>
          refine ⟨hcareful'', Or.inr ⟨rfl, fun attr hattr => ?_⟩⟩
          simp only [LedRequest.attributes, List.mem_cons, List.not_mem_nil, or_false] at hattr
          rcases hattr with rfl | rfl | rfl
          · exact hmax'.file hcareful'
          · exact hready.file hcareful'
          · exact hfile (not_lt.mp hr')

theorem ledControlSetOff_wp : wp (ledControlSetOff files name) (LedDone .off name) (fun _ => False) [] := by
  unfold ledControlSetOff
  split
  case isTrue => exact LedDone.failed careful_nil
  case isFalse =>
    have hstart : Careful .off name [] := careful_nil
    rw [wp_bind, show triggerNone = LedRequest.off.text from rfl]
    refine wp_mono (ledWriteTrigger_wp hstart triggerNone_text) ?_ fun _ h => h
    rintro r log ⟨hcareful, -, hback⟩
    split
    case isTrue => exact LedDone.failed hcareful
    case isFalse hr =>
      have hready := hback (not_lt.mp hr)
      have hzero : decimal 0 = [48] := by decide
      rw [wp_bind]
      refine wp_mono (ledWriteBrightness_wp hcareful hready hzero) ?_ fun _ h => h
      rintro r log' ⟨hcareful', hfile⟩
      split
      case isTrue => exact LedDone.failed hcareful'
      case isFalse hr' =>
        refine ⟨hcareful', Or.inr ⟨rfl, fun attr hattr => ?_⟩⟩
        simp only [LedRequest.attributes, List.mem_cons, List.not_mem_nil, or_false] at hattr
        rcases hattr with rfl | rfl
        · exact hready.file hcareful
        · exact hfile (not_lt.mp hr')

theorem ledControlSetTrigger_wp :
    wp (ledControlSetTrigger files name text) (LedDone (.trigger text) name) (fun _ => False) [] := by
  unfold ledControlSetTrigger
  split
  case isTrue => exact LedDone.failed careful_nil
  case isFalse hvalid =>
    have htext : TriggerText text := ledTriggerValid_iff.mp (not_not.mp fun h => hvalid (Or.inr h))
    have hstart : Careful (.trigger text) name [] := careful_nil
    rw [wp_bind, show text = (LedRequest.trigger text).text from rfl]
    refine wp_mono (ledWriteTrigger_wp hstart htext) ?_ fun _ h => h
    rintro r log ⟨hcareful, -, hback⟩
    split
    case isTrue => exact LedDone.failed hcareful
    case isFalse hr =>
      refine ⟨hcareful, Or.inr ⟨rfl, fun attr hattr => ?_⟩⟩
      rw [LedRequest.attributes, List.mem_singleton] at hattr
      rw [hattr]
      exact (hback (not_lt.mp hr)).file hcareful

/-- A call for a name, or with a trigger, that is not one. -/
theorem ledControl_refuses (h : ¬ (LedName name ∧ TriggerText request.text)) :
    request.run files name = pure errUnknown := by
  have hname : ¬ LedName name → ¬ ledNameValid name = true := fun h h' => h (ledNameValid_iff.mp h')
  cases request with
  | on => exact if_pos (hname fun h' => h ⟨h', triggerNone_text⟩)
  | off => exact if_pos (hname fun h' => h ⟨h', triggerNone_text⟩)
  | trigger text =>
    refine if_pos ?_
    by_cases h' : LedName name
    · exact Or.inr fun htext => h ⟨h', ledTriggerValid_iff.mp htext⟩
    · exact Or.inl (hname h')

end

/-- **A call never leaves the LED's own directory.**  It returns; every file that it opens is a complete path to
one of the attributes of the LED, and what it writes was allowed at that point: to the trigger a text without white
space, `'/'` and control characters, and to the brightness the value of the request, right after the trigger was
read back as `none`.  For a name or a trigger that is not one nothing is opened and an error is returned, and so is
when a path is too long. -/
theorem led_control_careful (files : LedFiles) (request : LedRequest) (name : Bytes) :
    ∃ ret log, request.run files name [] = .done ret log ∧ Careful request name log ∧
      (ret = ok ∨ ret = errUnknown) ∧
      (¬ (LedName name ∧ TriggerText request.text) → log = [] ∧ ret = errUnknown) ∧
      ∀ attr ∈ request.attributes, ledPathSize ≤ (ledPath name attr).length → ret = errUnknown := by
  have hrun : wp (request.run files name) (LedDone request name) (fun _ => False) [] := by
    cases request with
    | on => exact ledControlSetOn_wp
    | off => exact ledControlSetOff_wp
    | trigger text => exact ledControlSetTrigger_wp
  obtain ⟨ret, log, hdone, hcareful, hret⟩ := wp_total.mp hrun
  refine ⟨ret, log, hdone, hcareful, ?_, fun hbad => ?_, fun attr hattr hlong => ?_⟩
  · rcases hret with hret | ⟨hret, -⟩
    · exact Or.inr hret
    · exact Or.inl hret
  · have hpure : Outcome.done errUnknown [] = .done ret log := by
      rw [← hdone, ledControl_refuses hbad]
      rfl
    cases hpure
    exact ⟨rfl, rfl⟩
  · rcases hret with hret | ⟨-, hfiles⟩
    · exact hret
    · exact absurd (hfiles attr hattr).2.1 (not_lt.mpr hlong)

/-- An LED with a maximum of 255 that has just been given the trigger `none`. -/
def lampFiles : LedFiles :=
  { readable := fun _ path =>
      if path = ledPath [108] attrTrigger then some
        ⟨triggerLine [] triggerNone [[99, 112, 117]] ++ [10], [], true⟩
      else some ⟨[50, 53, 53, 10], [], true⟩
    writable := fun _ _ => some ⟨[], true⟩ }

/-- It is turned on in five operations, and the directory above is left alone. -/
theorem lamp_careful : (∃ log, LedRequest.on.run lampFiles [108] [] = .done ok log ∧ log.length = 5 ∧
      Careful .on [108] log) ∧
    LedRequest.on.run lampFiles [46, 46] [] = .done errUnknown [] := by
  obtain ⟨ret, log, hrun, hcareful, -, -, -⟩ := led_control_careful lampFiles .on [108]
  obtain ⟨ret', log', hrun', -, -, hrefuses, -⟩ := led_control_careful lampFiles .on [46, 46]
  have hlog : (match LedRequest.on.run lampFiles [108] [] with
      | .done ret log => decide (ret = ok ∧ log.length = 5)
      | .blocked _ => false) = true := by decide +kernel
  rw [hrun] at hlog
  obtain ⟨rfl, hlength⟩ := of_decide_eq_true hlog
  obtain ⟨rfl, rfl⟩ := hrefuses fun h => h.1.2.2.1 rfl
  exact ⟨⟨log, hrun, hlength, hcareful⟩, hrun'⟩

end MiniShell
