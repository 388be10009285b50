import Mathlib.Data.List.TakeWhile
import MiniShell.Model.DeviceTree

/-!
# The compatible list of the device tree

* `items content` — the non-empty pieces between the `'\0'`s;
* `compatibleLoop_eq` — what the loop stores from an offset on;
* **`compatible_split`** — the first eight items are stored, each cut to its buffer, and a list that fits is read
  back;
* `deviceTreeCollect_stores` — what `device_tree_collect` stores of all properties.
-/

namespace MiniShell

open MiniShell.Lib

/-! ### Items -/

/-- The non-empty pieces between the `'\0'`s. -/
def items (content : Bytes) : List Bytes := (content.splitOn 0).filter (· ≠ [])

/-- The piece as a list of items. -/
def itemOf (item : Bytes) : List Bytes := if item = [] then [] else [item]

theorem items_cons {item : Bytes} (h : 0 ∉ item) (rest : Bytes) :
    items (item ++ 0 :: rest) = itemOf item ++ items rest := by
  unfold items itemOf
  rw [List.splitOn_append_cons_self_of_not_mem h]
  by_cases hne : item = []
  · rw [if_pos hne, List.filter_cons_of_neg (by simpa using hne), List.nil_append]
  · rw [if_neg hne, List.filter_cons_of_pos (by simpa using hne), List.singleton_append]

theorem items_last {item : Bytes} (h : 0 ∉ item) : items item = itemOf item := by
  unfold items itemOf
  rw [List.splitOn_eq_singleton h]
  by_cases hne : item = []
  · rw [if_pos hne, List.filter_cons_of_neg (by simpa using hne), List.filter_nil]
  · rw [if_neg hne, List.filter_cons_of_pos (by simpa using hne), List.filter_nil]

theorem items_append_nul (a b : Bytes) : items (a ++ 0 :: b) = items a ++ items b := by
  unfold items
  rw [List.splitOn_append_cons_self, List.filter_append]

theorem items_nil : items [] = [] := rfl

/-- What a list of strings is written as. -/
def nulTerminated (strings : List Bytes) : Bytes := strings.flatMap (· ++ [0])

theorem items_nulTerminated {strings : List Bytes} (h : ∀ s ∈ strings, s ≠ [] ∧ 0 ∉ s) :
    items (nulTerminated strings) = strings := by
  induction strings with
  | nil => rfl
  | cons s strings ih =>
    obtain ⟨hne, hnul⟩ := h s List.mem_cons_self
    have hsplit : nulTerminated (s :: strings) = s ++ 0 :: nulTerminated strings := by
      simp [nulTerminated]
    rw [hsplit, items_cons hnul, ih fun t ht => h t (List.mem_cons_of_mem _ ht)]
    unfold itemOf
    rw [if_neg hne, List.singleton_append]

/-! ### The loop -/

/-- The bytes are an item and what is left behind the `'\0'` after it. -/
def Cuts (rest item left : Bytes) : Prop :=
  0 ∉ item ∧ (rest = item ++ 0 :: left ∨ rest = item ∧ item ≠ [] ∧ left = [])

theorem exists_cuts {rest : Bytes} (hne : rest ≠ []) : ∃ item left, Cuts rest item left := by
  by_cases h : 0 ∈ rest
  · obtain ⟨item, left, hsplit, hitem⟩ := List.eq_append_cons_of_mem h
    exact ⟨item, left, hitem, Or.inl hsplit⟩
  · exact ⟨rest, [], h, Or.inr ⟨rfl, hne, rfl⟩⟩

theorem Cuts.items {rest item left : Bytes} (h : Cuts rest item left) : items rest = itemOf item ++ items left := by
  obtain ⟨hitem, rfl | ⟨rfl, -, rfl⟩⟩ := h
  · exact items_cons hitem left
  · rw [items_last hitem, items_nil, List.append_nil]

section Loop

variable {size : ℕ} {buffer item left : Bytes} {offset : ℕ} {compatible : List Bytes}

/-- **One round of the loop.** -/
theorem compatibleLoop_item (hcuts : Cuts (buffer.drop offset) item left)
    (hroom : compatible.length < DEVICE_TREE_MAX_COMPATIBLE) :
    ∃ next, offset < next ∧ buffer.drop next = left ∧
      compatibleLoop size buffer offset compatible =
        compatibleLoop size buffer next (compatible ++ (itemOf item).map (·.take (size - 1))) := by
  obtain ⟨hitem, hrest⟩ := hcuts
  have hlength : (buffer.drop offset).length = buffer.length - offset := List.length_drop
  have hoffset : offset < buffer.length := by
    have hpos : 0 < (buffer.drop offset).length := by
      rcases hrest with h | ⟨h, hne, -⟩
      · rw [h, List.length_append, List.length_cons]
        omega
      · rw [h]
        exact List.length_pos_iff.mpr hne
    omega
  have hplain : ∀ c ∈ item, (decide (c ≠ 0)) = true := by
    intro c hc
    rw [decide_eq_true_eq]
    rintro rfl
    exact hitem hc
  have htake : (buffer.drop offset).takeWhile (· ≠ 0) = item := by
    rcases hrest with h | ⟨h, -, -⟩
    · rw [h, List.takeWhile_append_of_pos hplain]
      simp
    · rw [h]
      exact List.takeWhile_eq_self_iff.mpr hplain
  have hstored : (buffer.drop offset).take (min item.length (size - 1)) = item.take (size - 1) := by
    have hstart : ∃ tail, buffer.drop offset = item ++ tail := by
      rcases hrest with h | ⟨h, -, -⟩
      · exact ⟨_, h⟩
      · exact ⟨[], by rw [h, List.append_nil]⟩
    obtain ⟨tail, htail⟩ := hstart
    rw [htail, List.take_append_of_le_length (Nat.min_le_left _ _), List.take_eq_take_iff]
    omega
  have hcompatible : (if 0 < item.length then compatible ++ [(buffer.drop offset).take (min item.length (size - 1))]
      else compatible) = compatible ++ (itemOf item).map (·.take (size - 1)) := by
    unfold itemOf
    by_cases hne : item = []
    · rw [if_pos hne, if_neg (by simp [hne]), List.map_nil, List.append_nil]
    · rw [if_neg hne, if_pos (List.length_pos_iff.mpr hne), hstored, List.map_singleton]
  have hrun : compatibleLoop size buffer offset compatible = compatibleLoop size buffer
      (if offset + item.length < buffer.length then offset + item.length + 1 else offset + item.length)
      (compatible ++ (itemOf item).map (·.take (size - 1))) := by
    rw [compatibleLoop, dif_pos ⟨hoffset, hroom⟩]
    dsimp only
    rw [htake, hcompatible]
  refine ⟨_, ?_, ?_, hrun⟩
  · split
    · omega
    · rename_i hend
      rcases hrest with h | ⟨h, hne, -⟩
      · rw [h, List.length_append, List.length_cons] at hlength
        omega
      · have hpos := List.length_pos_iff.mpr hne
        omega
  · rcases hrest with h | ⟨h, -, hleft⟩
    · rw [h, List.length_append, List.length_cons] at hlength
      have hbehind : (item ++ 0 :: left).drop (item.length + 1) = left := by simp [List.drop_append]
      rw [if_pos (by omega), Nat.add_assoc, ← List.drop_drop, h, hbehind]
    · rw [h] at hlength
      rw [if_neg (by omega), hleft]
      exact List.drop_of_length_le (by omega)

/-- **What the loop stores from an offset on.** -/
theorem compatibleLoop_eq (size : ℕ) (buffer : Bytes) (offset : ℕ) (compatible : List Bytes) :
    compatibleLoop size buffer offset compatible = compatible ++
      ((items (buffer.drop offset)).take (DEVICE_TREE_MAX_COMPATIBLE - compatible.length)).map
      (·.take (size - 1)) := by
  -- on the number of bytes that are left
  induction hn : buffer.length - offset using Nat.strong_induction_on generalizing offset compatible with
  | _ n ih =>
    by_cases hroom : compatible.length < DEVICE_TREE_MAX_COMPATIBLE
    · by_cases hend : buffer.drop offset = []
      · have hoffset : ¬ (offset < buffer.length ∧ compatible.length < DEVICE_TREE_MAX_COMPATIBLE) := by
          rw [List.drop_eq_nil_iff] at hend
          omega
        rw [compatibleLoop, dif_neg hoffset, hend, items_nil, List.take_nil, List.map_nil, List.append_nil]
      · obtain ⟨item, left, hcuts⟩ := exists_cuts hend
        obtain ⟨next, hlt, hleft, hrun⟩ :=
          @compatibleLoop_item size buffer item left offset compatible hcuts hroom
        have hoffset : offset < buffer.length := by
          rw [List.drop_eq_nil_iff] at hend
          omega
        rw [hrun, ih (buffer.length - next) (by omega) next _ rfl, hleft, hcuts.items]
        unfold itemOf
        by_cases hne : item = []
        · rw [if_pos hne, List.map_nil, List.append_nil, List.nil_append]
        · obtain ⟨k, hk⟩ : ∃ k, DEVICE_TREE_MAX_COMPATIBLE - compatible.length = k + 1 :=
            ⟨DEVICE_TREE_MAX_COMPATIBLE - compatible.length - 1, by omega⟩
          have hk' : DEVICE_TREE_MAX_COMPATIBLE - (compatible ++ [item.take (size - 1)]).length = k := by
            rw [List.length_append, List.length_singleton]
            omega
          rw [if_neg hne, List.map_singleton, hk', hk, List.singleton_append, List.take_succ_cons, List.map_cons,
            List.append_assoc, List.singleton_append]
    · have hfull : DEVICE_TREE_MAX_COMPATIBLE - compatible.length = 0 := by omega
      rw [compatibleLoop, dif_neg (by tauto), hfull, List.take_zero, List.map_nil, List.append_nil]

end Loop

/-! ### The list -/

/-- What is stored of a property. -/
def storedItems (content : Bytes) : List Bytes :=
  ((items (content.take 1024)).take DEVICE_TREE_MAX_COMPATIBLE).map (·.take 127)

theorem collectCompatible_eq (content : Bytes) {info : DeviceTreeInfo} (hinfo : info.compatible = []) :
    collectCompatible (some content) info = { info with compatible := storedItems content } := by
  unfold collectCompatible readProperty storedItems
  dsimp only [Option.getD_some]
  rw [compatibleLoop_eq, hinfo, List.drop_zero]
  split
  · rename_i hnil
    rw [List.eq_nil_of_length_eq_zero hnil, items_nil, List.take_nil, List.map_nil, ← hinfo]
  · rfl

theorem storedItems_final_nul (content : Bytes) : storedItems (content ++ [0]) = storedItems content := by
  unfold storedItems
  by_cases hlong : 1024 ≤ content.length
  · rw [List.take_append_of_le_length hlong]
  · have hfits : (content ++ [0]).length ≤ 1024 := by
      rw [List.length_append, List.length_singleton]
      omega
    rw [List.take_of_length_le hfits, List.take_of_length_le (by omega : content.length ≤ 1024), items_append_nul,
      items_nil, List.append_nil]

theorem storedItems_empty_item {a b : Bytes} (hfits : (a ++ 0 :: 0 :: b).length ≤ 1024) :
    storedItems (a ++ 0 :: 0 :: b) = storedItems (a ++ 0 :: b) := by
  have hfits' : (a ++ 0 :: b).length ≤ 1024 := by
    simp only [List.length_append, List.length_cons] at hfits ⊢
    omega
  have hempty : items (0 :: b) = items b := items_append_nul [] b
  unfold storedItems
  rw [List.take_of_length_le hfits, List.take_of_length_le hfits', items_append_nul, items_append_nul, hempty]

/-- **The compatible list is split exactly.**  The first eight non-empty items of the first 1024 bytes are stored
in order, each cut to 127 bytes; a missing `'\0'` at the end and empty items change nothing; and a list of strings
that fits is read back as it was written. -/
theorem compatible_split :
    (∀ (content : Bytes) (info : DeviceTreeInfo), info.compatible = [] →
      collectCompatible (some content) info = { info with compatible := storedItems content }) ∧
    (∀ content : Bytes, storedItems (content ++ [0]) = storedItems content) ∧
    (∀ a b : Bytes, (a ++ 0 :: 0 :: b).length ≤ 1024 → storedItems (a ++ 0 :: 0 :: b) = storedItems
      (a ++ 0 :: b)) ∧
    ∀ strings : List Bytes, strings.length ≤ 8 →
      (∀ s ∈ strings, s ≠ [] ∧ 0 ∉ s ∧ s.length ≤ 127) →
      (nulTerminated strings).length ≤ 1024 → storedItems (nulTerminated strings) = strings := by
  refine ⟨fun content info => collectCompatible_eq content, storedItems_final_nul,
    fun a b => storedItems_empty_item, ?_⟩
  intro strings hcount hstrings hfits
  have hitems := items_nulTerminated fun s hs => ⟨(hstrings s hs).1, (hstrings s hs).2.1⟩
  have hall : strings.take DEVICE_TREE_MAX_COMPATIBLE = strings := List.take_of_length_le hcount
  unfold storedItems
  rw [List.take_of_length_le hfits, hitems, hall]
  calc strings.map (·.take 127) = strings.map id :=
        List.map_congr_left fun s hs => List.take_of_length_le (hstrings s hs).2.2
    _ = strings := List.map_id strings

/-- A board with two names. -/
theorem twoNames_split : collectCompatible (some [97, 44, 98, 0, 99, 0]) ⟨true, [], [], []⟩ =
    ⟨true, [], [[97, 44, 98], [99]], []⟩ := by
  have hstored := compatible_split.1 [97, 44, 98, 0, 99, 0] ⟨true, [], [], []⟩ rfl
  have hback := compatible_split.2.2.2 [[97, 44, 98], [99]] (by decide) (by decide) (by decide)
  rw [hstored]
  exact congrArg (fun compatible => (⟨true, [], compatible, []⟩ : DeviceTreeInfo)) hback

/-! ### All properties -/

/-- The first line of a property, as much of it as the buffer has room for. -/
structure FirstLine (size : ℕ) (src text : Bytes) : Prop where
  start : text <+: src
  fits : text.length ≤ size - 1
  plain : ∀ c ∈ text, c ≠ 0 ∧ c ≠ 13 ∧ c ≠ 10
  whole : text.length < size - 1 → ∀ c rest, src = text ++ c :: rest → c = 0 ∨ c = 13 ∨ c = 10

theorem copyPropertyText_firstLine (size : ℕ) (src : Bytes) : FirstLine size src (copyPropertyText size src) where
  start := (List.take_prefix _ _).trans (List.takeWhile_prefix _)
  fits := List.length_take_le _ _
  plain c hc := by simpa using List.mem_takeWhile_imp (List.mem_of_mem_take hc)
  whole hshort c rest hsrc := by
    -- the line was not cut, so the byte behind it ends it
    unfold copyPropertyText at hshort hsrc
    rw [List.length_take] at hshort
    rw [List.take_of_length_le (by omega)] at hsrc
    have hrest : src.dropWhile (fun c => decide (c ≠ 0 ∧ c ≠ 13 ∧ c ≠ 10)) = c :: rest :=
      List.append_cancel_left (List.takeWhile_append_dropWhile.trans hsrc)
    have hstop := List.head?_dropWhile_not (fun c => decide (c ≠ 0 ∧ c ≠ 13 ∧ c ≠ 10)) src
    rw [hrest] at hstop
    by_contra hc
    simp [not_or.mp hc, (not_or.mp (not_or.mp hc).2)] at hstop

theorem collectModel_eq (file : Option Bytes) {info : DeviceTreeInfo} (hinfo : info.model = []) :
    collectModel file info = { info with model := copyPropertyText 128 (readProperty file 256) } := by
  unfold collectModel
  dsimp only
  split
  · rename_i hnil
    rw [List.eq_nil_of_length_eq_zero hnil]
    cases info
    cases hinfo
    rfl
  · rfl

theorem collectBootargs_eq (file : Option Bytes) {info : DeviceTreeInfo} (hinfo : info.bootargs = []) :
    collectBootargs file info = { info with bootargs := copyPropertyText 1024 (readProperty file 1024) } := by
  unfold collectBootargs
  dsimp only
  split
  · rename_i hnil
    rw [List.eq_nil_of_length_eq_zero hnil]
    cases info
    cases hinfo
    rfl
  · rfl

/-- **What is collected.**  Nothing where there is no device tree; else the first lines of the model and of the boot
arguments, and the items of the compatible list.  A property that cannot be read is empty. -/
theorem deviceTreeCollect_stores : deviceTreeCollect none = (MiniShellError.ok, ⟨false, [], [], []⟩) ∧
    ∀ tree : DeviceTree, ∃ info, deviceTreeCollect (some tree) = (MiniShellError.ok, info) ∧
      info.available = true ∧
      FirstLine 128 (readProperty tree.model 256) info.model ∧
      FirstLine 1024 (readProperty tree.bootargs 1024) info.bootargs ∧
      info.compatible = storedItems (tree.compatible.getD []) := by
  refine ⟨rfl, fun tree => ⟨collectBootargs tree.bootargs (collectCompatible tree.compatible
    (collectModel tree.model ⟨true, [], [], []⟩)), rfl, ?_⟩⟩
  have hfile : collectCompatible tree.compatible = collectCompatible (some (tree.compatible.getD [])) := rfl
  rw [collectModel_eq tree.model rfl, hfile, collectCompatible_eq _ rfl, collectBootargs_eq tree.bootargs rfl]
  exact ⟨rfl, copyPropertyText_firstLine 128 _, copyPropertyText_firstLine 1024 _, rfl⟩

end MiniShell
