import MiniShell.Model.Sysfs

/-!
# Numbers in attribute files

`Reader.Number kind s v` — the string `s` is a number that the reader can return, and `v` is that number.
`sysfsReadText_text` says what the readers see of a file, `convert_iff` what they make of it, and `reader_meets` for which
contents this is the number the content is.
-/

namespace MiniShell

open MiniShell.Lib Strtol

/-! ### Text -/

/-- The content without the line ends behind it. -/
def trimLineEnds (content : Bytes) : Bytes := content.rdropWhile isLineEnd

/-- The file can be read without an error; a `read` may still be interrupted or give less than it is asked for. -/
structure SysfsFile.Readable (file : SysfsFile) : Prop where
  reads : .failed ∉ file.reads
  closes : file.closes = true

/-- The loop fills the buffer with what the file holds. -/
theorem sysfsReadLoop_reads {size : ℕ} (reads : List ReadChoice) :
    ∀ {rest buffer : Bytes}, .failed ∉ reads →
    buffer.length ≤ size - 1 →
    sysfsReadLoop size reads rest buffer = (true, buffer ++ rest.take (size - 1 - buffer.length)) := by
  induction reads with
  | nil =>
    intro rest buffer _ _
    rw [sysfsReadLoop, Nat.sub_right_comm]
  | cons choice reads ih =>
    intro rest buffer hfail hlen
    have hfail' : .failed ∉ reads := fun h => hfail (List.mem_cons_of_mem _ h)
    unfold sysfsReadLoop
    by_cases hfull : size - 1 ≤ buffer.length
    · rw [if_pos hfull, show size - 1 - buffer.length = 0 by omega]
      simp
    · rw [if_neg hfull]
      cases choice with
      | interrupted => exact ih hfail' hlen
      | failed => exact absurd List.mem_cons_self hfail
      | bytes n =>
        dsimp only
        by_cases hend : rest.take (min (n + 1) (size - buffer.length - 1)) = []
        · rw [if_pos hend]
          have hrest : rest = [] := by
            rcases List.take_eq_nil_iff.mp hend with h | h
            · omega
            · exact h
          simp [hrest]
        · rw [if_neg hend]
          have hchunk : (rest.take (min (n + 1) (size - buffer.length - 1))).length ≤
              size - buffer.length - 1 := by
            rw [List.length_take]
            omega
          rw [ih hfail' (by rw [List.length_append]; omega), List.append_assoc, List.length_append]
          generalize hk : (rest.take (min (n + 1) (size - buffer.length - 1))).length = k at hchunk
          have htake : rest.take (min (n + 1) (size - buffer.length - 1)) = rest.take k := by
            rw [← hk, List.length_take, List.take_eq_take_iff]
            omega
          rw [htake, show size - 1 - buffer.length = k + (size - 1 - (buffer.length + k)) by omega, List.take_add]

/-- **`sysfs_read_text` reads the start of the file**, however the reads are split. -/
theorem sysfsReadText_text {file : SysfsFile} (h : file.Readable) {size : ℕ} (hsize : 2 ≤ size) :
    sysfsReadText (some file) size = some (trimLineEnds (file.content.take (size - 1))) := by
  unfold sysfsReadText sysfsRead
  rw [if_neg (by omega)]
  dsimp only
  rw [sysfsReadLoop_reads file.reads h.reads (Nat.zero_le _)]
  simp [h.closes, trimLineEnds]

/-! ### Numbers -/

/-- The functions that read a number. -/
inductive Reader where
  | long | ulong | ull
  deriving DecidableEq

def Reader.read : Reader → Option SysfsFile → Int → Int × Int
  | long => sysfsReadLong
  | ulong => sysfsReadUlong
  | ull => sysfsReadUll

/-- The number may have a minus sign. -/
def Reader.signed : Reader → Bool
  | long => true
  | ulong => false
  | ull => false

@[simp] theorem signed_long : Reader.long.signed = true := rfl
@[simp] theorem signed_ulong : Reader.ulong.signed = false := rfl
@[simp] theorem signed_ull : Reader.ull.signed = false := rfl

/-- **The string is a number of the type the reader reads**, and this number is `v`. -/
def Reader.Number (kind : Reader) (s : Bytes) (v : Int) : Prop :=
  ∃ x, Denotes isspace s x ∧ v = x.value ∧
    if kind.signed then -2 ^ 63 ≤ x.value ∧ x.value < 2 ^ 63 else x.negative = false ∧ x.magnitude < 2 ^ 64

/-- White space and then a number with a minus sign, which `strtoul` negates. -/
def HiddenMinus (s : Bytes) : Prop :=
  ∃ blanks digits, s = blanks ++ 45 :: digits ∧ blanks ≠ [] ∧ (∀ c ∈ blanks, isspace c = true) ∧
    digits ≠ [] ∧
    (∀ c ∈ digits, isDigit c = true) ∧ digitsValue digits < 2 ^ 64

/-- What the readers see of a content: the first 63 bytes without line ends behind them, up to the first `'\0'`. -/
def bufferText (content : Bytes) : Bytes := cString (trimLineEnds (content.take 63))

section

variable {kind : Reader} {file : SysfsFile} {s : Bytes} {v value : Int}

theorem Reader.Number.unique {v' : Int} (h : kind.Number s v) (h' : kind.Number s v') : v = v' := by
  obtain ⟨x, hx, rfl, -⟩ := h
  obtain ⟨y, hy, rfl, -⟩ := h'
  rw [hx.unique isspace_apart hy]

/-- What the unsigned readers make of a string. -/
theorem unsigned_accepts : (s.head? ≠ some 45 ∧ strtoul isspace 64 s = ⟨v, some [], false⟩) ↔
    Reader.ulong.Number s v ∨ HiddenMinus s ∧ v = (strtoul isspace 64 s).value := by
  rw [strtoul_accepts isspace_apart]
  constructor
  · rintro ⟨hhead, x, hx, hlt, rfl⟩
    cases hneg : x.negative with
    | false =>
      have hval : x.value = x.magnitude := by simp [Numeral.value, hneg]
      refine Or.inl ⟨x, hx, ?_, hneg, hlt⟩
      rw [hval]
      exact Int.emod_eq_of_lt (by omega) (by exact_mod_cast hlt)
    | true =>
      have hval : strtoul isspace 64 s = ⟨x.value % 2 ^ 64, some [], false⟩ :=
        (strtoul_accepts isspace_apart).mpr ⟨x, hx, hlt, rfl⟩
      rw [hval]
      cases hx with
      | plain => cases hneg
      | plus => cases hneg
      | @minus blanks digits hb hne hd =>
        refine Or.inr ⟨⟨blanks, digits, rfl, ?_, hb, hne, hd, hlt⟩, rfl⟩
        rintro rfl
        exact hhead rfl
  · rintro (⟨x, hx, rfl, hneg, hlt⟩ | ⟨⟨blanks, digits, rfl, hblanks, hb, hne, hd, hlt⟩, rfl⟩)
    · have hval : x.value = x.magnitude := by simp [Numeral.value, hneg]
      refine ⟨fun hc => ?_, x, hx, hlt, ?_⟩
      · obtain ⟨t, rfl⟩ := List.head?_eq_some_iff.mp hc
        have hminus := @Denotes.negative isspace [] t x isspace_apart (by simp) hx
        rw [hneg] at hminus
        cases hminus
      · rw [hval]
        exact (Int.emod_eq_of_lt (by omega) (by exact_mod_cast hlt)).symm
    · obtain ⟨c, blanks, rfl⟩ := List.exists_cons_of_ne_nil hblanks
      have hx : Denotes isspace (c :: blanks ++ 45 :: digits) ⟨true, digits⟩ := .minus hb hne hd
      refine ⟨?_, _, hx, hlt, ?_⟩
      · intro hc
        obtain rfl : c = 45 := by simpa using hc
        exact (isspace_apart 45 (hb 45 List.mem_cons_self)).2.2 rfl
      · rw [(strtoul_accepts isspace_apart).mpr ⟨_, hx, hlt, rfl⟩]

/-- The number a reader finds in a string, by the functions it calls. -/
def Reader.convert (kind : Reader) (s : Bytes) : Option Int :=
  if kind.signed then
    if (strtol isspace 64 s).fails then none else some (strtol isspace 64 s).value
  else if s.head? = some 45 ∨ (strtoul isspace 64 s).fails then none
  else some (strtoul isspace 64 s).value

/-- A reader looks at the start of the file. -/
theorem read_convert (h : file.Readable) : kind.read (some file) value =
    match kind.convert (bufferText file.content) with
    | some v => (0, v)
    | none => (-1, value) := by
  have htext := sysfsReadText_text h (by decide : 2 ≤ 64)
  have hunsigned : sysfsReadUnsigned 64 (some file) value = match Reader.ulong.convert
    (bufferText file.content) with
      | some v => (0, v)
      | none => (-1, value) := by
    unfold sysfsReadUnsigned
    rw [htext]
    dsimp only [Reader.convert, Reader.signed]
    by_cases hhead : (bufferText file.content).head? = some 45
    · simp [hhead, show cString (trimLineEnds (file.content.take (64 - 1))) = bufferText file.content from rfl]
    · simp only [show cString (trimLineEnds (file.content.take (64 - 1))) = bufferText file.content
        from rfl, hhead,
        if_false, false_or, Bool.false_eq_true]
      split <;> rfl
  cases kind with
  | long =>
    show sysfsReadLong (some file) value = _
    unfold sysfsReadLong
    rw [htext]
    dsimp only [Reader.convert, Reader.signed]
    simp only [show cString (trimLineEnds (file.content.take (64 - 1))) = bufferText file.content from rfl, if_true]
    split <;> rfl
  | ulong => exact hunsigned
  | ull => exact hunsigned

/-- **What a reader makes of a string.** -/
theorem convert_iff : kind.convert s = some v ↔
    kind.Number s v ∨ kind.signed = false ∧ HiddenMinus s ∧ v = (strtoul isspace 64 s).value := by
  have hunsigned : Reader.ulong.convert s = some v ↔
      Reader.ulong.Number s v ∨ HiddenMinus s ∧ v = (strtoul isspace 64 s).value := by
    rw [← unsigned_accepts]
    unfold Reader.convert
    simp only [signed_ulong, Bool.false_eq_true, if_false]
    split
    · rename_i hfail
      refine ⟨nofun, fun ⟨hhead, hconv⟩ => ?_⟩
      rcases hfail with hfail | hfail
      · exact absurd hfail hhead
      · rw [hconv] at hfail
        cases hfail
    · rename_i hfail
      obtain ⟨hhead, hok⟩ := not_or.mp hfail
      have hconv := Conversion.fails_iff.mp (Bool.not_eq_true _ ▸ hok)
      rw [hconv]
      simp [hhead]
  cases kind with
  | long =>
    have hlong : Reader.long.convert s = some v ↔ strtol isspace 64 s = ⟨v, some [], false⟩ := by
      unfold Reader.convert
      simp only [signed_long, if_true]
      split
      · rename_i hfail
        refine ⟨nofun, fun hconv => ?_⟩
        rw [hconv] at hfail
        cases hfail
      · rename_i hok
        have hconv := Conversion.fails_iff.mp (Bool.not_eq_true _ ▸ hok)
        rw [hconv]
        simp
    rw [hlong, strtol_accepts isspace_apart]
    simp only [signed_long, Bool.true_eq_false, false_and, or_false]
    exact ⟨fun ⟨x, hx, h1, h2, hv⟩ => ⟨x, hx, hv, h1, h2⟩,
      fun ⟨x, hx, hv, h1, h2⟩ => ⟨x, hx, h1, h2, hv⟩⟩
  | ulong => exact hunsigned.trans (or_congr Iff.rfl ⟨fun h => ⟨rfl, h⟩, fun h => h.2⟩)
  | ull => exact hunsigned.trans (or_congr Iff.rfl ⟨fun h => ⟨rfl, h⟩, fun h => h.2⟩)

/-! ### Contents -/

/-- What is seen of a content is where the content starts. -/
theorem bufferText_prefix (content : Bytes) : bufferText content <+: content :=
  ((List.takeWhile_prefix _).trans (List.rdropWhile_prefix _ _)).trans (List.take_prefix _ _)

/-- Trimming leaves everything up to a byte that is no line end. -/
theorem trimLineEnds_keeps {l : Bytes} {c : UInt8} (hc : isLineEnd c = false) (u : Bytes) :
    ∃ u', trimLineEnds (l ++ c :: u) = l ++ c :: u' := by
  unfold trimLineEnds
  induction u using List.reverseRecOn with
  | nil => exact ⟨[], List.rdropWhile_concat_neg _ _ _ (by simp [hc])⟩
  | append_singleton u d ih =>
    rw [← List.cons_append, ← List.append_assoc, List.rdropWhile_concat]
    split
    · exact ih
    · exact ⟨u ++ [d], by simp⟩

/-- A text that is white space, a minus sign and digits is no number of an unsigned reader, whatever follows. -/
theorem hiddenMinus_not_number (hs : kind.signed = false) {content : Bytes} (h : HiddenMinus (bufferText content)) :
    ¬ kind.Number (trimLineEnds content) v := by
  rintro ⟨x, hx, -, hrange⟩
  rw [hs] at hrange
  obtain ⟨blanks, digits, htext, -, hb, -, -, -⟩ := h
  obtain ⟨t, ht⟩ := bufferText_prefix content
  obtain ⟨u, hu⟩ := @trimLineEnds_keeps blanks 45 (by decide) (digits ++ t)
  rw [← ht, htext, List.append_assoc, List.cons_append, hu] at hx
  have hminus := hx.negative isspace_apart hb
  rw [hrange.1] at hminus
  cases hminus

/-- What is asked of a reader: it returns 0 exactly for the numbers, with the number in `*value`, and otherwise it
returns -1 and leaves `*value` unchanged. -/
def Reader.Meets (kind : Reader) (file : SysfsFile) : Prop :=
  ∀ value, (∀ v, kind.read (some file) value = (0, v) ↔ kind.Number (trimLineEnds file.content) v) ∧
    ((∀ v, ¬ kind.Number (trimLineEnds file.content) v) → kind.read (some file) value = (-1, value))

/-- As a number, what is seen of the content is what the whole content is. -/
def Reader.SeesAll (kind : Reader) (content : Bytes) : Prop :=
  ∀ v, kind.Number (bufferText content) v ↔ kind.Number (trimLineEnds content) v

/-- A content of at most 63 bytes without `'\0'` is seen as a whole. -/
theorem seesAll_of_short {content : Bytes} (hlen : content.length ≤ 63) (h0 : 0 ∉ content) :
    kind.SeesAll content := by
  have htext : bufferText content = trimLineEnds content := by
    unfold bufferText
    rw [List.take_of_length_le hlen]
    apply List.takeWhile_eq_self_iff.mpr
    intro c hc
    have hmem : c ∈ content := (List.rdropWhile_prefix _ _).subset hc
    simpa using fun h : c = 0 => h0 (h ▸ hmem)
  intro v
  rw [htext]

/-- **When a reader returns the number in the file.**  The readers accept exactly the numbers, for every way the reads
are split, if and only if the first 63 bytes of the content, up to the first `'\0'` and without line ends behind them,
are the same number as the whole content, or both are none, and for the unsigned readers they are not white space, a
minus sign and digits.  Of a content of at most 63 bytes without `'\0'` the whole is seen. -/
theorem reader_meets (h : file.Readable) :
    (kind.Meets file ↔ kind.SeesAll file.content ∧
      (kind.signed = false → ¬ HiddenMinus (bufferText file.content))) ∧
    (file.content.length ≤ 63 → 0 ∉ file.content → kind.SeesAll file.content) := by
  refine ⟨?_, seesAll_of_short⟩
  have hread : ∀ value v, kind.read (some file) value = (0, v) ↔
      kind.convert (bufferText file.content) = some v := by
    intro value v
    rw [read_convert h]
    cases kind.convert (bufferText file.content) <;> simp
  constructor
  · intro hmeets
    have hiff : ∀ v, kind.convert (bufferText file.content) = some v ↔
        kind.Number (trimLineEnds file.content) v :=
      fun v => (hread 0 v).symm.trans ((hmeets 0).1 v)
    have hminus : kind.signed = false → ¬ HiddenMinus (bufferText file.content) := fun hs hm =>
      hiddenMinus_not_number hs hm ((hiff _).mp (convert_iff.mpr (Or.inr ⟨hs, hm, rfl⟩)))
    refine ⟨fun v => ?_, hminus⟩
    rw [← hiff, convert_iff]
    exact ⟨Or.inl, fun hc => hc.resolve_right fun ⟨hs, hm, _⟩ => hminus hs hm⟩
  · rintro ⟨hsees, hminus⟩ value
    have hiff : ∀ v, kind.convert (bufferText file.content) = some v ↔
        kind.Number (trimLineEnds file.content) v := by
      intro v
      rw [← hsees v, convert_iff]
      exact ⟨fun hc => hc.resolve_right fun ⟨hs, hm, _⟩ => hminus hs hm, Or.inl⟩
    refine ⟨fun v => (hread value v).trans (hiff v), fun hnone => ?_⟩
    rw [read_convert h]
    cases hc : kind.convert (bufferText file.content) with
    | none => rfl
    | some v => exact absurd ((hiff v).mp hc) (hnone v)

end

/-- The file `" -5\n"`, read at once. -/
def minusFile : SysfsFile := ⟨[32, 45, 53, 10], [], true⟩

/-- `sysfs_read_ull` reads it as `2 ^ 64 - 5`. -/
theorem minusFile_read : ¬ Reader.ull.Meets minusFile := by
  intro h
  have hread : Reader.ull.read (some minusFile) 0 = (0, 2 ^ 64 - 5) := by decide +kernel
  obtain ⟨x, hx, hv, hrange⟩ := (h 0).1 _ |>.mp hread
  have hminus := @Denotes.negative isspace [32] [53] x isspace_apart (by decide +kernel) hx
  rw [hrange.1] at hminus
  cases hminus

/-- The file `"42\n"` is read as 42, whatever `*value` was. -/
theorem numberFile_read : Reader.ull.Meets ⟨[52, 50, 10], [.interrupted, .bytes 0], true⟩ := by
  refine (reader_meets ⟨by decide, rfl⟩).1.mpr
    ⟨(reader_meets ⟨by decide, rfl⟩).2 (by decide) (by decide), fun _ h => ?_⟩
  obtain ⟨blanks, digits, htext, hne, hb, -⟩ := h
  obtain ⟨c, blanks, rfl⟩ := List.exists_cons_of_ne_nil hne
  have hhead : some 52 = some c := congrArg List.head? htext
  cases hhead
  exact absurd (hb 52 List.mem_cons_self) (by decide)

end MiniShell
