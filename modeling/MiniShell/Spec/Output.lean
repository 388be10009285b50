import MiniShell.Model.Output
import MiniShell.Spec.Sysfs

/-!
# Transfers in pieces

* `shellWriteAll_writes` — what `shell_write_all` has written is the buffer when it returns 0, and less than the
  buffer, but the start of it, when it returns -1;
* **`transfers_independent`** — how the kernel splits a transfer does not matter, for reading and for writing.
-/

namespace MiniShell

open MiniShell.Lib

/-- What has been written is the start of the buffer, up to the offset. -/
theorem shellWriteLoop_writes (buffer : Bytes) (writes : List WriteChoice) {written : ℕ}
    (hle : written ≤ buffer.length) :
    (shellWriteLoop buffer writes written (buffer.take written) = (0, buffer)) ∨
      ∃ n < buffer.length, shellWriteLoop buffer writes written (buffer.take written) = (-1, buffer.take n) := by
  induction writes generalizing written with
  | nil =>
    left
    rw [shellWriteLoop, List.take_append_drop]
  | cons choice writes ih =>
    unfold shellWriteLoop
    by_cases hall : buffer.length ≤ written
    · left
      rw [if_pos hall, List.take_of_length_le hall]
    · rw [if_neg hall]
      have hlt : written < buffer.length := not_le.mp hall
      cases choice with
      | interrupted => exact ih hle
      | failed => exact Or.inr ⟨written, hlt, rfl⟩
      | bytes n =>
        dsimp only
        by_cases hzero : min n (buffer.length - written) = 0
        · rw [if_pos hzero]
          exact Or.inr ⟨written, hlt, rfl⟩
        · rw [if_neg hzero, ← List.take_add]
          apply ih
          omega

/-- **What `shell_write_all` has written.** -/
theorem shellWriteAll_writes (buffer : Bytes) (writes : List WriteChoice) :
    ((shellWriteAll buffer writes).1 = 0 ∧ (shellWriteAll buffer writes).2 = buffer) ∨
      (shellWriteAll buffer writes).1 = -1 ∧ (shellWriteAll buffer writes).2 <+: buffer ∧
        (shellWriteAll buffer writes).2 ≠ buffer := by
  have h := shellWriteLoop_writes buffer writes (Nat.zero_le buffer.length)
  rw [List.take_zero] at h
  unfold shellWriteAll
  rcases h with h | ⟨n, hn, h⟩
  · rw [h]
    exact Or.inl ⟨rfl, rfl⟩
  · rw [h]
    refine Or.inr ⟨rfl, List.take_prefix n buffer, fun heq => ?_⟩
    have hlength := congrArg List.length heq
    rw [List.length_take] at hlength
    omega

theorem length_trimLineEnds_le (content : Bytes) : (trimLineEnds content).length ≤ content.length :=
  (List.rdropWhile_prefix isLineEnd content).length_le

/-- **Transfers do not depend on how they are split.**  A file of which every `read` succeeds or is interrupted is
read up to the size of the buffer, without the line ends behind it and with room for the `'\0'`.  A buffer is
written completely and in order when `shell_write_all` returns 0, and otherwise a proper start of it is. -/
theorem transfers_independent :
    (∀ (file : SysfsFile) (size : ℕ), file.Readable → 2 ≤ size →
      sysfsReadText (some file) size = some (trimLineEnds (file.content.take (size - 1))) ∧
        (trimLineEnds (file.content.take (size - 1))).length < size) ∧
    ∀ (buffer : Bytes) (writes : List WriteChoice),
      ((shellWriteAll buffer writes).1 = 0 → (shellWriteAll buffer writes).2 = buffer) ∧
      ((shellWriteAll buffer writes).1 = -1 →
        (shellWriteAll buffer writes).2 <+: buffer ∧ (shellWriteAll buffer writes).2 ≠ buffer) ∧
      ((shellWriteAll buffer writes).1 = 0 ∨ (shellWriteAll buffer writes).1 = -1) := by
  constructor
  · intro file size h hsize
    refine ⟨sysfsReadText_text h hsize, ?_⟩
    have htrim := length_trimLineEnds_le (file.content.take (size - 1))
    rw [List.length_take] at htrim
    omega
  · intro buffer writes
    rcases shellWriteAll_writes buffer writes with ⟨hret, hout⟩ | ⟨hret, hgoesOn, hne⟩
    · exact ⟨fun _ => hout, fun h => absurd (hret.symm.trans h) (by decide), Or.inl hret⟩
    · exact ⟨fun h => absurd (hret.symm.trans h) (by decide), fun _ => ⟨hgoesOn, hne⟩, Or.inr hret⟩

/-- `up` with a newline, read into four bytes one by one, and written in two pieces. -/
theorem pieces_transferred :
    sysfsReadText (some ⟨[117, 112, 10, 10], [.bytes 0, .interrupted, .bytes 0, .interrupted], true⟩) 4 =
      some [117, 112] ∧
      (shellWriteAll [117, 112, 10] [.bytes 1, .interrupted, .bytes 1]).2 = [117, 112, 10] := by
  have hread := (transfers_independent.1 ⟨[117, 112, 10, 10],
    [.bytes 0, .interrupted, .bytes 0, .interrupted], true⟩ 4
    ⟨by decide, rfl⟩ (by decide)).1
  have hwritten := (transfers_independent.2 [117, 112, 10] [.bytes 1, .interrupted, .bytes 1]).1 (by decide)
  exact ⟨hread.trans (by decide), hwritten⟩

end MiniShell
