import Mathlib.Tactic

/-!
# Buffered output

A buffered writer holds back what is printed, and hands pieces of it to a destination whenever it likes.  The
destination is not the writer's own: it may be another one at the next piece.  `Streams d bs s s'` says that between
`s` and `s'` the items `bs` were printed and everything that was handed over went to `d`, in order; the rules say so
of each operation and of one after the other.
-/

namespace MiniShell.Lib

/-- A buffered writer to the destinations `δ`, with the history of what was printed. -/
structure Buffered (δ β : Type) where
  pending : List β
  written : δ → List β
  printed : List β

namespace Buffered

variable {δ β : Type} [DecidableEq δ]

/-- What the destinations hold when `d` gets `out` in addition. -/
def deliver (written : δ → List β) (d : δ) (out : List β) : δ → List β :=
  Function.update written d (written d ++ out)

@[simp] theorem deliver_nil (written : δ → List β) (d : δ) : deliver written d [] = written := by
  simp [deliver]

theorem deliver_deliver (written : δ → List β) (d : δ) (a b : List β) :
    deliver (deliver written d a) d b = deliver written d (a ++ b) := by
  simp [deliver]

def print (bs : List β) (s : Buffered δ β) : Buffered δ β :=
  { s with pending := s.pending ++ bs, printed := s.printed ++ bs }

/-- The first `n` items are handed to `d`. -/
def drain (n : ℕ) (d : δ) (s : Buffered δ β) : Buffered δ β :=
  { s with pending := s.pending.drop n, written := deliver s.written d (s.pending.take n) }

/-- Everything is handed to `d`. -/
def flush (d : δ) (s : Buffered δ β) : Buffered δ β :=
  { s with pending := [], written := deliver s.written d s.pending }

/-- Between `s` and `s'` the items `bs` have been printed, and all that was handed over went to `d`, in order. -/
structure Streams (d : δ) (bs : List β) (s s' : Buffered δ β) : Prop where
  printed : s'.printed = s.printed ++ bs
  written : ∃ out, s'.written = deliver s.written d out ∧ out ++ s'.pending = s.pending ++ bs

variable {d : δ} {bs cs : List β} {s s' s'' : Buffered δ β}

theorem Streams.refl (d : δ) (s : Buffered δ β) : Streams d [] s s := ⟨by simp, [], by simp, by simp⟩

theorem Streams.trans (h : Streams d bs s s') (h' : Streams d cs s' s'') : Streams d (bs ++ cs) s s'' where
  printed := by rw [h'.printed, h.printed, List.append_assoc]
  written := by
    obtain ⟨a, ha, hap⟩ := h.written
    obtain ⟨b, hb, hbp⟩ := h'.written
    refine ⟨a ++ b, by rw [hb, ha, deliver_deliver], ?_⟩
    rw [List.append_assoc, hbp, ← List.append_assoc, hap, List.append_assoc]

theorem streams_print (d : δ) (bs : List β) (s : Buffered δ β) : Streams d bs s (s.print bs) :=
  ⟨rfl, [], by simp [print], by simp [print]⟩

theorem streams_drain (n : ℕ) (d : δ) (s : Buffered δ β) : Streams d [] s (s.drain n d) :=
  ⟨by simp [drain], s.pending.take n, rfl, by simp [drain]⟩

/-- **A flush after the streaming hands over the rest.** -/
theorem Streams.flush_written (h : Streams d bs s s') :
    (s'.flush d).written = deliver s.written d (s.pending ++ bs) := by
  obtain ⟨out, hout, hp⟩ := h.written
  rw [flush, hout, deliver_deliver, hp]

end Buffered

end MiniShell.Lib
