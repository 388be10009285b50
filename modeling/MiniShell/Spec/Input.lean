import MiniShell.Spec.Run

/-!
# Input lines

The reference for the input of the shell: `Frame` holds the bytes since the last newline or `SIGINT`, all of them,
and `Frame.step` says what one event does.  `shellLoop_framed` says that the main loop, with its fixed buffer and its
flag, does exactly what the reference does.
-/

namespace MiniShell

open MiniShell.Lib

/-! ### The reference -/

/-- What is delivered to the main loop. -/
inductive InputEvent where
  | byte (ch : UInt8)
  | child
  | interrupt
  | eof
  deriving DecidableEq

/-- The bytes since the last newline or `SIGINT`, the number of bytes read, and what has been done. -/
structure Frame where
  segment : Bytes
  consumed : ℕ
  actions : List Action
  deriving DecidableEq

/-- A line without its final `'\r'`, if it has one. -/
def trimReturn (line : Bytes) : Bytes := if line.getLast? = some carriageReturn then line.dropLast else line

/-- A line that fits is parsed, a longer one is dropped. -/
def lineActions (segment : Bytes) (consumed : ℕ) : List Action :=
  if segment.length < SHELL_INPUT_SIZE then [.parse (trimReturn segment) consumed] else []

/-- What one event does. -/
def Frame.step (f : Frame) : InputEvent → Frame
  | .byte ch =>
    if ch = newline then ⟨[], f.consumed + 1, f.actions ++ lineActions f.segment (f.consumed + 1)⟩
    else
      ⟨f.segment ++ [ch], f.consumed + 1,
        f.actions ++ if f.segment.length + 1 = SHELL_INPUT_SIZE then [.overlong (f.consumed + 1)] else []⟩
  | .child => f
  | .interrupt => { f with segment := [] }
  | .eof => ⟨[], f.consumed, f.actions ++ if f.segment = [] then [] else lineActions f.segment f.consumed⟩

/-- The reference after some events. -/
def frame (events : List InputEvent) : Frame := events.foldl Frame.step ⟨[], 0, []⟩

theorem frame_append (es : List InputEvent) (e : InputEvent) : frame (es ++ [e]) = (frame es).step e := by
  simp [frame]

/-! ### What a round delivers -/

def EventRes.events : EventRes → List InputEvent
  | .drainFailed => []
  | .taken child interrupt _ => (if child then [.child] else []) ++ if interrupt then [.interrupt] else []

def ReadRes.events : ReadRes → List InputEvent
  | .byte ch => [.byte ch]
  | .eof => [.eof]
  | .err _ => []

/-- The events of one round, in the order in which the loop handles them. -/
def Round.events (round : Round) : List InputEvent :=
  match round.select with
  | .err _ => []
  | .ready event input => event.elim [] EventRes.events ++ input.elim [] ReadRes.events

/-- A result that is no failure. -/
def EventRes.Sound : EventRes → Prop
  | .drainFailed => False
  | .taken _ _ newlineWritten => newlineWritten = true

/-- A byte other than NUL, the end of the file, or an interrupted read. -/
def ReadRes.Sound : ReadRes → Prop
  | .byte ch => ch ≠ 0
  | .eof => True
  | .err e => e = .EINTR

/-- In the round nothing fails, apart from calls that are interrupted. -/
structure Round.Sound (round : Round) : Prop where
  prompt : round.promptWritten = true
  select : ∀ e, round.select = .err e → e = .EINTR
  event : ∀ e input, round.select = .ready (some e) input → e.Sound
  input : ∀ event r, round.select = .ready event (some r) → r.Sound

/-! ### The input line -/

/-- The input line holds the bytes `segment`, or is being thrown away because they are too many. -/
structure ShellInput.Holds (input : ShellInput) (segment : Bytes) : Prop where
  buffer : input.buffer.length = SHELL_INPUT_SIZE
  length : input.length < SHELL_INPUT_SIZE
  short : segment.length < SHELL_INPUT_SIZE → input.discarding = false ∧
    input.length = segment.length ∧ input.buffer.take segment.length = segment
  long : SHELL_INPUT_SIZE ≤ segment.length → input.discarding = true
  clean : ∀ ch ∈ segment, ch ≠ 0

section

variable {input : ShellInput} {segment : Bytes}

/-- The empty input line. -/
theorem ShellInput.Holds.reset (hb : input.buffer.length = SHELL_INPUT_SIZE) :
    (shellResetInput input).Holds [] where
  buffer := by simp [shellResetInput, hb]
  length := by simp [shellResetInput, SHELL_INPUT_SIZE]
  short _ := by simp [shellResetInput]
  long hl := by simp [SHELL_INPUT_SIZE] at hl
  clean := by simp

/-- The line ends at the byte that terminates it. -/
theorem cString_set {buffer : Bytes} {n : ℕ} (hn : n < buffer.length) (hc : ∀ ch ∈ buffer.take n, ch ≠ 0) :
    cString (buffer.set n 0) = buffer.take n := by
  unfold cString
  rw [List.set_eq_take_append_cons_drop, if_pos hn, List.takeWhile_append_of_pos (by simpa using hc)]
  simp

/-- What `parse_line` is given. -/
theorem ShellInput.Holds.line (h : input.Holds segment) (hs : segment.length < SHELL_INPUT_SIZE) :
    cString (terminateInput input).buffer = trimReturn segment := by
  obtain ⟨-, hlen, hbuf⟩ := h.short hs
  have hlt : segment.length < input.buffer.length := h.buffer ▸ hs
  have hline : cString (input.buffer.set segment.length 0) = segment := by
    rw [cString_set hlt (by rw [hbuf]; exact h.clean), hbuf]
  rcases List.eq_nil_or_concat' segment with hnil | ⟨front, ch, hseg⟩
  · have h0 : input.length = 0 := by simpa [hnil] using hlen
    simpa [terminateInput, h0, trimReturn, hnil] using hline
  · have hfront : front.length + 1 = segment.length := by simp [hseg]
    have hget : input.buffer[input.length - 1]? = some ch := by
      rw [hlen, ← hfront, Nat.add_sub_cancel, ← List.getElem?_take_of_succ, hfront, hbuf, hseg]
      simp
    have hpos : 0 < input.length := by omega
    unfold terminateInput trimReturn
    rw [hget, hseg]
    by_cases hcr : ch = carriageReturn
    · -- the final '\r' is overwritten
      have htake : input.buffer.take front.length = front := by
        have := congrArg (List.take front.length) hbuf
        rwa [List.take_take, Nat.min_eq_left (by omega), hseg, List.take_left' rfl] at this
      simp only [hpos, hcr, and_self, if_true, List.getLast?_concat, List.dropLast_concat]
      rw [hlen, ← hfront, Nat.add_sub_cancel, cString_set (by omega), htake]
      rw [htake]
      exact fun c hc => h.clean c (by simp [hseg, hc])
    · simpa [hcr, hlen, hseg] using hline

theorem terminateInput_buffer (input : ShellInput) :
    (terminateInput input).buffer.length = input.buffer.length := by
  simp [terminateInput]

theorem terminateInput_length (input : ShellInput) : (terminateInput input).length ≤ input.length := by
  unfold terminateInput
  dsimp only
  split <;> omega

theorem clean_push {ch : UInt8} (h : ∀ c ∈ segment, c ≠ 0) (hch : ch ≠ 0) :
    ∀ c ∈ segment ++ [ch], c ≠ 0 := by
  intro c hc
  rcases List.mem_append.mp hc with hc | hc
  · exact h c hc
  · rwa [List.mem_singleton.mp hc]

/-- One more byte, and the line still fits. -/
theorem ShellInput.Holds.push (h : input.Holds segment) (hs : segment.length + 1 < SHELL_INPUT_SIZE) {ch : UInt8}
    (hch : ch ≠ 0) : ShellInput.Holds
      { input with buffer := input.buffer.set input.length ch, length := input.length + 1 } (segment ++ [ch]) := by
  obtain ⟨hd, hlen, hbuf⟩ := h.short (by omega)
  have hlt : segment.length < input.buffer.length := by rw [h.buffer]; omega
  refine ⟨by simp [h.buffer], by simpa [hlen] using hs, fun _ => ⟨hd, by simp [hlen], ?_⟩, fun hl => ?_, ?_⟩
  · rw [List.length_append, List.length_singleton, List.set_eq_take_append_cons_drop, hlen, if_pos hlt, hbuf]
    simp [List.take_append]
  · simp only [List.length_append, List.length_singleton] at hl
    omega
  · exact clean_push h.clean hch

/-- The byte that makes the line too long. -/
theorem ShellInput.Holds.overflow (h : input.Holds segment) {ch : UInt8}
    (hs : segment.length + 1 ≥ SHELL_INPUT_SIZE) (hch : ch ≠ 0) :
    ShellInput.Holds { input with length := 0, discarding := true } (segment ++ [ch]) where
  buffer := h.buffer
  length := by simp [SHELL_INPUT_SIZE]
  short hl := by simp only [List.length_append, List.length_singleton] at hl; omega
  long _ := rfl
  clean := clean_push h.clean hch

/-- A further byte of a line that is thrown away. -/
theorem ShellInput.Holds.discard (h : input.Holds segment) {ch : UInt8} (hs : SHELL_INPUT_SIZE ≤ segment.length)
    (hch : ch ≠ 0) : input.Holds (segment ++ [ch]) where
  buffer := h.buffer
  length := h.length
  short hl := by simp only [List.length_append, List.length_singleton] at hl; omega
  long _ := h.long hs
  clean := clean_push h.clean hch

end

/-! ### The simulation -/

/-- The session is at the frame `f`. -/
structure Framing (f : Frame) (s : Session) : Prop where
  input : s.input.Holds f.segment
  consumed : s.consumed = f.consumed
  actions : s.actions = f.actions

/-- The session has done what the frame `f` says; the input line may be in use. -/
structure Traced (f : Frame) (s : Session) : Prop where
  length : s.input.length < SHELL_INPUT_SIZE
  consumed : s.consumed = f.consumed
  actions : s.actions = f.actions

theorem Framing.traced {f : Frame} {s : Session} (h : Framing f s) : Traced f s :=
  ⟨h.input.length, h.consumed, h.actions⟩

/-- The last event dispatched a line. -/
def Dispatched (es : List InputEvent) : Prop :=
  ∃ front e line n, es = front ++ [e] ∧ (frame es).actions = (frame front).actions ++ [.parse line n]

/-- The last event was the byte that made the line too long. -/
def Refused (es : List InputEvent) : Prop :=
  ∃ front e n, es = front ++ [e] ∧ (frame es).actions = (frame front).actions ++ [.overlong n]

/-- A command has been dispatched that does not return. -/
def InCommand (s : Session) : Prop := ∃ cmd next w, shellCommand cmd next w = .blocked s.world

section

variable {α : Type} {parseLine : ParseLine} {s : Session} {es : List InputEvent}

theorem wp_liftSh {m : Sh α} {Q : α → Session → Prop} {R : Session → Prop}
    (h : Prog.wp m (fun a w => Q a { s with world := w }) (fun w => R { s with world := w }) s.world) :
    Prog.wp (liftSh m) Q R s := by
  unfold Prog.wp liftSh at *
  cases hm : m s.world with
  | done a w => rw [hm] at h; exact h
  | blocked w => rw [hm] at h; exact h

/-- `job_reap` and `job_cleanup_done` change the table only. -/
theorem wp_shellChild_ctx (w : World) {R : World → Prop} : Prog.wp shellChild (fun _ w' =>
    w'.ctx.running = w.ctx.running ∧ w'.ctx.lastExitStatus = w.ctx.lastExitStatus) R w := by
  unfold shellChild jobReap
  rw [Prog.wp_bind, Prog.wp_get_bind, Prog.wp_bind]
  refine Prog.wp_mono (@wp_mapList_watched _ (fun _ => R) (fun _ _ _ _ h => h) _ _ _ Keeps
    (fun _ _ _ _ hl h => h.mono hl) (wp_entries (fun _ _ _ _ h => h) wp_reapProcess) w.jobs w) ?_ (fun _ h => h)
  rintro jobs w' ⟨hw, -⟩
  have hrun : w'.ctx.running = w.ctx.running := by rw [hw.ctx]
  have hstatus : w'.ctx.lastExitStatus = w.ctx.lastExitStatus := by rw [hw.ctx]
  exact ⟨hrun, hstatus⟩

/-- **`shell_dispatch_input`** on a line that fits. -/
theorem wp_shellDispatchInput {segment : Bytes} (h : s.input.Holds segment) (hs : segment.length < SHELL_INPUT_SIZE)
    {f : Frame} (hseg : f.segment = []) (hcon : s.consumed = f.consumed)
    (hact : s.actions ++ [.parse (trimReturn segment) s.consumed] = f.actions) :
    Prog.wp (shellDispatchInput parseLine) (fun _ s' => Framing f s')
      (fun s' => Traced f s' ∧ InCommand s') s := by
  unfold shellDispatchInput
  simp only [Prog.wp_bind, Prog.wp_modify, Prog.wp_get, h.line hs]
  have done : ∀ w, Framing f { s with
      world := w
      input := shellResetInput (terminateInput s.input)
      actions := s.actions ++ [.parse (trimReturn segment) s.consumed] } := fun w =>
    ⟨hseg ▸ .reset ((terminateInput_buffer _).trans h.buffer), hcon, hact⟩
  refine wp_liftSh ?_
  rw [Prog.wp_modify]
  split
  · rename_i cmd next hparse
    rw [Prog.wp_bind]
    refine wp_liftSh ?_
    unfold Prog.wp
    split
    · exact done _
    · rename_i w hrun
      exact ⟨⟨lt_of_le_of_lt (terminateInput_length _) h.length, hcon, hact⟩, cmd, next, _, hrun⟩
  · exact done _

/-- The session is at the head of the loop, and `es` has been delivered. -/
structure AtLoop (es : List InputEvent) (s : Session) : Prop where
  framing : Framing (frame es) s
  running : s.world.ctx.running = false → Dispatched es
  status : Refused es → s.world.ctx.lastExitStatus = 2

/-- The last event dispatched a line and its command does not return. -/
structure Hung (es : List InputEvent) (s : Session) : Prop where
  traced : Traced (frame es) s
  dispatched : Dispatched es
  command : InCommand s

theorem Dispatched.not_refused (h : Dispatched es) : ¬ Refused es := by
  rintro ⟨front, e, n, rfl, hr⟩
  obtain ⟨front', e', line, n', heq, hd⟩ := h
  obtain ⟨rfl, -⟩ := List.append_inj' heq rfl
  rw [hr] at hd
  simp at hd

/-- An event that does nothing with a line. -/
theorem not_refused {e : InputEvent} (h : (frame (es ++ [e])).actions = (frame es).actions) :
    ¬ Refused (es ++ [e]) := by
  rintro ⟨front, e', n, heq, hr⟩
  obtain ⟨rfl, -⟩ := List.append_inj' heq rfl
  rw [h] at hr
  simp at hr

/-- An event that only changes the input line. -/
theorem AtLoop.next (hrun : s.world.ctx.running = true) {e : InputEvent} {s' : Session}
    (hw : s'.world = s.world) (hf : Framing (frame (es ++ [e])) s')
    (hact : (frame (es ++ [e])).actions = (frame es).actions) : AtLoop (es ++ [e]) s' where
  framing := hf
  running hn := by
    rw [hw, hrun] at hn
    cases hn
  status hr := absurd hr (not_refused hact)

/-- An event that dispatches a line. -/
theorem wp_dispatch {segment : Bytes} (h : s.input.Holds segment) (hs : segment.length < SHELL_INPUT_SIZE)
    {e : InputEvent} (hseg : (frame (es ++ [e])).segment = []) (hcon : s.consumed = (frame (es ++ [e])).consumed)
    (hact : s.actions = (frame es).actions)
    (hact' : (frame (es ++ [e])).actions = (frame es).actions ++ [.parse (trimReturn segment) s.consumed]) :
    Prog.wp (shellDispatchInput parseLine) (fun _ => AtLoop (es ++ [e])) (Hung (es ++ [e])) s := by
  have hd : Dispatched (es ++ [e]) := ⟨es, e, _, _, rfl, hact'⟩
  refine Prog.wp_mono (wp_shellDispatchInput h hs hseg hcon (by rw [hact, hact'])) (fun _ s' hf => ?_) ?_
  · exact ⟨hf, fun _ => hd, fun hr => absurd hr hd.not_refused⟩
  · exact fun s' hf => ⟨hf.1, hd, hf.2⟩

/-- **`shell_read_input` at the end of the file.** -/
theorem wp_shellReadInput_eof (h : AtLoop es s) (hrun : s.world.ctx.running = true) :
    Prog.wp (shellReadInput parseLine .eof) (fun out s' => out = (0, true, true) ∧ AtLoop (es ++ [.eof]) s')
      (Hung (es ++ [.eof])) s := by
  have hin := h.framing.input
  have hstep := frame_append es .eof
  simp only [Frame.step] at hstep
  unfold shellReadInput
  rw [Prog.wp_get_bind]
  dsimp only
  rw [Prog.wp_ite]
  constructor
  · rintro ⟨hd, hlen⟩
    have hs : (frame es).segment.length < SHELL_INPUT_SIZE := by
      by_contra hl
      exact hd (hin.long (by omega))
    have hne : (frame es).segment ≠ [] := by
      intro hnil
      have := (hin.short hs).2.1
      rw [hnil] at this
      simp only [List.length_nil] at this
      omega
    rw [Prog.wp_bind]
    refine Prog.wp_mono (wp_dispatch hin hs (by rw [hstep]) ?_ h.framing.actions ?_) (fun _ _ hf => ⟨rfl, hf⟩)
      (fun _ hf => hf)
    · rw [hstep, h.framing.consumed]
    · rw [hstep, h.framing.consumed]
      simp [hne, lineActions, hs]
  · intro hn
    have hact : (frame (es ++ [.eof])).actions = (frame es).actions := by
      rw [hstep]
      split
      · simp
      · rename_i hne
        -- a line that is not empty is here one that is thrown away
        have hl : ¬ (frame es).segment.length < SHELL_INPUT_SIZE := by
          intro hs
          obtain ⟨hd, hlen, -⟩ := hin.short hs
          have := List.length_pos_iff.mpr hne
          exact hn ⟨by simp [hd], by omega⟩
        simp [lineActions, hl]
    refine ⟨rfl, AtLoop.next hrun rfl ⟨?_, ?_, ?_⟩ hact⟩
    · rw [hstep]
      exact .reset hin.buffer
    · rw [hstep]
      exact h.framing.consumed
    · rw [hact]
      exact h.framing.actions

/-- **`shell_read_input` on a byte.** -/
theorem wp_shellReadInput_byte (h : AtLoop es s) (hrun : s.world.ctx.running = true) {ch : UInt8} (hch : ch ≠ 0) :
    Prog.wp (shellReadInput parseLine (.byte ch)) (fun out s' => (∃ lineDone, out = (0, lineDone, false)) ∧
      AtLoop (es ++ [.byte ch]) s') (Hung (es ++ [.byte ch])) s := by
  have hin := h.framing.input
  have hcon := h.framing.consumed
  have hstep := frame_append es (.byte ch)
  simp only [Frame.step] at hstep
  unfold shellReadInput
  rw [Prog.wp_modify_bind, Prog.wp_get_bind]
  dsimp only
  rw [Prog.wp_ite]
  constructor
  · intro hd
    have hl : SHELL_INPUT_SIZE ≤ (frame es).segment.length := by
      by_contra hs
      simp [(hin.short (by omega)).1] at hd
    rw [Prog.wp_ite]
    constructor
    · intro hnl
      rw [if_pos hnl, lineActions, if_neg (by omega)] at hstep
      refine ⟨⟨true, rfl⟩, AtLoop.next hrun rfl ⟨?_, ?_, ?_⟩ (by simp [hstep])⟩
      · rw [hstep]
        exact .reset hin.buffer
      · simp [hstep, hcon]
      · simp [hstep, h.framing.actions]
    · intro hnl
      rw [if_neg hnl, if_neg (by omega)] at hstep
      refine ⟨⟨false, rfl⟩, AtLoop.next hrun rfl ⟨?_, ?_, ?_⟩ (by simp [hstep])⟩
      · rw [hstep]
        exact hin.discard hl hch
      · simp [hstep, hcon]
      · simp [hstep, h.framing.actions]
  · intro hd
    have hs : (frame es).segment.length < SHELL_INPUT_SIZE := by
      by_contra hl
      exact hd (hin.long (by omega))
    rw [Prog.wp_ite]
    constructor
    · intro hnl
      rw [if_pos hnl, lineActions, if_pos hs] at hstep
      rw [Prog.wp_bind]
      have hin' : (Session.input { s with consumed := s.consumed + 1 }).Holds (frame es).segment := hin
      refine Prog.wp_mono (wp_dispatch hin' hs (by rw [hstep]) (by simp [hstep, hcon]) h.framing.actions
        (by simp [hstep, hcon])) (fun _ _ hf => ⟨⟨true, rfl⟩, hf⟩) (fun _ hf => hf)
    · intro hnl
      rw [if_neg hnl] at hstep
      rw [Prog.wp_ite]
      have hlen := (hin.short hs).2.1
      constructor
      · intro hfull
        -- the byte for which there is no room
        have hsize : (frame es).segment.length + 1 = SHELL_INPUT_SIZE := by omega
        rw [if_pos hsize] at hstep
        rw [Prog.wp_bind]
        refine wp_liftSh ?_
        refine ⟨⟨false, rfl⟩, ⟨?_, ?_, ?_⟩, fun hn => ?_, fun _ => rfl⟩
        · rw [hstep]
          exact hin.overflow (by omega) hch
        · simp [hstep, hcon]
        · simp [hstep, h.framing.actions, hcon]
        · simp [World.setExitStatus, hrun] at hn
      · intro hfull
        rw [if_neg (by omega)] at hstep
        refine ⟨⟨false, rfl⟩, AtLoop.next hrun rfl ⟨?_, ?_, ?_⟩ (by simp [hstep])⟩
        · rw [hstep]
          exact hin.push (by omega) hch
        · simp [hstep, hcon]
        · simp [hstep, h.framing.actions]

/-- What the loop is left with after the delivery of `es`, when it goes on or ends. -/
def LoopEnd (es : List InputEvent) (out : Option ShellStatus) (s : Session) : Prop :=
  match out with
  | none => AtLoop es s ∧ .eof ∉ es
  | some .ok => AtLoop es s ∧ ∃ front, es = front ++ [.eof] ∧ .eof ∉ front
  | some .error => False

/-- The input of an iteration. -/
theorem wp_shellInput (h : AtLoop es s) (hmore : .eof ∉ es) (hrun : s.world.ctx.running = true) {r : ReadRes}
    (hr : r.Sound) :
    Prog.wp (shellInput parseLine r) (LoopEnd (es ++ r.events))
      (fun s' => Hung (es ++ r.events) s' ∧ .eof ∉ (es ++ r.events).dropLast) s := by
  unfold shellInput
  rw [Prog.wp_bind]
  have prompt : ∀ {es' s'}, AtLoop es' s' → AtLoop es' { s' with prompt := true } := fun h =>
    ⟨⟨h.framing.input, h.framing.consumed, h.framing.actions⟩, h.running, h.status⟩
  cases r with
  | byte ch =>
    refine Prog.wp_mono (wp_shellReadInput_byte h hrun hr) ?_
      (fun s' hh => ⟨hh, by simpa [ReadRes.events] using hmore⟩)
    rintro - s' ⟨⟨lineDone, rfl⟩, hs'⟩
    have hmore' : .eof ∉ es ++ [.byte ch] := by simpa using hmore
    cases lineDone with
    | true => exact ⟨prompt hs', hmore'⟩
    | false => exact ⟨hs', hmore'⟩
  | eof =>
    refine Prog.wp_mono (wp_shellReadInput_eof h hrun) ?_
      (fun s' hh => ⟨hh, by simpa [ReadRes.events] using hmore⟩)
    rintro - s' ⟨rfl, hs'⟩
    exact ⟨prompt hs', es, rfl, hmore⟩
  | err e =>
    cases hr
    simp only [ReadRes.events, List.append_nil]
    exact ⟨h, hmore⟩

theorem AtLoop.child (h : AtLoop es s) {w : World} (hrun : w.ctx.running = true) :
    AtLoop (es ++ [.child]) { s with world := w } where
  framing := by
    rw [frame_append]
    exact ⟨h.framing.input, h.framing.consumed, h.framing.actions⟩
  running hn := by simp [hrun] at hn
  status hr := absurd hr (not_refused (by simp [frame_append, Frame.step]))

theorem AtLoop.interrupt (h : AtLoop es s) (hrun : s.world.ctx.running = true) (prompt : Bool) :
    AtLoop (es ++ [.interrupt]) { s with input := shellResetInput s.input, prompt := prompt } := by
  refine AtLoop.next hrun rfl ?_ (by simp [frame_append, Frame.step])
  rw [frame_append]
  exact ⟨.reset h.framing.input.buffer, h.framing.consumed, h.framing.actions⟩

/-- The events of an iteration. -/
theorem wp_shellEvents (h : AtLoop es s) (hmore : .eof ∉ es) (hrun : s.world.ctx.running = true) {e : EventRes}
    (he : e.Sound) {R : Session → Prop} :
    Prog.wp (shellEvents e) (fun out s' => out = none ∧ AtLoop (es ++ e.events) s' ∧ .eof ∉ es ++ e.events ∧
      s'.world.ctx.running = true) R s := by
  cases e with
  | drainFailed => exact absurd he id
  | taken child interrupt newlineWritten =>
    obtain rfl : newlineWritten = true := he
    have child_done : Prog.wp (liftSh shellChild) (fun _ s' => AtLoop (es ++ [.child]) s' ∧
        .eof ∉ es ++ [.child] ∧ s'.world.ctx.running = true) R s := by
      refine wp_liftSh (Prog.wp_mono (wp_shellChild_ctx s.world) ?_ (fun _ h => h))
      rintro _ w' ⟨hw, _⟩
      exact ⟨h.child (hw.trans hrun), by simpa using hmore, hw.trans hrun⟩
    unfold shellEvents
    cases child with
    | false =>
      cases interrupt with
      | false => simpa [EventRes.events] using ⟨h, hmore, hrun⟩
      | true => exact ⟨rfl, h.interrupt hrun true, by simpa [EventRes.events] using hmore, hrun⟩
    | true =>
      dsimp only
      rw [if_pos rfl, Prog.wp_bind]
      refine Prog.wp_mono child_done ?_ (fun _ h => h)
      rintro - s' ⟨h', hmore', hrun'⟩
      cases interrupt with
      | false => simpa [EventRes.events] using ⟨h', by simpa using hmore', hrun'⟩
      | true =>
        have := h'.interrupt hrun' true
        rw [List.append_assoc] at this
        exact ⟨rfl, this, by simpa [EventRes.events] using hmore, hrun'⟩

theorem shellSelect_ready (event : Option EventRes) (input : Option ReadRes) :
    shellSelect parseLine (.ready event input) = (do
      match ← event.elim (pure none) shellEvents with
      | some status => pure (some status)
      | none => do
        let s ← Prog.get
        if ¬ s.world.ctx.running then pure (some .ok)
        else
          match input with
          | none => pure none
          | some r => shellInput parseLine r) := by
  cases event <;> rfl

/-- **An iteration of the loop.** -/
theorem wp_shellRound (h : AtLoop es s) (hmore : .eof ∉ es) (hrun : s.world.ctx.running = true) {round : Round}
    (hr : round.Sound) :
    Prog.wp (shellRound parseLine round) (LoopEnd (es ++ round.events))
      (fun s' => Hung (es ++ round.events) s' ∧ .eof ∉ (es ++ round.events).dropLast) s := by
  unfold shellRound
  rw [Prog.wp_get_bind, if_neg (by simp [hr.prompt]), Prog.wp_modify_bind]
  have h₁ : AtLoop es { s with prompt := false } :=
    ⟨⟨h.framing.input, h.framing.consumed, h.framing.actions⟩, h.running, h.status⟩
  cases hsel : round.select with
  | err e =>
    obtain rfl := hr.select e hsel
    simp only [Round.events, hsel, List.append_nil]
    exact ⟨h₁, hmore⟩
  | ready event input =>
    have hev : Prog.wp (event.elim (pure none) shellEvents) (fun out s' => out = none ∧
          AtLoop (es ++ event.elim [] EventRes.events) s' ∧ .eof ∉ es ++ event.elim [] EventRes.events ∧
          s'.world.ctx.running = true) (fun s' => Hung (es ++ round.events) s' ∧
            .eof ∉ (es ++ round.events).dropLast)
        { s with prompt := false } := by
      cases event with
      | none => simpa using ⟨h₁, hmore, hrun⟩
      | some e => exact wp_shellEvents h₁ hmore hrun (hr.event e input hsel)
    rw [shellSelect_ready, Prog.wp_bind]
    refine Prog.wp_mono hev ?_ (fun _ h => h)
    rintro - s' ⟨rfl, h', hmore', hrun'⟩
    dsimp only
    rw [Prog.wp_get_bind, if_neg (by simp [hrun'])]
    simp only [Round.events, hsel, ← List.append_assoc]
    cases input with
    | none => simpa only [LoopEnd, Option.elim_none, List.append_nil] using ⟨h', hmore'⟩
    | some r => exact wp_shellInput h' hmore' hrun' (hr.input event r hsel)

/-- How the loop is left, or where it waits: the file has ended, a command has cleared `running`, the loop waits for
more, or a command does not return. -/
inductive LoopStop (handled rest : List InputEvent) : Outcome Session ShellStatus → Prop where
  | eof {front : List InputEvent} {s : Session} (h : handled = front ++ [.eof]) (hmore : .eof ∉ front) :
      LoopStop handled rest (.done .ok s)
  | exit {s : Session} (h : Dispatched handled) (hmore : .eof ∉ handled) (hrun : s.world.ctx.running = false) :
      LoopStop handled rest (.done .ok s)
  | select {s : Session} (h : rest = []) (hmore : .eof ∉ handled) (hrun : s.world.ctx.running = true) :
      LoopStop handled rest (.blocked s)
  | command {s : Session} (h : Dispatched handled) (hmore : .eof ∉ handled.dropLast) (hhung : InCommand s) :
      LoopStop handled rest (.blocked s)

theorem shellLoop_cons (round : Round) (rounds : List Round) (hrun : s.world.ctx.running = true) :
    shellLoop parseLine (round :: rounds) s = match shellRound parseLine round s with
      | .done (some status) s' => .done status s'
      | .done none s' => shellLoop parseLine rounds s'
      | .blocked s' => .blocked s' := by
  simp only [shellLoop, Prog.bind_apply, Prog.get, hrun, not_true_eq_false, if_false]
  cases shellRound parseLine round s with
  | blocked s' => rfl
  | done out s' => cases out <;> rfl

theorem shellLoop_exit (rounds : List Round) (hrun : s.world.ctx.running = false) :
    shellLoop parseLine rounds s = .done .ok s := by
  cases rounds <;> simp [shellLoop, Prog.bind_apply, Prog.get, hrun, Prog.pure_apply]

/-- **Where the loop stops**, from the head of the loop on. -/
theorem shellLoop_stops (rounds : List Round) :
    ∀ {es : List InputEvent} {s : Session}, AtLoop es s → .eof ∉ es →
    (∀ round ∈ rounds, round.Sound) → ∃ handled rest, es ++ rounds.flatMap Round.events =
    handled ++ rest ∧
      Traced (frame handled) (shellLoop parseLine rounds s).state ∧
      (Refused handled → (shellLoop parseLine rounds s).state.world.ctx.lastExitStatus = 2) ∧
      LoopStop handled rest (shellLoop parseLine rounds s) := by
  induction rounds with
  | nil =>
    intro es s h hmore _
    cases hrun : s.world.ctx.running with
    | false =>
      rw [shellLoop_exit _ hrun]
      exact ⟨es, [], rfl, h.framing.traced, h.status, .exit (h.running hrun) hmore hrun⟩
    | true =>
      have hloop : shellLoop parseLine [] s = .blocked s := by
        simp [shellLoop, Prog.bind_apply, Prog.get, hrun, Prog.block]
      rw [hloop]
      exact ⟨es, [], rfl, h.framing.traced, h.status, .select rfl hmore hrun⟩
  | cons round rounds ih =>
    intro es s h hmore hr
    cases hrun : s.world.ctx.running with
    | false =>
      rw [shellLoop_exit _ hrun]
      exact ⟨es, _, rfl, h.framing.traced, h.status, .exit (h.running hrun) hmore hrun⟩
    | true =>
      have hround := @wp_shellRound parseLine _ _ h hmore hrun _ (hr round List.mem_cons_self)
      rw [shellLoop_cons round rounds hrun, List.flatMap_cons, ← List.append_assoc]
      unfold Prog.wp at hround
      cases hout : shellRound parseLine round s with
      | blocked s' =>
        rw [hout] at hround
        obtain ⟨hhung, hmore'⟩ := hround
        exact ⟨_, _, rfl, hhung.traced, fun hrf => absurd hrf hhung.dispatched.not_refused,
          .command hhung.dispatched hmore' hhung.command⟩
      | done out s' =>
        rw [hout] at hround
        cases out with
        | none =>
          obtain ⟨h', hmore'⟩ := hround
          exact ih h' hmore' fun r hmem => hr r (List.mem_cons_of_mem _ hmem)
        | some status =>
          cases status with
          | error => exact absurd hround id
          | ok =>
            obtain ⟨h', front, hfront, hmore'⟩ := hround
            exact ⟨_, _, rfl, h'.framing.traced, h'.status, .eof hfront hmore'⟩

theorem Session.Started.atLoop (h : s.Started) : AtLoop [] s where
  framing := by
    refine ⟨⟨h.buffer, by simp [h.length, SHELL_INPUT_SIZE], fun _ => ⟨h.discarding, h.length, rfl⟩, ?_, ?_⟩, h.consumed,
      h.actions⟩
    · simp [frame, SHELL_INPUT_SIZE]
    · simp [frame]
  running hn := by simp [h.running] at hn
  status := by
    rintro ⟨front, e, n, heq, -⟩
    simp at heq

/-- **Input framing.**  The main loop handles the events it is given, in order, up to the point where it stops; it
does with them exactly what the reference does: the same lines are parsed and the same lines refused, each when the
same number of bytes has been read; the input line never holds more than 4095 bytes; and when the last event made a
line too long the exit status is 2.  It ends at the end of the file or when a command has cleared `running`. -/
theorem shellLoop_framed (parseLine : ParseLine) {s : Session} (h : s.Started) {rounds : List Round}
    (hr : ∀ round ∈ rounds, round.Sound) :
    ∃ handled rest, rounds.flatMap Round.events = handled ++ rest ∧
      Traced (frame handled) (shellLoop parseLine rounds s).state ∧
      (Refused handled → (shellLoop parseLine rounds s).state.world.ctx.lastExitStatus = 2) ∧
      LoopStop handled rest (shellLoop parseLine rounds s) :=
  shellLoop_stops rounds h.atLoop (by simp) hr

end

/-- A session that has just started. -/
def freshSession : Session where
  world := freshShell []
  input := { buffer := List.replicate SHELL_INPUT_SIZE 0, length := 0, discarding := false }
  prompt := true
  consumed := 0
  actions := []

theorem freshSession_started : freshSession.Started :=
  ⟨rfl, rfl, rfl, by simp [freshSession], rfl, rfl, rfl, rfl, rfl⟩

/-- One event in an iteration of its own. -/
def inputRound (r : ReadRes) : Round := ⟨true, .ready none (some r)⟩

/-- A line in two parts, with the end of a child between them. -/
def fragmentedRounds : List Round :=
  [inputRound (.byte 97), ⟨true, .ready (some (.taken true false true)) none⟩, inputRound (.byte 98),
    inputRound (.byte carriageReturn), inputRound (.byte newline), inputRound .eof]

/-- A `parse_line` that makes nothing of any line. -/
def ignoreLine : ParseLine := fun _ s => (none, s.world.ctx.lastExitStatus)

/-- The reference parses the line once, as a whole, when its four bytes have been read, and so does the loop. -/
theorem fragmentedRounds_framed : (frame (fragmentedRounds.flatMap Round.events)).actions = [.parse [97, 98] 4] ∧
    ∃ handled rest, fragmentedRounds.flatMap Round.events = handled ++ rest ∧
      (shellLoop ignoreLine fragmentedRounds freshSession).state.actions = (frame handled).actions := by
  refine ⟨by decide, ?_⟩
  have sound : ∀ round ∈ fragmentedRounds, round.Sound := by
    intro round hmem
    simp only [fragmentedRounds, List.mem_cons, List.not_mem_nil, or_false] at hmem
    rcases hmem with rfl | rfl | rfl | rfl | rfl | rfl <;> constructor <;>
      simp [inputRound, EventRes.Sound, ReadRes.Sound, carriageReturn, newline]
  obtain ⟨handled, rest, hsplit, htraced, -, -⟩ := shellLoop_framed ignoreLine freshSession_started sound
  exact ⟨handled, rest, hsplit, htraced.actions⟩

end MiniShell
