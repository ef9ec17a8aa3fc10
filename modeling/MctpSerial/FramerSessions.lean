import MctpSerial.SendNeighbours

/-!
# Sessions of one framer object

`open`, `openFd` and `close` manage the descriptors, the receive thread and the
`running` flag of a framer. None of them touches the receive fields, so the state
machine of a session starts where the previous one was cut off. `Rx.Idle` is the
exact condition under which the next session does not notice. A session reads nothing at
all if its epoll instance cannot be made or does not take the serial descriptor, which
neither way of opening looks at.
-/
namespace MctpSerial
open StreamTransducers

/-- The framer object. A descriptor field holds a negative number when it is unset;
`recvThread` says whether the thread object is joinable, `terminated` whether a
joinable thread was overwritten, which ends the process, and `watched` whether the epoll
instance has the serial descriptor in its set. -/
structure MctpFramer where
  rx : MctpFramer.Rx
  serialFd : ℤ
  running : Bool
  recvThread : Bool
  terminated : Bool
  pipeFds : ℤ × ℤ
  intrPipeFds : ℤ × ℤ
  readyFdDup : ℤ
  epollFd : ℤ
  watched : Bool
  deriving DecidableEq

namespace MctpFramer

/-- The constructor. -/
def init : MctpFramer :=
  ⟨Rx.init, -1, false, false, false, (-1, -1), (-1, -1), -1, -1, false⟩

/-- The results of the system calls that an `open` makes. `serial` is the result of
`::open(dev_path)` or of `::dup(fd)`; a failed call returns no descriptor. `epollAdd` is that
of `EPOLL_CTL_ADD` for the serial descriptor. -/
structure OpenCalls where
  socketpair : Option (ℕ × ℕ)
  pipe : Option (ℕ × ℕ)
  serial : Option ℕ
  tcgetattr : Bool
  tcsetattr : Bool
  dup : Option ℕ
  epollCreate : Option ℕ
  epollAdd : Bool

/-- A descriptor as the `int` the call returns. -/
def fdOf (o : Option ℕ) : ℤ := o.elim (-1) fun n => n

/-- The packet socket pair and the interrupt pipe, unless a previous call left them
behind. The flag tells whether to go on. -/
def openPipes (f : MctpFramer) (os : OpenCalls) : MctpFramer × Bool :=
  let paired : MctpFramer × Bool :=
    if f.pipeFds.1 < 0 then
      match os.socketpair with
      | none => (f, false)
      | some (a, b) => ({ f with pipeFds := (a, b) }, true)
    else (f, true)
  if paired.2 && decide (paired.1.intrPipeFds.1 < 0) then
    match os.pipe with
    | none => ({ paired.1 with pipeFds := (-1, -1) }, false)
    | some (a, b) => ({ paired.1 with intrPipeFds := (a, b) }, true)
  else paired

/-- The common end of `open` and `openFd`: ready descriptor, epoll, thread. Whatever fails
here is passed over. -/
def startSession (f : MctpFramer) (os : OpenCalls) : MctpFramer × ℤ :=
  let readyFdDup := if f.readyFdDup < 0 ∧ f.pipeFds.1 ≥ 0 then fdOf os.dup else f.readyFdDup
  let epollFd := if f.epollFd < 0 then fdOf os.epollCreate else f.epollFd
  ({ f with
      readyFdDup := readyFdDup
      epollFd := epollFd
      watched := decide (0 ≤ epollFd) && os.epollAdd
      running := true
      terminated := f.terminated || f.recvThread
      recvThread := true },
    if readyFdDup ≥ 0 then readyFdDup else f.pipeFds.1)

/-- `open(dev_path, ..)`. A device that does not open is reported by `return false`. -/
def openPath (f : MctpFramer) (os : OpenCalls) : MctpFramer × ℤ :=
  if f.serialFd > 0 then (f, -1)
  else
    let (f, ok) := f.openPipes os
    if !ok then (f, -1)
    else
      let f := { f with serialFd := fdOf os.serial, watched := false }
      if f.serialFd < 0 then (f, 0)
      else if !os.tcgetattr then ({ f with serialFd := -1 }, -1)
      else if !os.tcsetattr then ({ f with serialFd := -1 }, -1)
      else f.startSession os

def openFd (f : MctpFramer) (fd : ℤ) (os : OpenCalls) : MctpFramer × ℤ :=
  if f.serialFd > 0 then (f, -1)
  else if fd < 0 then (f, -1)
  else
    let (f, ok) := f.openPipes os
    if !ok then (f, -1)
    else
      let dupfd := fdOf os.serial
      if dupfd < 0 then (f, -1)
      else startSession { f with serialFd := dupfd } os

/-- The thread is joined only if the session was running. -/
def close (f : MctpFramer) : MctpFramer :=
  { f with
    running := false
    recvThread := f.recvThread && !f.running
    serialFd := -1
    epollFd := -1
    watched := false
    readyFdDup := -1
    pipeFds := (-1, -1)
    intrPipeFds := (-1, -1) }

/-- The receive thread comes to read the serial descriptor: `run` ends at once without an
epoll instance, and waits for nothing but what is in its set. -/
def Receives (f : MctpFramer) : Prop :=
  f.running = true ∧ f.recvThread = true ∧ 0 ≤ f.epollFd ∧ f.watched = true

instance (f : MctpFramer) : Decidable f.Receives := inferInstanceAs (Decidable (_ ∧ _ ∧ _ ∧ _))

/-- The receive thread consumes the bytes of the serial descriptor while it reads there. -/
def receiveBytes (f : MctpFramer) (bytes : List Byte) : MctpFramer :=
  if f.Receives then { f with rx := run updateRxFSM f.rx bytes } else f

/-- The packets a session hands to the packet socket for the bytes it receives. -/
def sessionPackets (f : MctpFramer) (bytes : List Byte) : List Packet :=
  if f.Receives then delivered f.rx bytes else []

/-- Either way to open a framer. -/
inductive OpenCall where
  | openPath
  | openFd (fd : ℤ)
  deriving DecidableEq

def OpenCall.apply : OpenCall → MctpFramer → OpenCalls → MctpFramer × ℤ
  | .openPath, f, os => f.openPath os
  | .openFd fd, f, os => f.openFd fd os

/-- The call succeeded, as far as its result and the framer tell. -/
def Opened (r : MctpFramer × ℤ) : Prop := 0 ≤ r.2 ∧ r.1.running = true

instance (r : MctpFramer × ℤ) : Decidable (Opened r) :=
  inferInstanceAs (Decidable (_ ∧ _))

/-- An epoll instance can be made and takes the serial descriptor. -/
def OpenCalls.Registers (os : OpenCalls) : Prop := os.epollCreate ≠ none ∧ os.epollAdd = true

instance (os : OpenCalls) : Decidable os.Registers := inferInstanceAs (Decidable (_ ∧ _))

/-- `openPipes` touches nothing but the pipes. -/
theorem openPipes_frame (f : MctpFramer) (os : OpenCalls) : (f.openPipes os).1 =
    { f with
      pipeFds := (f.openPipes os).1.pipeFds
      intrPipeFds := (f.openPipes os).1.intrPipeFds } := by
  rw [openPipes]
  dsimp only
  repeat' split
  all_goals rfl

@[simp] theorem rx_openPipes (f : MctpFramer) (os : OpenCalls) : (f.openPipes os).1.rx = f.rx := by
  rw [openPipes_frame]

theorem fdOf_nonneg_iff {o : Option ℕ} : 0 ≤ fdOf o ↔ o ≠ none := by
  cases o with
  | none => simp [fdOf]
  | some n => simp [fdOf]

@[simp] theorem rx_startSession (f : MctpFramer) (os : OpenCalls) :
    (f.startSession os).1.rx = f.rx := rfl

@[simp] theorem rx_close (f : MctpFramer) : f.close.rx = f.rx := rfl

/-- No way of opening a framer touches its receive fields. -/
theorem rx_apply (call : OpenCall) (f : MctpFramer) (os : OpenCalls) :
    (call.apply f os).1.rx = f.rx := by
  cases call with
  | openPath =>
    simp only [OpenCall.apply, openPath]
    repeat' split
    all_goals simp
  | openFd fd =>
    simp only [OpenCall.apply, openFd]
    repeat' split
    all_goals simp

/-! ## Reception -/

/-- The thread that a call starts reads, unless an epoll call fails. -/
theorem startSession_receives {f : MctpFramer} {os : OpenCalls} (h : os.Registers) :
    (f.startSession os).1.Receives := by
  have hepoll : 0 ≤ (f.startSession os).1.epollFd := by
    simp only [startSession]
    split
    next => exact fdOf_nonneg_iff.mpr h.1
    next hnonneg => exact not_lt.mp hnonneg
  refine ⟨rfl, rfl, hepoll, ?_⟩
  exact Bool.and_eq_true_iff.mpr ⟨decide_eq_true hepoll, h.2⟩

theorem startSession_receives_iff {f : MctpFramer} {os : OpenCalls} (hepoll : f.epollFd < 0) :
    (f.startSession os).1.Receives ↔ os.Registers := by
  refine ⟨fun h => ?_, startSession_receives⟩
  obtain ⟨-, -, hnonneg, hwatched⟩ := h
  have hcreated : (f.startSession os).1.epollFd = fdOf os.epollCreate := if_pos hepoll
  rw [hcreated] at hnonneg
  exact ⟨fdOf_nonneg_iff.mp hnonneg, (Bool.and_eq_true_iff.mp hwatched).2⟩

/-- A framer that was not running can only have been opened to the end. -/
theorem apply_starts {call : OpenCall} {f : MctpFramer} {os : OpenCalls}
    (hstop : f.running = false) (h : Opened (call.apply f os)) :
    ∃ g : MctpFramer, g.epollFd = f.epollFd ∧ call.apply f os = g.startSession os := by
  have hstill {g : MctpFramer} {v : ℤ} (hg : g.running = f.running) (h : Opened (g, v)) : False :=
    absurd (hg.symm.trans h.2) (by rw [hstop]; decide)
  have hrunning : (f.openPipes os).1.running = f.running := by rw [openPipes_frame]
  have hepoll : (f.openPipes os).1.epollFd = f.epollFd := by rw [openPipes_frame]
  cases call with
  | openPath =>
    simp only [OpenCall.apply, openPath] at h ⊢
    split at h
    next => exact (hstill rfl h).elim
    next hbusy =>
      rw [if_neg hbusy]
      split at h
      next => exact (hstill hrunning h).elim
      next hpipes =>
        rw [if_neg hpipes]
        split at h
        next => exact (hstill hrunning h).elim
        next hserial =>
          rw [if_neg hserial]
          split at h
          next => exact (hstill hrunning h).elim
          next hget =>
            rw [if_neg hget]
            split at h
            next => exact (hstill hrunning h).elim
            next hset =>
              rw [if_neg hset]
              exact ⟨{ (f.openPipes os).1 with serialFd := fdOf os.serial, watched := false }, hepoll,
                rfl⟩
  | openFd fd =>
    simp only [OpenCall.apply, openFd] at h ⊢
    split at h
    next => exact (hstill rfl h).elim
    next hbusy =>
      rw [if_neg hbusy]
      split at h
      next => exact (hstill rfl h).elim
      next hneg =>
        rw [if_neg hneg]
        split at h
        next => exact (hstill hrunning h).elim
        next hpipes =>
          rw [if_neg hpipes]
          split at h
          next => exact (hstill hrunning h).elim
          next hdup =>
            rw [if_neg hdup]
            exact ⟨{ (f.openPipes os).1 with serialFd := fdOf os.serial }, hepoll, rfl⟩

/-- A session opened on a framer at rest reads exactly if its epoll calls succeed. -/
theorem opened_receives_iff {call : OpenCall} {f : MctpFramer} {os : OpenCalls}
    (hstop : f.running = false) (hepoll : f.epollFd < 0) (h : Opened (call.apply f os)) :
    (call.apply f os).1.Receives ↔ os.Registers := by
  obtain ⟨g, hg, hstart⟩ := apply_starts hstop h
  rw [hstart]
  exact startSession_receives_iff (hg ▸ hepoll)

theorem sessionPackets_opened {call : OpenCall} {f : MctpFramer} {os : OpenCalls}
    (hstop : f.running = false) (hepoll : f.epollFd < 0) (h : Opened (call.apply f os))
    (y : List Byte) :
    sessionPackets (call.apply f os).1 y = if os.Registers then delivered f.rx y else [] := by
  simp only [sessionPackets, opened_receives_iff hstop hepoll h, rx_apply]

/-! ## What the next session notices -/

/-- States that answer every stream alike: idle ones, and those that differ in a
counter which the header is about to overwrite. -/
inductive Alike : Rx → Rx → Prop
  | idle {s t : Rx} (hs : s.Idle) (ht : t.Idle) : Alike s t
  | header1 (rx : List Byte) (k k' : ℤ) : Alike ⟨.header1, rx, k⟩ ⟨.header1, rx, k'⟩
  | header2 (rx : List Byte) (k k' : ℤ) : Alike ⟨.header2, rx, k⟩ ⟨.header2, rx, k'⟩
  | same (s : Rx) : Alike s s

theorem Alike.step {s t : Rx} (h : Alike s t) (b : Byte) :
    (updateRxFSM s b).2 = (updateRxFSM t b).2 ∧
      Alike (updateRxFSM s b).1 (updateRxFSM t b).1 := by
  cases h with
  | idle hs ht =>
    by_cases hb : b = frameChar
    · subst hb
      rw [updateRxFSM_flag hs.inStep, updateRxFSM_flag ht.inStep]
      exact ⟨rfl, .header1 [frameChar] _ _⟩
    · obtain ⟨hs', hsq⟩ := hs.step hb
      obtain ⟨ht', htq⟩ := ht.step hb
      exact ⟨hsq.trans htq.symm, .idle hs' ht'⟩
  | header1 rx k k' => exact ⟨rfl, .header2 (rx ++ [b]) k k'⟩
  | header2 rx k k' => exact ⟨rfl, .same _⟩
  | same s => exact ⟨rfl, .same _⟩

theorem delivered_of_idle {s : Rx} (h : s.Idle) (y : List Byte) :
    delivered s y = delivered Rx.init y := by
  have hinit : Rx.init.Idle := Or.inl rfl
  rw [delivered, delivered, emitted, emitted,
    trace_eq_of_simulation Alike (fun _ _ b h => h.step b) (.idle h hinit) y]

/-- Filler without a flag that completes the announced payload. -/
theorem body_filler (rx : List Byte) {k : ℤ} (hk : 0 < k) :
    ∃ g t, frameChar ∉ g ∧ t.rxState = .fcs1 ∧ Silent updateRxFSM ⟨.body, rx, k⟩ g t := by
  obtain ⟨n, rfl⟩ := Int.eq_ofNat_of_zero_le hk.le
  have hne : List.replicate n (0 : Byte) ≠ [] := by
    simp only [ne_eq, List.replicate_eq_nil_iff]
    omega
  have hrun := body_run rx n (List.replicate n 0) hne (Or.inl (by simp))
  rw [List.length_replicate, sub_self, bodyPhase, if_pos rfl] at hrun
  exact ⟨_, _, frameChar_notMem_esc _, rfl, hrun⟩

theorem escape_filler (rx : List Byte) {k : ℤ} (hk : 0 < k) :
    ∃ g t, frameChar ∉ g ∧ t.rxState = .fcs1 ∧ Silent updateRxFSM ⟨.escape, rx, k⟩ g t := by
  have hstep : updateRxFSM ⟨.escape, rx, k⟩ (escapeChar - 0x20#8) =
      ((⟨.escape, rx, k⟩ : Rx).pushBody escapeChar, none) := rfl
  by_cases h1 : k - 1 = 0
  · refine ⟨[escapeChar - 0x20#8], _, by decide, ?_, .single hstep⟩
    simp [Rx.pushBody, h1]
  · obtain ⟨g, t, hg, ht, hr⟩ := body_filler (rx ++ [escapeChar]) (k := k - 1) (by omega)
    refine ⟨(escapeChar - 0x20#8) :: g, t, ?_, ht, .cons hstep ?_⟩
    · simpa [show frameChar ≠ escapeChar - 0x20#8 by decide] using hg
    · simpa [Rx.pushBody, h1] using hr

/-- A state that is not idle is told from a fresh receiver by some stream. -/
theorem exists_separating {s : Rx} (h : ¬ s.Idle) : ∃ y, delivered s y ≠ delivered Rx.init y := by
  have lost {t : Rx} (ht : ¬ t.InStep) {g : List Byte} (hg : frameChar ∉ g)
      (hr : Silent updateRxFSM s g t) : ∃ y, delivered s y ≠ delivered Rx.init y := by
    obtain ⟨c, hc, hne⟩ := exists_lost_probe ht
    have hfresh := waiting_gap (s := Rx.init) rfl hg
    obtain ⟨_, _, _, hdel⟩ := buildWire_run (s := Rx.init) (.waiting rfl) hc
    refine ⟨g ++ buildWire c, ?_⟩
    rw [delivered, delivered, emitted_append, emitted_append, hr.emitted_eq, hfresh.emitted_eq,
      hr.2, hfresh.2, ← delivered, ← delivered, hdel]
    exact hne
  by_cases hs : s.InStep
  · obtain ⟨st, rx, k⟩ := s
    have hk : st = .waitingForSync ∨ 0 < k := by
      by_contra hcon
      obtain ⟨hst, hle⟩ := not_or.mp hcon
      rcases hs with hs | hs | hs
      · exact hst hs
      · exact h (Or.inr ⟨Or.inl hs, not_lt.mp hle⟩)
      · exact h (Or.inr ⟨Or.inr hs, not_lt.mp hle⟩)
    rcases hs with hs | hs | hs
    · exact absurd (Or.inl hs) h
    · cases hs
      obtain ⟨g, t, hg, ht, hr⟩ := body_filler rx (hk.resolve_left (by simp))
      exact lost (by simp [Rx.InStep, ht]) hg hr
    · cases hs
      obtain ⟨g, t, hg, ht, hr⟩ := escape_filler rx (hk.resolve_left (by simp))
      exact lost (by simp [Rx.InStep, ht]) hg hr
  · exact lost hs (g := []) (by simp) (.nil s)

/-- From every state some bytes lead to one in which a flag starts a frame. -/
theorem exists_run_inStep (s : Rx) : ∃ g, (run updateRxFSM s g).InStep := by
  obtain ⟨st, rx, k⟩ := s
  cases st with
  | waitingForSync => exact ⟨[], Or.inl rfl⟩
  | body => exact ⟨[], Or.inr (Or.inl rfl)⟩
  | escape => exact ⟨[], Or.inr (Or.inr rfl)⟩
  | header1 => exact ⟨[0, 0], Or.inr (Or.inl rfl)⟩
  | header2 => exact ⟨[0], Or.inr (Or.inl rfl)⟩
  | fcs1 => exact ⟨[0, 0, 0], Or.inl rfl⟩
  | fcs2 => exact ⟨[0, 0], Or.inl rfl⟩
  | endFlag => exact ⟨[0], Or.inl rfl⟩

/-- No state is deaf to every stream. -/
theorem exists_delivered (s : Rx) : ∃ y, delivered s y ≠ [] := by
  obtain ⟨g, hg⟩ := exists_run_inStep s
  obtain ⟨_, _, _, hdel⟩ := buildWire_run hg (by decide : Sendable probe)
  refine ⟨g ++ buildWire probe, ?_⟩
  rw [delivered, emitted_append, ← delivered, ← delivered, hdel]
  exact List.append_ne_nil_of_right_ne_nil _ (List.cons_ne_nil _ _)

/-- A session delivers what a fresh framer would, whatever it receives, exactly when its epoll
calls come out like those of the fresh framer and, if they succeed, the session before it was
closed on an idle receiver. -/
theorem sessions_isolated_iff (f : MctpFramer) (first second fresh : OpenCall)
    (os os' os'' : OpenCalls) (x : List Byte)
    (h : Opened (second.apply ((first.apply f os).1.receiveBytes x).close os'))
    (h' : Opened (fresh.apply init os'')) :
    (∀ y, sessionPackets (second.apply ((first.apply f os).1.receiveBytes x).close os').1 y =
        sessionPackets (fresh.apply init os'').1 y) ↔
      (os'.Registers ↔ os''.Registers) ∧
        (os'.Registers → ((first.apply f os).1.receiveBytes x).rx.Idle) := by
  have hsecond := sessionPackets_opened (rfl : (close _).running = false)
    (by decide : (-1 : ℤ) < 0) h
  have hfresh := sessionPackets_opened (rfl : init.running = false)
    (by decide : (-1 : ℤ) < 0) h'
  simp only [hsecond, hfresh, rx_close]
  generalize ((first.apply f os).1.receiveBytes x).rx = s
  by_cases hreg : os'.Registers <;> by_cases hreg' : os''.Registers <;>
    simp only [hreg, hreg', if_true, if_false, iff_self, iff_false, false_iff, true_and, not_true,
      false_and, forall_const, IsEmpty.forall_iff, and_true]
  · -- Both threads read: the sessions differ exactly in the state they start from.
    constructor
    · intro heq
      by_contra hidle
      obtain ⟨y, hy⟩ := exists_separating hidle
      exact hy (heq y)
    · intro hidle y
      exact delivered_of_idle hidle y
  · -- Only the second session reads, and some bytes are delivered from every state.
    intro heq
    obtain ⟨y, hy⟩ := exists_delivered s
    exact hy (heq y)
  · -- Only the fresh session reads.
    intro heq
    obtain ⟨y, hy⟩ := exists_delivered Rx.init
    exact hy (heq y).symm

/-- System calls that all succeed. -/
def goodCalls : OpenCalls :=
  ⟨some (4, 5), some (6, 7), some 8, true, true, some 9, some 10, true⟩

/-- An epoll instance cannot be made. -/
def noEpoll : OpenCalls := { goodCalls with epollCreate := none }

theorem sessions_isolated_after_noise :
    Opened ((OpenCall.openFd 3).apply init goodCalls) ∧
    ∀ y, sessionPackets (OpenCall.openPath.apply
        (((OpenCall.openFd 3).apply init goodCalls).1.receiveBytes [0x55]).close goodCalls).1 y =
      sessionPackets ((OpenCall.openFd 3).apply init goodCalls).1 y := by
  have h : Opened (OpenCall.openPath.apply
      (((OpenCall.openFd 3).apply init goodCalls).1.receiveBytes [0x55]).close goodCalls) := by
    decide
  have h' : Opened ((OpenCall.openFd 3).apply init goodCalls) := by decide
  exact ⟨h', (sessions_isolated_iff init (.openFd 3) .openPath (.openFd 3) goodCalls goodCalls
    goodCalls [0x55] h h').mpr (by decide)⟩

/-- A first session cut off after one flag swallows the first frame of the next, and a session
without an epoll instance is opened like any other and delivers nothing. -/
theorem sessions_not_isolated :
    Opened ((OpenCall.openFd 3).apply init goodCalls) ∧
    Opened ((OpenCall.openFd 3).apply
      (((OpenCall.openFd 3).apply init goodCalls).1.receiveBytes [frameChar]).close goodCalls) ∧
    sessionPackets ((OpenCall.openFd 3).apply init goodCalls).1 (buildWire probe) = [probe] ∧
    sessionPackets ((OpenCall.openFd 3).apply
      (((OpenCall.openFd 3).apply init goodCalls).1.receiveBytes [frameChar]).close
        goodCalls).1 (buildWire probe) = [] ∧
    Opened ((OpenCall.openFd 3).apply
      (((OpenCall.openFd 3).apply init goodCalls).1.receiveBytes []).close noEpoll) ∧
    sessionPackets ((OpenCall.openFd 3).apply
      (((OpenCall.openFd 3).apply init goodCalls).1.receiveBytes []).close noEpoll).1
        (buildWire probe) = [] := by
  refine ⟨by decide, by decide, by decide +kernel, by decide +kernel, by decide, by decide +kernel⟩

end MctpFramer
end MctpSerial
