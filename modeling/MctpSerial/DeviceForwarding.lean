import MctpSerial.HotPlug

/-!
# Bytes between the PTY and the physical tty

A period lasts from one assignment of `phys_fd` to the next. In each direction its bytes
are read in chunks, and a chunk is written by a loop that keeps its position over partial
writes and retries. Between two events nothing is outstanding: a chunk that could not be
written completely has ended the period.
-/
namespace MctpSerial
open MctpFramer DescriptorLedgers GuardedRuns

namespace Traffic

/-- In both directions the bytes written are the first ones read. -/
def Ordered (T : Traffic) : Prop := T.toPhys <+: T.fromPty ∧ T.toPty <+: T.fromPhys

/-- In both directions everything read has been written. -/
def Complete (T : Traffic) : Prop := T.toPhys = T.fromPty ∧ T.toPty = T.fromPhys

/-- A chunk from the PTY of which `w` was written. -/
def addPty (T : Traffic) (chunk w : List Byte) : Traffic :=
  { T with fromPty := T.fromPty ++ chunk, toPhys := T.toPhys ++ w }

/-- A chunk from the physical tty of which `w` was written. -/
def addPhys (T : Traffic) (chunk w : List Byte) : Traffic :=
  { T with fromPhys := T.fromPhys ++ chunk, toPty := T.toPty ++ w }

variable {T : Traffic} {chunk w : List Byte}

theorem complete_none : Traffic.none.Complete := ⟨rfl, rfl⟩

theorem Complete.ordered (h : T.Complete) : T.Ordered :=
  ⟨h.1 ▸ List.prefix_rfl, h.2 ▸ List.prefix_rfl⟩

theorem Complete.addPty (h : T.Complete) : (T.addPty chunk chunk).Complete :=
  ⟨congrArg (· ++ chunk) h.1, h.2⟩

theorem Complete.addPhys (h : T.Complete) : (T.addPhys chunk chunk).Complete :=
  ⟨h.1, congrArg (· ++ chunk) h.2⟩

theorem Complete.ordered_addPty (h : T.Complete) (hw : w <+: chunk) :
    (T.addPty chunk w).Ordered := by
  refine ⟨?_, h.ordered.2⟩
  rw [Traffic.addPty, h.1]
  exact (List.prefix_append_right_inj _).mpr hw

theorem Complete.ordered_addPhys (h : T.Complete) (hw : w <+: chunk) :
    (T.addPhys chunk w).Ordered := by
  refine ⟨h.ordered.1, ?_⟩
  rw [Traffic.addPhys, h.2]
  exact (List.prefix_append_right_inj _).mpr hw

end Traffic

namespace ManagedUsbTty

/-- What the write loop has written after some outcomes, whether it is done or not. -/
def writtenBy : List TtyWrite → List Byte → List Byte
  | _, [] => []
  | [], _ :: _ => []
  | .accepted more :: os, buf => buf.take (more + 1) ++ writtenBy os (buf.drop (more + 1))
  | .zero :: os, buf => writtenBy os buf
  | .again :: os, buf => writtenBy os buf
  | .failed :: _, _ => []

theorem writtenBy_prefix_buf (os : List TtyWrite) (buf : List Byte) : writtenBy os buf <+: buf := by
  fun_induction writtenBy os buf with
  | case1 => exact List.prefix_rfl
  | case2 b bs => exact List.nil_prefix
  | case3 more os buf hne ih =>
    have hcat := (List.prefix_append_right_inj (buf.take (more + 1))).mpr ih
    rwa [List.take_append_drop] at hcat
  | case4 os buf hne ih => exact ih
  | case5 os buf hne ih => exact ih
  | case6 os buf hne => exact List.nil_prefix

/-- A loop that is done has written the whole buffer, or stopped at an error. -/
theorem writeLoop_eq {os : List TtyWrite} {buf w : List Byte} {ok : Bool}
    (h : writeLoop os buf = some (w, ok)) : w = writtenBy os buf ∧ (ok = true → w = buf) := by
  fun_induction writeLoop os buf generalizing w with
  | case1 os =>
    cases h
    exact ⟨by rw [writtenBy], fun _ => rfl⟩
  | case2 b bs => cases h
  | case3 more os buf hne ih =>
    obtain ⟨⟨v, ok'⟩, hv, hvw⟩ := Option.map_eq_some_iff.mp h
    obtain ⟨rfl, rfl⟩ := Prod.mk.inj hvw
    obtain ⟨hwritten, hall⟩ := ih hv
    refine ⟨?_, fun hok => ?_⟩
    · rw [writtenBy.eq_3 _ _ _ hne, hwritten]
    · rw [hall hok, List.take_append_drop]
  | case4 os buf hne ih =>
    rw [writtenBy.eq_4 _ _ hne]
    exact ih h
  | case5 os buf hne ih =>
    rw [writtenBy.eq_5 _ _ hne]
    exact ih h
  | case6 os buf hne =>
    cases h
    exact ⟨by rw [writtenBy.eq_6 _ _ hne], nofun⟩

/-- What a step does to the traffic. A period ends with a new assignment of `phys_fd`,
possibly in the middle of a chunk. -/
inductive Flows (s t : ManagedUsbTty) : Prop
  | keep (hp : t.physFd = s.physFd) (hT : t.traffic = s.traffic) (he : t.ended = s.ended)
  | toPhys (chunk : List Byte) (hp : t.physFd = s.physFd) (hT : t.traffic = s.traffic.addPty chunk chunk)
      (he : t.ended = s.ended)
  | toPty (chunk : List Byte) (hp : t.physFd = s.physFd) (hT : t.traffic = s.traffic.addPhys chunk chunk)
      (he : t.ended = s.ended)
  | ends (T : Traffic) (hT : t.traffic = .none) (he : t.ended = s.ended ++ [T])
      (hlast : T = s.traffic ∨ ∃ chunk w, w <+: chunk ∧
        (T = s.traffic.addPty chunk w ∨ T = s.traffic.addPhys chunk w))

section Steps

variable {s t : ManagedUsbTty} {l : Label}

theorem Flows.handlePty {r : TtyRead} {os : List TtyWrite} (h : s.handlePty r os = some t) :
    Flows s t := by
  obtain rfl | ⟨-, w, ok, hw, u, rfl, rfl⟩ := handlePty_cases h
  · exact .keep rfl rfl rfl
  · obtain ⟨hwritten, hall⟩ := writeLoop_eq hw
    cases ok with
    | true =>
      rw [hall rfl]
      exact .toPhys r.received rfl rfl rfl
    | false =>
      refine .ends (s.traffic.addPty r.received w) rfl rfl (Or.inr ⟨r.received, w, ?_, Or.inl rfl⟩)
      rw [hwritten]
      exact writtenBy_prefix_buf os r.received

theorem Flows.handlePhys {r : TtyRead} {os : List TtyWrite} (h : s.handlePhys r os = some t) :
    Flows s t := by
  obtain ⟨-, w, ok, hw, u, rfl, rfl⟩ | ⟨-, rfl⟩ := handlePhys_cases h
  · obtain ⟨hwritten, hall⟩ := writeLoop_eq hw
    cases ok with
    | true =>
      rw [hall rfl]
      exact .toPty r.received rfl rfl rfl
    | false =>
      refine .ends (s.traffic.addPhys r.received w) rfl rfl (Or.inr ⟨r.received, w, ?_, Or.inr rfl⟩)
      rw [hwritten]
      exact writtenBy_prefix_buf os r.received
  · split
    · exact .keep rfl rfl rfl
    · exact .ends s.traffic rfl rfl (Or.inl rfl)

theorem Flows.handleUdev (s : ManagedUsbTty) (dev : Option UdevDevice) (os : AttachCalls) :
    Flows s (s.handleUdev dev os) := by
  cases dev with
  | none => exact .keep rfl rfl rfl
  | some dev =>
    obtain ⟨hsame, -⟩ | ⟨-, hclose, -⟩ | ⟨devnode, hopen, -⟩ := handleUdev_cases s dev os
    · rw [hsame]
      exact .keep rfl rfl rfl
    · rw [hclose]
      exact .ends s.traffic rfl rfl (Or.inl rfl)
    · rw [hopen, openDevice]
      split
      next => exact .keep rfl rfl rfl
      next =>
        split
        next => exact .ends s.traffic rfl rfl (Or.inl rfl)
        next => exact .keep rfl rfl rfl

theorem flows_of_step (hstep : s.step l = some t) : Flows s t := by
  cases l with
  | event fd io =>
    simp only [step, Option.ite_none_right_eq_some] at hstep
    obtain ⟨-, hstep⟩ := hstep
    rw [handleEvent] at hstep
    split at hstep
    next =>
      cases hstep
      exact .handleUdev s io.device io.attach
    next =>
      split at hstep
      next => exact .handlePty hstep
      next =>
        split at hstep
        next => exact .handlePhys hstep
        next =>
          cases hstep
          exact .keep rfl rfl rfl
  | workerEnds waitFailed =>
    simp only [step, Option.ite_none_right_eq_some, Option.some.injEq] at hstep
    obtain ⟨-, rfl⟩ := hstep
    exact .keep rfl rfl rfl
  | stop =>
    cases hstep
    exact .keep rfl rfl rfl
  | close =>
    simp only [step, Option.ite_none_right_eq_some, Option.some.injEq] at hstep
    obtain ⟨-, rfl⟩ := hstep
    rw [finishClose]
    split
    next => exact .ends s.traffic rfl rfl (Or.inl rfl)
    next => exact .keep rfl rfl rfl

/-- Finished periods are in order, and the current one has nothing outstanding. -/
structure Forwards (s : ManagedUsbTty) : Prop where
  current : s.traffic.Complete
  ended : ∀ T ∈ s.ended, T.Ordered

theorem Flows.forwards (h : Flows s t) (hs : Forwards s) : Forwards t := by
  cases h with
  | keep hp hT he => exact ⟨hT ▸ hs.current, he ▸ hs.ended⟩
  | toPhys chunk hp hT he => exact ⟨hT ▸ hs.current.addPty, he ▸ hs.ended⟩
  | toPty chunk hp hT he => exact ⟨hT ▸ hs.current.addPhys, he ▸ hs.ended⟩
  | ends T hT he hlast =>
    refine ⟨hT ▸ Traffic.complete_none, fun U hU => ?_⟩
    rw [he, List.mem_append, List.mem_singleton] at hU
    rcases hU with hU | rfl
    · exact hs.ended U hU
    · rcases hlast with rfl | ⟨chunk, w, hw, rfl | rfl⟩
      · exact hs.current.ordered
      · exact hs.current.ordered_addPty hw
      · exact hs.current.ordered_addPhys hw

end Steps

/-- The forwarder keeps every byte and its place: in every period the bytes written are a
prefix of the bytes read, at the end of the period and while a chunk is being written, and
between events they are all of them. -/
theorem forwarding_in_order (serialId : String) (pty : ℕ) (udev : Option ℕ) (epoll : Bool)
    (ls : List Label) (s : ManagedUsbTty)
    (hrun : exec step (start serialId pty udev epoll) ls = some s) :
    (∀ T ∈ s.ended, T.toPhys <+: T.fromPty ∧ T.toPty <+: T.fromPhys) ∧
      (s.traffic.toPhys = s.traffic.fromPty ∧ s.traffic.toPty = s.traffic.fromPhys) ∧
      ∀ (r : TtyRead) (os : List TtyWrite),
        s.traffic.toPhys ++ writtenBy os r.received <+: s.traffic.fromPty ++ r.received ∧
        s.traffic.toPty ++ writtenBy os r.received <+: s.traffic.fromPhys ++ r.received := by
  have hs : Forwards s :=
    invariant (fun _ s => Forwards s) ⟨Traffic.complete_none, fun _ hT => by cases hT⟩
      (fun _ _ _ _ h hstep => (flows_of_step hstep).forwards h) hrun
  refine ⟨hs.ended, hs.current, fun r os => ⟨?_, ?_⟩⟩
  · exact (hs.current.ordered_addPty (writtenBy_prefix_buf os r.received)).1
  · exact (hs.current.ordered_addPhys (writtenBy_prefix_buf os r.received)).2

/-- The device is unplugged after a chunk and comes back; its second period ends in the
middle of a chunk. -/
def brokenReplug : List Label :=
  replug.take 4 ++
    [.event 4 ⟨none, ⟨none, true, true, true⟩, .data [7, 8, 9], [.again, .accepted 1, .failed]⟩]

theorem forwarding_in_order_brokenReplug : ∃ s,
    exec step (start "usb" 4 (some 5) true) brokenReplug = some s ∧
      s.ended = [.none, ⟨[], [], [1, 2, 3], [1, 2, 3]⟩, .none, ⟨[7, 8, 9], [7, 8], [], []⟩] ∧
      ∀ T ∈ s.ended, T.toPhys <+: T.fromPty ∧ T.toPty <+: T.fromPhys := by
  have hout : (exec step (start "usb" 4 (some 5) true) brokenReplug).map ended =
      some [.none, ⟨[], [], [1, 2, 3], [1, 2, 3]⟩, .none, ⟨[7, 8, 9], [7, 8], [], []⟩] := by
    decide +kernel
  obtain ⟨s, hrun, hs⟩ := Option.map_eq_some_iff.mp hout
  exact ⟨s, hrun, hs, (forwarding_in_order "usb" 4 (some 5) true brokenReplug s hrun).1⟩

end ManagedUsbTty
end MctpSerial
