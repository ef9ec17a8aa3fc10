import MctpSerial.BridgePairs
import MctpSerial.DeviceForwarding

/-!
# Two bridges with a USB forwarder between them

Behind a forwarder the framer of a bridge talks to a PTY, and the worker copies between the
PTY and the physical tty. While a device stays attached this makes no difference: the chain
of bridge, forwarder and far bridge delivers what two bridges on one line deliver.
-/
namespace MctpSerial
open MctpFramer StreamTransducers GuardedRuns JoinedMachines

namespace ManagedUsbTty

/-- The bytes that an event takes from the PTY. -/
def ptyInput (s : ManagedUsbTty) : Label → List Byte
  | .event fd io =>
    if s.udevFd ≥ 0 ∧ fd = s.udevFd then []
    else if fd = s.ptyMasterFd then io.read.received
    else []
  | _ => []

/-- The bytes that an event takes from the physical tty. -/
def physInput (s : ManagedUsbTty) : Label → List Byte
  | .event fd io =>
    if s.udevFd ≥ 0 ∧ fd = s.udevFd then []
    else if fd = s.ptyMasterFd then []
    else if s.physFd ≥ 0 ∧ fd = s.physFd then io.read.received
    else []
  | _ => []

/-- A step that does not end the period. -/
def periodStep (s : ManagedUsbTty) (l : Label) : Option ManagedUsbTty :=
  (s.step l).filter fun t => t.ended = s.ended

section Period

variable {s t : ManagedUsbTty} {l : Label}

theorem periodStep_eq_some (h : s.periodStep l = some t) :
    s.step l = some t ∧ t.ended = s.ended := by
  obtain ⟨hstep, hended⟩ := Option.filter_eq_some_iff.mp h
  exact ⟨hstep, of_decide_eq_true hended⟩

theorem not_ended {T : Traffic} (h : t.ended = s.ended ++ [T]) : t.ended ≠ s.ended := by
  rw [h]
  simp

/-- Within a period nothing that was written is taken back. -/
theorem periodStep_grows (h : s.periodStep l = some t) :
    s.traffic.toPhys <+: t.traffic.toPhys ∧ s.traffic.toPty <+: t.traffic.toPty := by
  obtain ⟨hstep, hended⟩ := periodStep_eq_some h
  cases flows_of_step hstep with
  | keep hp hT he =>
    rw [hT]
    exact ⟨List.prefix_rfl, List.prefix_rfl⟩
  | toPhys chunk hp hT he =>
    rw [hT]
    exact ⟨List.prefix_append _ _, List.prefix_rfl⟩
  | toPty chunk hp hT he =>
    rw [hT]
    exact ⟨List.prefix_rfl, List.prefix_append _ _⟩
  | ends T hT he hlast => exact absurd hended (not_ended he)

/-- With a device attached, a step within a period writes all that it takes. -/
structure Copies (s t : ManagedUsbTty) (fromPty fromPhys : List Byte) : Prop where
  physFd : t.physFd = s.physFd
  traffic : t.traffic = (s.traffic.addPty fromPty fromPty).addPhys fromPhys fromPhys

theorem Copies.nothing (hp : t.physFd = s.physFd) (hT : t.traffic = s.traffic) :
    Copies s t [] [] := by
  refine ⟨hp, ?_⟩
  rw [hT]
  simp [Traffic.addPty, Traffic.addPhys]

/-- A udev event that neither takes the device away nor attaches another one. -/
theorem Copies.handleUdev (s : ManagedUsbTty) (dev : Option UdevDevice) (os : AttachCalls)
    (hended : (s.handleUdev dev os).ended = s.ended) : Copies s (s.handleUdev dev os) [] [] := by
  cases dev with
  | none => exact .nothing rfl rfl
  | some dev =>
    obtain ⟨hsame, -⟩ | ⟨-, hclose, -⟩ | ⟨devnode, hopen, -⟩ := handleUdev_cases s dev os
    · rw [hsame]
      exact .nothing rfl rfl
    · rw [hclose] at hended
      exact absurd hended (not_ended rfl)
    · rw [hopen, openDevice] at hended ⊢
      cases hofd : os.openTty with
      | none => exact .nothing rfl rfl
      | some ofd =>
        rw [hofd] at hended
        dsimp only at hended ⊢
        split
        next hok =>
          rw [if_pos hok] at hended
          exact absurd hended (not_ended rfl)
        next => exact .nothing rfl rfl

theorem Copies.handlePty {r : TtyRead} {os : List TtyWrite} (hphys : 0 ≤ s.physFd)
    (h : s.handlePty r os = some t) (hended : t.ended = s.ended) : Copies s t r.received [] := by
  rw [ManagedUsbTty.handlePty] at h
  split at h
  next =>
    obtain ⟨⟨w, ok⟩, hw, rfl⟩ := Option.map_eq_some_iff.mp h
    cases ok with
    | true =>
      obtain rfl := (writeLoop_eq hw).2 rfl
      exact ⟨rfl, by simp [Traffic.addPty, Traffic.addPhys]⟩
    | false => exact absurd hended (not_ended rfl)
  next hcond =>
    have hnone : r.received = [] := by
      by_contra hne
      exact hcond ⟨hne, hphys⟩
    cases h
    rw [hnone]
    exact .nothing rfl rfl

theorem Copies.handlePhys {r : TtyRead} {os : List TtyWrite} (h : s.handlePhys r os = some t)
    (hended : t.ended = s.ended) : Copies s t [] r.received := by
  rw [ManagedUsbTty.handlePhys] at h
  split at h
  next =>
    obtain ⟨⟨w, ok⟩, hw, rfl⟩ := Option.map_eq_some_iff.mp h
    cases ok with
    | true =>
      obtain rfl := (writeLoop_eq hw).2 rfl
      exact ⟨rfl, by simp [Traffic.addPty, Traffic.addPhys]⟩
    | false => exact absurd hended (not_ended rfl)
  next hcond =>
    rw [not_not.mp hcond]
    split at h
    next =>
      cases h
      exact .nothing rfl rfl
    next =>
      cases h
      exact absurd hended (not_ended rfl)

theorem copies (hphys : 0 ≤ s.physFd) (h : s.periodStep l = some t) :
    Copies s t (s.ptyInput l) (s.physInput l) := by
  obtain ⟨hstep, hended⟩ := periodStep_eq_some h
  cases l with
  | event fd io =>
    simp only [step, Option.ite_none_right_eq_some] at hstep
    obtain ⟨-, hstep⟩ := hstep
    rw [handleEvent] at hstep
    rw [ptyInput, physInput]
    split at hstep
    next hu =>
      cases hstep
      rw [if_pos hu, if_pos hu]
      exact .handleUdev s io.device io.attach hended
    next hu =>
      rw [if_neg hu, if_neg hu]
      split at hstep
      next hpty =>
        rw [if_pos hpty, if_pos hpty]
        exact .handlePty hphys hstep hended
      next hpty =>
        rw [if_neg hpty, if_neg hpty]
        split at hstep
        next hcond =>
          rw [if_pos hcond]
          exact .handlePhys hstep hended
        next hcond =>
          rw [if_neg hcond]
          cases hstep
          exact .nothing rfl rfl
  | workerEnds waitFailed =>
    simp only [step, Option.ite_none_right_eq_some, Option.some.injEq] at hstep
    obtain ⟨-, rfl⟩ := hstep
    exact .nothing rfl rfl
  | stop =>
    cases hstep
    exact .nothing rfl rfl
  | close =>
    simp only [step, Option.ite_none_right_eq_some, Option.some.injEq] at hstep
    obtain ⟨-, rfl⟩ := hstep
    rw [finishClose, if_pos hphys] at hended
    exact absurd hended (not_ended rfl)

end Period

/-- A device has just been attached. -/
def Attached (s : ManagedUsbTty) : Prop := 0 ≤ s.physFd ∧ s.traffic = .none

instance (s : ManagedUsbTty) : Decidable s.Attached := inferInstanceAs (Decidable (_ ∧ _))

/-- The forwarder during a period, with the PTY as its port. -/
def ptyPort : Ported ManagedUsbTty Label Byte Byte where
  step := periodStep
  out s := s.traffic.toPty
  input := ptyInput
  grows _ _ _ h := (periodStep_grows h).2

/-- The forwarder during a period, with the physical tty as its port. -/
def physPort : Ported ManagedUsbTty Label Byte Byte where
  step := periodStep
  out s := s.traffic.toPhys
  input := physInput
  grows _ _ _ h := (periodStep_grows h).1

/-- During a period all that is taken from one side is passed on to the other. -/
theorem passes_on {f : ManagedUsbTty} (hf : f.Attached) {ls : List Label} {s : ManagedUsbTty}
    (hrun : exec periodStep f ls = some s) :
    ptyPort.consumed f ls = s.traffic.toPhys ∧ physPort.consumed f ls = s.traffic.toPty := by
  have keep (u : ManagedUsbTty) (l : Label) (v : ManagedUsbTty)
      (hu : 0 ≤ u.physFd ∧ u.traffic.Complete) (hstep : u.periodStep l = some v) :
      0 ≤ v.physFd ∧ v.traffic.Complete := by
    obtain ⟨hp, hT⟩ := copies hu.1 hstep
    rw [hp, hT]
    exact ⟨hu.1, hu.2.addPty.addPhys⟩
  have init : 0 ≤ f.physFd ∧ f.traffic.Complete := ⟨hf.1, hf.2 ▸ Traffic.complete_none⟩
  obtain ⟨hend, hpty⟩ := ptyPort.consumed_eq_of_log (fun u => u.traffic.fromPty)
    (fun u => 0 ≤ u.physFd ∧ u.traffic.Complete)
    init keep
    (fun u l v hu hstep => by rw [(copies hu.1 hstep).traffic]; rfl) (by rw [hf.2]; rfl) hrun
  obtain ⟨-, hphys⟩ := physPort.consumed_eq_of_log (fun u => u.traffic.fromPhys)
    (fun u => 0 ≤ u.physFd ∧ u.traffic.Complete)
    init keep
    (fun u l v hu hstep => by rw [(copies hu.1 hstep).traffic]; rfl) (by rw [hf.2]; rfl) hrun
  exact ⟨hpty.trans hend.2.1.symm, hphys.trans hend.2.2.symm⟩

end ManagedUsbTty

namespace MctpBridge
open ManagedUsbTty

/-- A bridge and its forwarder, joined by the PTY. -/
def nearPort : Ported (Joint MctpBridge ManagedUsbTty) (Label ⊕ ManagedUsbTty.Label) Byte Byte :=
  serialPort.joint ptyPort physPort rfl

/-- The far bridge on the other end of the USB link. -/
abbrev chainStep : Joint (Joint MctpBridge ManagedUsbTty) MctpBridge →
    (Label ⊕ ManagedUsbTty.Label) ⊕ Label →
    Option (Joint (Joint MctpBridge ManagedUsbTty) MctpBridge) :=
  jointStep nearPort serialPort

/-- While a device stays attached, the forwarder changes nothing of what two bridges deliver
to each other: nothing is lost, doubled, reordered or made up in any interleaving of the two
bridges, the worker, the kernels and the clients, however the bytes are cut into chunks. -/
theorem chain_delivers (l r : End) (f : ManagedUsbTty) (hf : f.Attached)
    (ls : List ((Label ⊕ ManagedUsbTty.Label) ⊕ Label))
    (c : Joint (Joint MctpBridge ManagedUsbTty) MctpBridge)
    (hrun : exec chainStep ⟨⟨l.start, f, 0, 0⟩, r.start, 0, 0⟩ ls = some c)
    (hwell : Every chainStep (jointGuard (jointGuard WellBehaved fun _ _ => True) WellBehaved)
      ⟨⟨l.start, f, 0, 0⟩, r.start, 0, 0⟩ ls) :
    Delivers (l.fromKernel (lefts (lefts ls)))
        ((lefts (lefts ls)).flatMap Label.clientDatagrams) c.left.left c.right c.rightward ∧
      Delivers (r.fromKernel (rights ls)) ((rights ls).flatMap Label.clientDatagrams)
        c.right c.left.left c.left.leftward := by
  have hproj := projects hrun
  obtain ⟨hwellN, hwellR⟩ := every_parts hrun hwell
  have hrunN : exec (jointStep serialPort ptyPort) ⟨l.start, f, 0, 0⟩ (lefts ls) = some c.left :=
    hproj.left
  have hprojN := projects hrunN
  obtain ⟨hwellL, -⟩ := every_parts hrunN hwellN
  obtain ⟨htoPhys, htoPty⟩ := passes_on hf hprojN.right
  refine delivers_of_runs l r hprojN.left hproj.right hwellL hwellR ?_ ?_
  · have hfar := (serialPort.consumed_eq_flatMap (fun _ _ => rfl) hproj.right).symm.trans
      hproj.to_right
    have hpty : c.left.right.traffic.toPhys = c.left.left.mctpSerial.wire.take c.left.rightward :=
      htoPhys.symm.trans hprojN.to_right
    have hle : c.rightward ≤ c.left.rightward := by
      refine Nat.le_trans hproj.rightward_le ?_
      show c.left.right.traffic.toPhys.length ≤ _
      rw [hpty]
      exact List.length_take_le _ _
    rw [hfar, show nearPort.out c.left = c.left.right.traffic.toPhys from rfl, hpty,
      List.take_take, Nat.min_eq_left hle]
  · have hnear := (serialPort.consumed_eq_flatMap (fun _ _ => rfl) hprojN.left).symm.trans
      hprojN.to_left
    have hthrough := consumed_joint (N := ptyPort) physPort rfl hrunN
    have hphys : c.left.right.traffic.toPty = c.right.mctpSerial.wire.take c.leftward :=
      htoPty.symm.trans (hthrough.symm.trans hproj.to_left)
    have hle : c.left.leftward ≤ c.leftward := by
      refine Nat.le_trans hprojN.leftward_le ?_
      show c.left.right.traffic.toPty.length ≤ _
      rw [hphys]
      exact List.length_take_le _ _
    rw [hnear, show ptyPort.out c.left.right = c.left.right.traffic.toPty from rfl, hphys,
      List.take_take, Nat.min_eq_left hle]

/-- A forwarder with a device on descriptor 10, behind a PTY on descriptor 4. -/
def pluggedIn : ManagedUsbTty :=
  (ManagedUsbTty.start "usb" 4 (some 5) true).attach 10 "/dev/ttyUSB0" ⟨some 10, true, true, true⟩

/-- The worker copies a chunk from the PTY. -/
def copying (bytes : List Byte) (os : List TtyWrite) : (Label ⊕ ManagedUsbTty.Label) ⊕ Label :=
  .inl (.inr (.event 4 ⟨none, ⟨none, true, true, true⟩, .data bytes, os⟩))

/-- The bytes of a note and a broadcast go through the forwarder in three chunks. -/
def relayRun : List ((Label ⊕ ManagedUsbTty.Label) ⊕ Label) :=
  speaker.map (fun l => .inl (.inl l)) ++
    [copying ((buildWire hail).take 4) [.accepted 0, .again, .accepted 9],
      copying ((buildWire hail).drop 4 ++ (buildWire note).take 3) [.zero, .accepted 99],
      copying ((buildWire note).drop 3) [.accepted 5, .accepted 5]] ++
    listener.map .inr

theorem chain_delivers_chunks : ∃ c,
    exec chainStep ⟨⟨freshEnd.start, pluggedIn, 0, 0⟩, freshEnd.start, 0, 0⟩ relayRun = some c ∧
    c.right.linuxEndpoint.wire = buildWire note ∧ c.right.clientOut = [hail] ∧
    Delivers (freshEnd.fromKernel (lefts (lefts relayRun)))
      ((lefts (lefts relayRun)).flatMap Label.clientDatagrams) c.left.left c.right c.rightward := by
  have hout : (exec chainStep ⟨⟨freshEnd.start, pluggedIn, 0, 0⟩, freshEnd.start, 0, 0⟩
      relayRun).map (fun c => (c.right.linuxEndpoint.wire, c.right.clientOut)) =
        some (buildWire note, [hail]) := by
    decide +kernel
  have hwell : Every chainStep (jointGuard (jointGuard WellBehaved fun _ _ => True) WellBehaved)
      ⟨⟨freshEnd.start, pluggedIn, 0, 0⟩, freshEnd.start, 0, 0⟩ relayRun := by
    decide +kernel
  obtain ⟨c, hrun, hc⟩ := Option.map_eq_some_iff.mp hout
  have hends := chain_delivers freshEnd freshEnd pluggedIn (by decide) relayRun c hrun hwell
  exact ⟨c, hrun, congrArg Prod.fst hc, congrArg Prod.snd hc, hends.1⟩

end MctpBridge

end MctpSerial
