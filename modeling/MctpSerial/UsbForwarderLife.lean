import MctpSerial.DevicePresence
import MctpSerial.FramerDescriptors

/-!
# Descriptors of the USB forwarder

`open` makes a PTY, keeps its master for the worker and hands a duplicate of its slave to the
caller; the worker adds the descriptors of its epoll set and of the physical tty, and `close`
waits for it before it takes over what it leaves. The logs stand beside the functions whose
calls they list.
-/
namespace MctpSerial.ManagedUsbTty
open MctpFramer DescriptorLedgers

def musbErrPty : ℤ := -1

def musbErrPtyDup : ℤ := -2

def musbErrThread : ℤ := -3

def musbErrInvalidArg : ℤ := -5

/-- The constructor. -/
def init : ManagedUsbTty where
  running := false
  ptyMasterFd := -1
  physFd := -1
  udevFd := -1
  serialId := ""
  worker := false
  closed := false
  ledger := .empty
  registered := []
  traffic := .none
  ended := []

/-- The object with its worker: `begun` says whether the worker is past `epoll_create1`, and
`epfd` is what it got there. -/
structure Forwarder where
  tty : ManagedUsbTty
  begun : Bool
  epfd : ℤ

namespace Forwarder

def init : Forwarder := ⟨.init, false, -1⟩

/-- The results of the calls made by `open`; `openpty` gives the master and the slave. -/
structure OpenCalls where
  openpty : Option (ℕ × ℕ)
  dup : Option ℕ
  thread : Bool

/-- `open(serial_id, ..)`: the slave for the caller, or an error. -/
def openPty (f : Forwarder) (serialId : String) (os : OpenCalls) :
    Forwarder × List (Event ℤ Origin) × ℤ :=
  if f.tty.running then (f, [], musbErrThread)
  else if serialId = "" then (f, [], musbErrInvalidArg)
  else
    let tty := { f.tty with serialId := serialId }
    match os.openpty with
    | none => ({ f with tty := tty }, [], musbErrPty)
    | some (master, slave) =>
      let opened := [.obtained (master : ℤ) .usbMaster, .obtained (slave : ℤ) .usbSlave]
      match os.dup with
      | none =>
        ({ f with tty := tty }, opened ++ [.closed (master : ℤ), .closed (slave : ℤ)],
          musbErrPtyDup)
      | some slaveDup =>
        let kept := opened ++ [.obtained (slaveDup : ℤ) .tty, .closed (slave : ℤ)]
        if !os.thread then
          ({ f with tty := { tty with running := false, ptyMasterFd := -1 } },
            kept ++ [.closed (master : ℤ), .closed (slaveDup : ℤ)], musbErrThread)
        else
          ({ f with tty := { tty with running := true, ptyMasterFd := master, worker := true } },
            kept, slaveDup)

/-- The worker up to its loop: without an epoll set it returns. -/
def begin (f : Forwarder) (udev epoll : Option ℕ) : Forwarder × List (Event ℤ Origin) :=
  ({ tty := { f.tty with udevFd := fdOf udev, worker := epoll.isSome }
     begun := epoll.isSome
     epfd := fdOf epoll },
    obtaining epoll .usbEpoll)

/-- The worker leaves its loop because `epoll_wait` has failed. -/
def waitFails (f : Forwarder) : Forwarder × List (Event ℤ Origin) :=
  ({ tty := { f.tty with worker := false, registered := [] }, begun := false, epfd := -1 },
    closing f.epfd)

/-- What the worker still does when `running` is cleared: it closes its epoll set, and if it
is not that far yet, makes it first. -/
def endWorker (f : Forwarder) (late : Option ℕ) : List (Event ℤ Origin) :=
  if !f.tty.worker then []
  else if f.begun then closing f.epfd
  else
    match late with
    | none => []
    | some epfd => [.obtained (epfd : ℤ) .usbEpoll, .closed (epfd : ℤ)]

def close (f : Forwarder) (late : Option ℕ) : Forwarder × List (Event ℤ Origin) :=
  if !f.tty.running && decide (f.tty.ptyMasterFd < 0) && decide (f.tty.physFd < 0) then (f, [])
  else
    (⟨{ f.tty with running := false, worker := false, registered := [] }.finishClose, false, -1⟩,
      f.endWorker late ++ closing f.tty.physFd ++ closing f.tty.ptyMasterFd)

/-- What the fields name. -/
def descriptors (f : Forwarder) : Multiset (ℤ × Origin) :=
  named f.epfd .usbEpoll + named f.tty.physFd .physical + named f.tty.ptyMasterFd .usbMaster

/-- Only a running worker has an epoll set, and only a running object has descriptors. -/
structure Coherent (f : Forwarder) : Prop where
  epfd : f.begun = false → f.epfd = -1
  worker : f.begun = true → f.tty.worker = true
  running : f.tty.running = false → f.tty.ptyMasterFd < 0 ∧ f.tty.physFd < 0 ∧ f.begun = false

theorem coherent_init : Coherent init :=
  ⟨fun _ => rfl, nofun, fun _ => ⟨by decide, by decide, rfl⟩⟩

end Forwarder

/-! ## The logs of the worker -/

def openDeviceLog (os : AttachCalls) : List (Event ℤ Origin) :=
  match os.openTty with
  | none => []
  | some ofd =>
    if configureSerial ofd os = musbOk then [.obtained (ofd : ℤ) .physical]
    else [.obtained (ofd : ℤ) .physical, .closed (ofd : ℤ)]

def handleUdevLog (s : ManagedUsbTty) (dev : Option UdevDevice) (os : AttachCalls) :
    List (Event ℤ Origin) :=
  match dev with
  | none => []
  | some dev =>
    match dev.action, dev.subsystem with
    | some action, some subsystem =>
      if subsystem ≠ "tty" then []
      else
        let matched := s.matchesSerialId dev.useTag
        if action = "remove" then
          if matched ∧ s.physFd ≥ 0 then [.closed s.physFd] else []
        else if action = "add" then
          match matched, dev.devnode with
          | true, some _ => openDeviceLog os
          | _, _ => []
        else []
    | _, _ => []

/-- A write loop that fails closes the physical tty. -/
def writeLog (s : ManagedUsbTty) (r : TtyRead) (os : List TtyWrite) : List (Event ℤ Origin) :=
  match writeLoop os r.received with
  | some (_, false) => [.closed s.physFd]
  | _ => []

def handlePtyLog (s : ManagedUsbTty) (r : TtyRead) (os : List TtyWrite) : List (Event ℤ Origin) :=
  if r.received ≠ [] ∧ s.physFd ≥ 0 then s.writeLog r os else []

def handlePhysLog (s : ManagedUsbTty) (r : TtyRead) (os : List TtyWrite) : List (Event ℤ Origin) :=
  if r.received ≠ [] then s.writeLog r os
  else if r = .again then []
  else [.closed s.physFd]

def eventLog (s : ManagedUsbTty) (fd : ℤ) (io : EventCalls) : List (Event ℤ Origin) :=
  if s.udevFd ≥ 0 ∧ fd = s.udevFd then s.handleUdevLog io.device io.attach
  else if fd = s.ptyMasterFd then s.handlePtyLog io.read io.writes
  else if s.physFd ≥ 0 ∧ fd = s.physFd then s.handlePhysLog io.read io.writes
  else []

section Worker

variable {s t : ManagedUsbTty}

theorem closePhys_turns (h0 : 0 ≤ s.physFd) :
    Turns (named s.physFd Origin.physical) [.closed s.physFd] 0 := by
  rw [named, if_pos h0]
  exact .close_one _ _

/-- Opening a device loses nothing if none is attached when this one is. -/
theorem openDevice_turns (devnode : String) (os : AttachCalls)
    (hG : (∃ ofd ∈ os.openTty, configureSerial (ofd : ℕ) os = musbOk) → s.physFd < 0) :
    Turns (named s.physFd Origin.physical) (openDeviceLog os)
      (named (s.openDevice devnode os).physFd .physical) := by
  rw [openDevice, openDeviceLog]
  cases hofd : os.openTty with
  | none => exact .nil _
  | some ofd =>
    dsimp only
    split
    next hok =>
      rw [named_of_neg (hG ⟨ofd, hofd, hok⟩)]
      exact (Turns.obtain_one (ofd : ℤ) Origin.physical).of_eq rfl (named_natCast ofd _).symm
    next =>
      have hboth := ((Turns.obtain_one (ofd : ℤ) Origin.physical).trans (.close_one _ _)).frame
        (named s.physFd .physical)
      exact hboth.of_eq (zero_add _) (zero_add _)

/-- A udev event that does not attach a second device. -/
theorem handleUdev_turns (dev : Option UdevDevice) (os : AttachCalls)
    (hG : ∀ d ∈ dev, s.Attaches d os → s.physFd < 0) :
    Turns (named s.physFd Origin.physical) (s.handleUdevLog dev os)
      (named (s.handleUdev dev os).physFd .physical) := by
  cases dev with
  | none => exact .nil _
  | some dev =>
    have hatt := hG dev rfl
    obtain ⟨action, subsystem, devnode, idPathTag, probe⟩ := dev
    cases action with
    | none => exact .nil _
    | some action =>
      cases subsystem with
      | none => exact .nil _
      | some subsystem =>
        unfold handleUdev handleUdevLog
        dsimp only
        split
        next => exact .nil _
        next hsub =>
          split
          next =>
            split
            next hmatch => exact closePhys_turns hmatch.2
            next => exact .nil _
          next =>
            split
            next hadd =>
              cases devnode with
              | none =>
                cases s.matchesSerialId _ with
                | false => exact .nil _
                | true => exact .nil _
              | some node =>
                cases hmatch : s.matchesSerialId (UdevDevice.useTag
                    ⟨some action, some subsystem, some node, idPathTag, probe⟩) with
                | false => exact .nil _
                | true =>
                  refine openDevice_turns node os fun hopen => hatt ?_
                  exact ⟨congrArg some hadd, congrArg some (not_not.mp hsub), hmatch, rfl, hopen⟩
            next => exact .nil _

/-- What an event does to the physical descriptor, unless it attaches a second device. -/
theorem handleEvent_turns {fd : ℤ} {io : EventCalls} (h : s.handleEvent fd io = some t)
    (hG : Undisturbed s (.event fd io)) :
    Turns (named s.physFd Origin.physical) (s.eventLog fd io) (named t.physFd .physical) := by
  rw [handleEvent] at h
  rw [eventLog]
  split at h
  next hu =>
    cases h
    rw [if_pos hu]
    exact handleUdev_turns io.device io.attach (hG hu.1 hu.2)
  next hu =>
    rw [if_neg hu]
    split at h
    next hpty =>
      rw [if_pos hpty, handlePtyLog]
      rw [handlePty] at h
      split at h
      next hcond =>
        rw [if_pos hcond, writeLog]
        obtain ⟨⟨w, ok⟩, hw, rfl⟩ := Option.map_eq_some_iff.mp h
        rw [hw]
        cases ok with
        | true => exact .nil _
        | false => exact closePhys_turns hcond.2
      next hcond =>
        rw [if_neg hcond, ← Option.some.inj h]
        exact .nil _
    next hpty =>
      rw [if_neg hpty]
      split at h
      next hphys =>
        rw [if_pos hphys, handlePhysLog]
        rw [handlePhys] at h
        split at h
        next hcond =>
          rw [if_pos hcond, writeLog]
          obtain ⟨⟨w, ok⟩, hw, rfl⟩ := Option.map_eq_some_iff.mp h
          rw [hw]
          cases ok with
          | true => exact .nil _
          | false => exact closePhys_turns hphys.1
        next hcond =>
          rw [if_neg hcond]
          split at h
          next hagain =>
            rw [if_pos hagain, ← Option.some.inj h]
            exact .nil _
          next hagain =>
            rw [if_neg hagain, ← Option.some.inj h]
            exact closePhys_turns hphys.1
      next hphys =>
        rw [if_neg hphys, ← Option.some.inj h]
        exact .nil _

/-- An event leaves the master, the worker and the flag alone. -/
theorem handleEvent_frame {fd : ℤ} {io : EventCalls} (h : s.handleEvent fd io = some t) :
    t.running = s.running ∧ t.ptyMasterFd = s.ptyMasterFd ∧ t.worker = s.worker := by
  rw [handleEvent] at h
  split at h
  next =>
    cases h
    cases io.device with
    | none => exact ⟨rfl, rfl, rfl⟩
    | some dev =>
      obtain ⟨hsame, -⟩ | ⟨-, hclose, -⟩ | ⟨devnode, hopen, -⟩ := handleUdev_cases s dev io.attach
      · rw [hsame]
        exact ⟨rfl, rfl, rfl⟩
      · rw [hclose]
        exact ⟨rfl, rfl, rfl⟩
      · rw [hopen, openDevice]
        split
        next => exact ⟨rfl, rfl, rfl⟩
        next =>
          split
          next => exact ⟨rfl, rfl, rfl⟩
          next => exact ⟨rfl, rfl, rfl⟩
  next =>
    split at h
    next =>
      obtain rfl | ⟨-, w, ok, -, u, rfl, rfl⟩ := handlePty_cases h
      · exact ⟨rfl, rfl, rfl⟩
      · cases ok with
        | true => exact ⟨rfl, rfl, rfl⟩
        | false => exact ⟨rfl, rfl, rfl⟩
    next =>
      split at h
      next =>
        obtain ⟨-, w, ok, -, u, rfl, rfl⟩ | ⟨-, rfl⟩ := handlePhys_cases h
        · cases ok with
          | true => exact ⟨rfl, rfl, rfl⟩
          | false => exact ⟨rfl, rfl, rfl⟩
        · split
          next => exact ⟨rfl, rfl, rfl⟩
          next => exact ⟨rfl, rfl, rfl⟩
      next =>
        cases h
        exact ⟨rfl, rfl, rfl⟩

end Worker

namespace Forwarder

variable {f : Forwarder}

theorem Coherent.descriptors_of_stopped (h : f.Coherent) (hrun : f.tty.running = false) :
    f.descriptors = 0 := by
  obtain ⟨hmaster, hphys, hbegun⟩ := h.running hrun
  simp [descriptors, h.epfd hbegun, named_of_neg hmaster, named_of_neg hphys]

/-- The PTY is opened, and the slave is exchanged for its duplicate. -/
theorem openPair_turns (master slave : ℕ) :
    Turns 0 [.obtained (master : ℤ) .usbMaster, .obtained (slave : ℤ) .usbSlave]
      ({((master : ℤ), Origin.usbMaster)} + {((slave : ℤ), Origin.usbSlave)}) :=
  (Turns.obtain_one (master : ℤ) Origin.usbMaster).append (.obtain_one (slave : ℤ) Origin.usbSlave)

theorem duplicate_turns (master slave slaveDup : ℕ) :
    Turns 0 ([.obtained (master : ℤ) .usbMaster, .obtained (slave : ℤ) .usbSlave] ++
        [.obtained (slaveDup : ℤ) .tty, .closed (slave : ℤ)])
      ({((master : ℤ), Origin.usbMaster)} + {((slaveDup : ℤ), Origin.tty)}) := by
  have hdup := (Turns.obtain_one (slaveDup : ℤ) Origin.tty).frame
    ({((master : ℤ), Origin.usbMaster)} + {((slave : ℤ), Origin.usbSlave)})
  have hclose := (Turns.close_one (slave : ℤ) Origin.usbSlave).frame
    ({((master : ℤ), Origin.usbMaster)} + {((slaveDup : ℤ), Origin.tty)})
  refine (openPair_turns master slave).trans ?_
  refine (hdup.of_eq (zero_add _) ?_).trans (hclose.of_eq rfl (zero_add _))
  abel

/-- `open` fails and leaves nothing of its own, or it gives the caller the one descriptor that
its fields do not name. -/
theorem openPty_turns (h : f.Coherent) (serialId : String) (os : OpenCalls) :
    (f.openPty serialId os).1.Coherent ∧
    (((f.openPty serialId os).2.2 < 0 ∧
      Turns f.descriptors (f.openPty serialId os).2.1 (f.openPty serialId os).1.descriptors) ∨
    ∃ n : ℕ, (f.openPty serialId os).2.2 = n ∧ (f.openPty serialId os).1.tty.running = true ∧
      Turns f.descriptors (f.openPty serialId os).2.1
        ((f.openPty serialId os).1.descriptors + {((n : ℤ), .tty)})) := by
  rw [openPty]
  cases hrun : f.tty.running with
  | true =>
    simp only [if_true]
    exact ⟨h, Or.inl ⟨by decide, .nil _⟩⟩
  | false =>
    obtain ⟨hmaster, hphys, hbegun⟩ := h.running hrun
    have hnone := h.descriptors_of_stopped hrun
    simp only [Bool.false_eq_true, if_false]
    split
    next => exact ⟨h, Or.inl ⟨(by decide : musbErrInvalidArg < 0), .nil _⟩⟩
    next =>
      cases os.openpty with
      | none =>
        exact ⟨⟨h.epfd, h.worker, h.running⟩, Or.inl ⟨(by decide : musbErrPty < 0), .nil _⟩⟩
      | some p =>
        obtain ⟨master, slave⟩ := p
        cases os.dup with
        | none =>
          refine ⟨⟨h.epfd, h.worker, h.running⟩, Or.inl ⟨(by decide : musbErrPtyDup < 0), ?_⟩⟩
          have hback := (openPair_turns master slave).trans
            ((Turns.close_one (master : ℤ) Origin.usbMaster).append
              (.close_one (slave : ℤ) Origin.usbSlave))
          exact (hback.frame f.descriptors).of_eq (zero_add _) (zero_add _)
        | some slaveDup =>
          have hdup := duplicate_turns master slave slaveDup
          dsimp only
          split
          next =>
            refine ⟨⟨h.epfd, h.worker, fun _ => ⟨(by decide : (-1 : ℤ) < 0), hphys, hbegun⟩⟩,
              Or.inl ⟨(by decide : musbErrThread < 0), ?_⟩⟩
            have hback := hdup.trans
              ((Turns.close_one (master : ℤ) Origin.usbMaster).append
                (.close_one (slaveDup : ℤ) Origin.tty))
            refine hback.of_eq hnone.symm ?_
            simp [descriptors, h.epfd hbegun, named_of_neg hphys]
          next =>
            refine ⟨⟨h.epfd, fun _ => rfl, nofun⟩, Or.inr ⟨slaveDup, rfl, rfl, ?_⟩⟩
            refine hdup.of_eq hnone.symm ?_
            simp [descriptors, h.epfd hbegun, named_of_neg hphys]

theorem begin_turns (h : f.Coherent) (hbegun : f.begun = false)
    (hrun : f.tty.running = true) (udev epoll : Option ℕ) :
    (f.begin udev epoll).1.Coherent ∧
      Turns f.descriptors (f.begin udev epoll).2 (f.begin udev epoll).1.descriptors := by
  refine ⟨⟨?_, fun hb => hb, fun hstop => absurd (hrun.symm.trans hstop) (by decide)⟩, ?_⟩
  · intro hb
    cases epoll with
    | none => rfl
    | some epfd => cases hb
  · have hopen := (obtaining_turns epoll .usbEpoll).frame
      (named f.tty.physFd .physical + named f.tty.ptyMasterFd .usbMaster)
    refine hopen.of_eq ?_ ?_
    · simp [descriptors, h.epfd hbegun]
    · exact (add_assoc _ _ _).symm

theorem waitFails_turns (h : f.Coherent) :
    f.waitFails.1.Coherent ∧ Turns f.descriptors f.waitFails.2 f.waitFails.1.descriptors := by
  refine ⟨⟨fun _ => rfl, nofun, fun hstop => ?_⟩, ?_⟩
  · obtain ⟨hmaster, hphys, -⟩ := h.running hstop
    exact ⟨hmaster, hphys, rfl⟩
  · have hclose := (Turns.closing f.epfd Origin.usbEpoll).frame
      (named f.tty.physFd .physical + named f.tty.ptyMasterFd .usbMaster)
    refine hclose.of_eq (add_assoc _ _ _).symm ?_
    simp [descriptors, waitFails]

/-- An event of the worker's loop. -/
theorem event_turns (h : f.Coherent) {fd : ℤ} {io : EventCalls} {tty : ManagedUsbTty}
    (hev : f.tty.handleEvent fd io = some tty) (hrun : f.tty.running = true)
    (hG : Undisturbed f.tty (.event fd io)) :
    ({ f with tty := tty } : Forwarder).Coherent ∧
      Turns f.descriptors (f.tty.eventLog fd io)
        ({ f with tty := tty } : Forwarder).descriptors := by
  obtain ⟨hrun', hmaster, hworker⟩ := handleEvent_frame hev
  refine ⟨⟨h.epfd, fun hb => hworker.trans (h.worker hb), fun hstop => ?_⟩, ?_⟩
  · exact absurd (hrun.symm.trans (hrun'.symm.trans hstop)) (by decide)
  · have hphys := (handleEvent_turns hev hG).frame
      (named f.epfd .usbEpoll + named f.tty.ptyMasterFd .usbMaster)
    refine hphys.of_eq ?_ ?_
    · simp only [descriptors]
      abel
    · simp only [descriptors, hmaster]
      abel

/-- `close` closes what the worker leaves, wherever the worker was. -/
theorem close_turns (h : f.Coherent) (late : Option ℕ) :
    (f.close late).1.Coherent ∧ (f.close late).1.tty.running = false ∧
      Turns f.descriptors (f.close late).2 0 := by
  rw [close]
  split
  next hcond =>
    have hstop : f.tty.running = false := by
      simp only [Bool.and_eq_true, Bool.not_eq_true'] at hcond
      exact hcond.1.1
    exact ⟨h, hstop, (Turns.nil _).of_eq rfl (h.descriptors_of_stopped hstop)⟩
  next =>
    have hworker : Turns (named f.epfd Origin.usbEpoll) (f.endWorker late) 0 := by
      unfold endWorker
      cases hb : f.begun with
      | true =>
        rw [h.worker hb]
        exact Turns.closing f.epfd Origin.usbEpoll
      | false =>
        rw [h.epfd hb]
        cases f.tty.worker with
        | false => exact .nil 0
        | true =>
          cases late with
          | none => exact .nil 0
          | some epfd => exact (Turns.obtain_one (epfd : ℤ) Origin.usbEpoll).trans (.close_one _ _)
    have hall := (hworker.append (.closing f.tty.physFd .physical)).append
      (.closing f.tty.ptyMasterFd .usbMaster)
    refine ⟨⟨fun _ => rfl, nofun, fun _ => ⟨(by decide : (-1 : ℤ) < 0), ?_, rfl⟩⟩, ?_, hall⟩
    · rw [finishClose]
      split
      next => exact (by decide : (-1 : ℤ) < 0)
      next hneg => exact not_le.mp hneg
    · rw [finishClose]
      split
      next => rfl
      next => rfl

end Forwarder

end MctpSerial.ManagedUsbTty
