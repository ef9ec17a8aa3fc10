import MctpSerial.DescriptorLedgers
import MctpSerial.FramerSessions
import MctpSerial.GuardedRuns

/-!
# The managed USB tty

The worker of a `ManagedUsbTty` waits for udev events and forwards bytes between the
PTY master and the physical tty. Each event of an epoll round is one step, whatever the
round it was collected in; the two halves of `close` and the end of the worker are steps
of their own. A ledger follows the descriptors of physical ttys.
-/
namespace MctpSerial
open MctpFramer DescriptorLedgers

/-- The bytes moved since `phys_fd` was assigned, in both directions. -/
structure Traffic where
  fromPty : List Byte
  toPhys : List Byte
  fromPhys : List Byte
  toPty : List Byte
  deriving DecidableEq

def Traffic.none : Traffic := ⟨[], [], [], []⟩

/-- The object, its worker and its surroundings. `worker` says whether `threadMain` is
running; `registered` holds the physical descriptors in its epoll set; `ended` holds the
traffic of the periods that are over. -/
structure ManagedUsbTty where
  running : Bool
  ptyMasterFd : ℤ
  physFd : ℤ
  udevFd : ℤ
  serialId : String
  worker : Bool
  closed : Bool
  ledger : Ledger ℤ String
  registered : List ℤ
  traffic : Traffic
  ended : List Traffic

namespace ManagedUsbTty

def musbOk : ℤ := 0

def musbErrOpenTty : ℤ := -6

/-- After a successful `open` and the start of `threadMain`, which goes on without udev
but not without epoll. -/
def start (serialId : String) (pty : ℕ) (udev : Option ℕ) (epoll : Bool) : ManagedUsbTty where
  running := true
  ptyMasterFd := pty
  physFd := -1
  udevFd := fdOf udev
  serialId := serialId
  worker := epoll
  closed := false
  ledger := .empty
  registered := []
  traffic := .none
  ended := []

/-- What the udev library tells of a device. `probe` is the device found again by its
system path, if it is found; it holds the property `ID_PATH_TAG` as that one has it. -/
structure UdevDevice where
  action : Option String
  subsystem : Option String
  devnode : Option String
  idPathTag : Option String
  probe : Option (Option String)
  deriving DecidableEq

/-- The tag of the device that is matched: of the probe if there is one. -/
def UdevDevice.useTag (dev : UdevDevice) : Option String := dev.probe.getD dev.idPathTag

def matchesSerialId (s : ManagedUsbTty) (idPathTag : Option String) : Bool :=
  idPathTag == some s.serialId

/-- The results of the calls made to attach a device. -/
structure AttachCalls where
  openTty : Option ℕ
  tcgetattr : Bool
  tcsetattr : Bool
  epollAdd : Bool
  deriving DecidableEq

def configureSerial (fd : ℤ) (os : AttachCalls) : ℤ :=
  if fd < 0 then musbErrOpenTty
  else if !os.tcgetattr then musbErrOpenTty
  else if !os.tcsetattr then musbErrOpenTty
  else musbOk

/-- `epoll_ctl` with `EPOLL_CTL_DEL` on `phys_fd`. -/
def epollDel (s : ManagedUsbTty) : ManagedUsbTty :=
  { s with registered := s.registered.filter (· ≠ s.physFd) }

/-- `phys_fd` is closed and reset. Closing the only descriptor of a file removes it from
the epoll set. -/
def closePhys (s : ManagedUsbTty) : ManagedUsbTty :=
  { s with
    ledger := s.ledger.post (.closed s.physFd)
    registered := s.registered.filter (· ≠ s.physFd)
    physFd := -1
    traffic := .none
    ended := s.ended ++ [s.traffic] }

/-- `phys_fd` is assigned, whatever it held. -/
def attach (s : ManagedUsbTty) (ofd : ℤ) (devnode : String) (os : AttachCalls) : ManagedUsbTty :=
  { s with
    ledger := s.ledger.post (.obtained ofd devnode)
    registered := if os.epollAdd then ofd :: s.registered else s.registered
    physFd := ofd
    traffic := .none
    ended := s.ended ++ [s.traffic] }

/-- A descriptor that cannot be configured is closed at once. -/
def openDevice (s : ManagedUsbTty) (devnode : String) (os : AttachCalls) : ManagedUsbTty :=
  match os.openTty with
  | none => s
  | some ofd =>
    if configureSerial ofd os = musbOk then s.attach ofd devnode os
    else { s with ledger := (s.ledger.post (.obtained ofd devnode)).post (.closed ofd) }

def handleUdev (s : ManagedUsbTty) (dev : Option UdevDevice) (os : AttachCalls) : ManagedUsbTty :=
  match dev with
  | none => s
  | some dev =>
    match dev.action, dev.subsystem with
    | some action, some subsystem =>
      if subsystem ≠ "tty" then s
      else
        let matched := s.matchesSerialId dev.useTag
        if action = "remove" then
          if matched ∧ s.physFd ≥ 0 then s.epollDel.closePhys else s
        else if action = "add" then
          match matched, dev.devnode with
          | true, some devnode => s.openDevice devnode os
          | _, _ => s
        else s
    | _, _ => s

/-- What one `write` of the forwarding loops reports. A successful write takes `more + 1`
bytes, or all that were offered if these are fewer. -/
inductive TtyWrite where
  | accepted (more : ℕ)
  | zero
  | again
  | failed
  deriving DecidableEq

/-- The write loop: the bytes written, and whether all were. No result while the loop
waits for a further outcome. -/
def writeLoop : List TtyWrite → List Byte → Option (List Byte × Bool)
  | _, [] => some ([], true)
  | [], _ :: _ => none
  | .accepted more :: os, buf =>
    (writeLoop os (buf.drop (more + 1))).map fun (w, ok) => (buf.take (more + 1) ++ w, ok)
  | .zero :: os, buf => writeLoop os buf
  | .again :: os, buf => writeLoop os buf
  | .failed :: _, _ => some ([], false)

/-- What a `read` into the buffer of 4096 bytes reports. -/
inductive TtyRead where
  | data (bytes : List Byte)
  | again
  | failed
  deriving DecidableEq

/-- The bytes that end up in the buffer. -/
def TtyRead.received : TtyRead → List Byte
  | .data bytes => bytes.take 4096
  | _ => []

/-- From the PTY to the physical tty. Without one the bytes are dropped. -/
def handlePty (s : ManagedUsbTty) (r : TtyRead) (os : List TtyWrite) : Option ManagedUsbTty :=
  if r.received ≠ [] ∧ s.physFd ≥ 0 then
    (writeLoop os r.received).map fun (w, ok) =>
      let s := { s with traffic := { s.traffic with
        fromPty := s.traffic.fromPty ++ r.received
        toPhys := s.traffic.toPhys ++ w } }
      if ok then s else s.epollDel.closePhys
  else some s

/-- From the physical tty to the PTY. -/
def handlePhys (s : ManagedUsbTty) (r : TtyRead) (os : List TtyWrite) : Option ManagedUsbTty :=
  if r.received ≠ [] then
    (writeLoop os r.received).map fun (w, ok) =>
      let s := { s with traffic := { s.traffic with
        fromPhys := s.traffic.fromPhys ++ r.received
        toPty := s.traffic.toPty ++ w } }
      if ok then s else s.closePhys
  else if r = .again then some s
  else some s.epollDel.closePhys

/-- The results of all calls that the handling of one event may make. -/
structure EventCalls where
  device : Option UdevDevice
  attach : AttachCalls
  read : TtyRead
  writes : List TtyWrite
  deriving DecidableEq

/-- The body of the loop over the events of a round. -/
def handleEvent (s : ManagedUsbTty) (fd : ℤ) (io : EventCalls) : Option ManagedUsbTty :=
  if s.udevFd ≥ 0 ∧ fd = s.udevFd then some (s.handleUdev io.device io.attach)
  else if fd = s.ptyMasterFd then s.handlePty io.read io.writes
  else if s.physFd ≥ 0 ∧ fd = s.physFd then s.handlePhys io.read io.writes
  else some s

/-- The worker handles an event or ends, because `running` is false or because
`epoll_wait` failed; `close` clears `running`, and finishes when the worker has ended. -/
inductive Label where
  | event (fd : ℤ) (io : EventCalls)
  | workerEnds (waitFailed : Bool)
  | stop
  | close
  deriving DecidableEq

/-- The system hands out no number that is in use. -/
def Fresh (s : ManagedUsbTty) (io : EventCalls) : Bool :=
  io.attach.openTty.all fun (fd : ℕ) =>
    s.ledger.held fd = none ∧ (fd : ℤ) ≠ s.ptyMasterFd ∧ (fd : ℤ) ≠ s.udevFd

/-- The second half of `close()`. -/
def finishClose (s : ManagedUsbTty) : ManagedUsbTty :=
  let s := if s.physFd ≥ 0 then s.closePhys else s
  { s with ptyMasterFd := -1, udevFd := -1, closed := true }

def step (s : ManagedUsbTty) : Label → Option ManagedUsbTty
  | .event fd io => if s.worker && s.Fresh io then s.handleEvent fd io else none
  | .workerEnds waitFailed =>
    if s.worker && (waitFailed || !s.running) then
      some { s with worker := false, registered := [] }
    else none
  | .stop => some { s with running := false }
  | .close => if !s.running && !s.worker then some s.finishClose else none

section
variable {s t : ManagedUsbTty} {r : TtyRead} {os : List TtyWrite}

/-- A chunk from the PTY is dropped, is written, or meets an error on the way. -/
theorem handlePty_cases (h : s.handlePty r os = some t) :
    t = s ∨ 0 ≤ s.physFd ∧ ∃ w ok, writeLoop os r.received = some (w, ok) ∧
      ∃ u : ManagedUsbTty, u = { s with traffic := { s.traffic with
          fromPty := s.traffic.fromPty ++ r.received
          toPhys := s.traffic.toPhys ++ w } } ∧
        t = if ok then u else u.epollDel.closePhys := by
  rw [handlePty] at h
  split at h
  next hcond =>
    obtain ⟨⟨w, ok⟩, hw, rfl⟩ := Option.map_eq_some_iff.mp h
    exact Or.inr ⟨hcond.2, w, ok, hw, _, rfl, rfl⟩
  next => exact Or.inl (Option.some.inj h).symm

/-- A chunk from the physical tty is written or meets an error; without one the device is
gone, unless the read is to be tried again. -/
theorem handlePhys_cases (h : s.handlePhys r os = some t) :
    (r.received ≠ [] ∧ ∃ w ok, writeLoop os r.received = some (w, ok) ∧
      ∃ u : ManagedUsbTty, u = { s with traffic := { s.traffic with
          fromPhys := s.traffic.fromPhys ++ r.received
          toPty := s.traffic.toPty ++ w } } ∧
        t = if ok then u else u.closePhys) ∨
    (r.received = [] ∧ t = if r = .again then s else s.epollDel.closePhys) := by
  rw [handlePhys] at h
  split at h
  next hne =>
    obtain ⟨⟨w, ok⟩, hw, rfl⟩ := Option.map_eq_some_iff.mp h
    exact Or.inl ⟨hne, w, ok, hw, _, rfl, rfl⟩
  next hnil =>
    refine Or.inr ⟨not_ne_iff.mp hnil, ?_⟩
    split at h
    next hagain => rw [if_pos hagain, Option.some.inj h]
    next hagain => rw [if_neg hagain, Option.some.inj h]

end

end ManagedUsbTty
end MctpSerial
