import MctpSerial.FramerDescriptors
import MctpSerial.InterfaceDiscovery

/-!
# The kernel endpoint

`initialize` makes a PTY, sets the line discipline `N_MCTP` on its slave, waits for the
network device that this creates, configures it over netlink and attaches a framer to the
master; `close` undoes this. Each is a function of the object and of the results of the
calls it makes. It returns the object afterwards, the effects it has had outside the object
in their order, and what it returns or throws.
-/
namespace MctpSerial
open MctpFramer DescriptorLedgers

structure LinuxMctpSerial where
  mctpIfName : String
  localEid : Byte
  framer : MctpFramer
  rxFd : ℤ
  ptyMasterFd : ℤ
  ptySlaveFd : ℤ
  ptySlaveName : String
  deriving DecidableEq

namespace LinuxMctpSerial

/-- The constructor. -/
def init : LinuxMctpSerial := ⟨"", 0, .init, -1, -1, -1, ""⟩

/-- What happens outside the object. The logs are those of the framer's calls. -/
inductive Effect where
  | openMaster (fd : ℤ)
  | openSlave (fd : ℤ)
  | closeSlave (fd : ℤ)
  | closeMaster (fd : ℤ)
  /-- `TIOCSETD` with `N_MCTP`, and whether the kernel accepts it. -/
  | setMctp (fd : ℤ) (ok : Bool)
  /-- `TIOCSETD` with `N_TTY`; a refusal is no more than printed. -/
  | setTty (fd : ℤ) (ok : Bool)
  | openFramer (log : List (Event ℤ Origin))
  | closeFramer (log : List (Event ℤ Origin))
  | setInterfaceName (dev name : String)
  | setLocalEid (ifName : String) (eid : Byte)
  | setInterfaceStatus (ifName : String) (up : Bool)
  | addRoute (ifName : String) (eid : Byte)

/-- The entries an effect makes in a ledger. -/
def Effect.events : Effect → List (Event ℤ Origin)
  | .openMaster fd => [.obtained fd .ptyMaster]
  | .openSlave fd => [.obtained fd .ptySlave]
  | .closeSlave fd => [.closed fd]
  | .closeMaster fd => [.closed fd]
  | .openFramer log => log
  | .closeFramer log => log
  | _ => []

/-- The listings of the network devices. -/
abbrev Listings := ℕ → Option (List DirEntry)

/-- The results of the calls made by `close`. -/
structure ClosingCalls where
  lineDiscipline : Bool
  listings : Listings

/-- The wait of `close`: the name is cleared when a listing does not have it. `turns` are
left, and `i` is the next one. -/
def awaitGone (name : String) (listings : Listings) : ℕ → ℕ → String
  | 0, _ => name
  | turns + 1, i =>
    if name ∉ listMctpDevices (listings i) then "" else awaitGone name listings turns (i + 1)

def close (e : LinuxMctpSerial) (cs : ClosingCalls) : LinuxMctpSerial × List Effect :=
  ({ e with
      framer := e.framer.close
      rxFd := -1
      ptySlaveFd := if 0 ≤ e.ptySlaveFd then -1 else e.ptySlaveFd
      ptyMasterFd := if 0 ≤ e.ptyMasterFd then -1 else e.ptyMasterFd
      mctpIfName := awaitGone e.mctpIfName cs.listings 50 0 },
    .closeFramer e.framer.closeLog ::
      ((if 0 ≤ e.ptySlaveFd then
          [.setTty e.ptySlaveFd cs.lineDiscipline, .closeSlave e.ptySlaveFd] else []) ++
        if 0 ≤ e.ptyMasterFd then [.closeMaster e.ptyMasterFd] else []))

/-- What `initialize` throws. -/
inductive InitError where
  | openpt
  | grant
  | ptsname
  | openSlave (slaveName : String)
  | slaveNonblock
  | masterNonblock
  | lineDiscipline
  | discovery (e : DiscoveryError)
  | attachFramer
  /-- The exception of the constructor of `std::thread`. -/
  | thread
  | interfaceIndex
  | readyFd
  deriving DecidableEq

def InitError.what : InitError → Option String
  | .openpt => some "Failed to posix_openpt"
  | .grant => some "Failed to grant/unlock pty"
  | .ptsname => some "ptsname() failed"
  | .openSlave slaveName => some ("Failed to open slave PTY: " ++ slaveName)
  | .slaveNonblock => some "Failed to set non-blocking on slave PTY"
  | .masterNonblock => some "Failed to set non-blocking on master PTY"
  | .lineDiscipline => some "Failed to set MCTP line discipline on slave PTY"
  | .discovery e => some e.what
  | .attachFramer => some "Failed to attach framer to PTY master"
  | .thread => none
  | .interfaceIndex => some "Failed to get interface index"
  | .readyFd => some "Failed to acquire framer ready fd"

/-- The results of the calls that `initialize` makes. The non-blocking flags stand for both
calls of `fcntl`; `closeFirst` and `closeLast` are those of its calls of
`close`, before all else and before a throw. -/
structure SetupCalls where
  closeFirst : ClosingCalls
  before : Option (List DirEntry)
  openpt : Option ℕ
  grantpt : Bool
  unlockpt : Bool
  ptsname : Option String
  openSlave : Option ℕ
  slaveNonblock : Bool
  masterNonblock : Bool
  lineDiscipline : Bool
  polls : ℕ → Poll
  framer : OpenCalls
  thread : Bool
  ifIndex : Bool
  closeLast : ClosingCalls

/-- The object, its effects so far, and the value or the exception. -/
abbrev Result (α : Type) := LinuxMctpSerial × List Effect × Except InitError α

/-- The next part of a function, unless an exception was thrown. -/
def Result.andThen {α β : Type} (r : Result α) (next : LinuxMctpSerial → α → Result β) : Result β :=
  match r with
  | (e, log, .error err) => (e, log, .error err)
  | (e, log, .ok a) =>
    let (e', log', x) := next e a
    (e', log ++ log', x)

/-- A function that returns has gone through its first part and returned from the next. -/
theorem Result.andThen_returns {α β : Type} {r : Result α} {next : LinuxMctpSerial → α → Result β}
    {b : β} (h : (r.andThen next).2.2 = .ok b) : ∃ a, r.2.2 = .ok a ∧
      (next r.1 a).2.2 = .ok b ∧ (r.andThen next).1 = (next r.1 a).1 ∧
      (r.andThen next).2.1 = r.2.1 ++ (next r.1 a).2.1 := by
  obtain ⟨e, log, x⟩ := r
  cases x with
  | error err => cases h
  | ok a => exact ⟨a, rfl, h, rfl, rfl⟩

/-- `close()` and a throw. -/
def abandon {α : Type} (e : LinuxMctpSerial) (cs : SetupCalls) (err : InitError) : Result α :=
  let (e, log) := e.close cs.closeLast
  (e, log, .error err)

/-- The master, and the name of its slave. -/
def openMaster (e : LinuxMctpSerial) (cs : SetupCalls) : Result String :=
  match cs.openpt with
  | none => (e, [], .error .openpt)
  | some master =>
    Result.andThen ({ e with ptyMasterFd := master }, [.openMaster master], .ok ()) fun e _ =>
    if !cs.grantpt || !cs.unlockpt then e.abandon cs .grant
    else
      match cs.ptsname with
      | none => e.abandon cs .ptsname
      | some slaveName => ({ e with ptySlaveName := slaveName }, [], .ok slaveName)

/-- The slave, from `open` to the line discipline. -/
def openSlave (e : LinuxMctpSerial) (slaveName : String) (cs : SetupCalls) : Result Unit :=
  match cs.openSlave with
  | none => e.abandon cs (.openSlave slaveName)
  | some slave =>
    Result.andThen ({ e with ptySlaveFd := slave }, [.openSlave slave], .ok ()) fun e _ =>
    if !cs.slaveNonblock then e.abandon cs .slaveNonblock
    else if !cs.masterNonblock then e.abandon cs .masterNonblock
    else
      Result.andThen (e, [.setMctp slave cs.lineDiscipline], .ok ()) fun e _ =>
      if !cs.lineDiscipline then e.abandon cs .lineDiscipline else (e, [], .ok ())

/-- The loop over one listing: the name it leaves in `mctp_if_name`, the renaming it asks
for, and whether that succeeded. -/
def scanListing (before : List String) (requested : String) (renameOk : Bool) :
    String → List String → String × List Effect × Bool
  | name, [] => (name, [], true)
  | name, dev :: after =>
    if dev ∈ before then scanListing before requested renameOk name after
    else if requested ≠ "" then
      if !renameOk then (dev, [.setInterfaceName dev requested], false)
      else (requested, [.setInterfaceName dev requested], true)
    else scanListing before requested renameOk dev after

/-- The polling loop: the name it leaves, its requests, and the exception it ends in. -/
def awaitDevice (before : List String) (requested : String) :
    String → List Poll → String × List Effect × Except DiscoveryError Unit
  | name, [] => (name, [], if name = "" then .error .timedOut else .ok ())
  | name, p :: ps =>
    match scanListing before requested p.renameOk name (listMctpDevices p.dir) with
    | (name, log, false) => (name, log, .error (.renameFailed requested))
    | (name, log, true) =>
      if name = "" then (name, log, .error .timedOut)
      else
        let (name, log', x) := awaitDevice before requested name ps
        (name, log ++ log', x)

/-- The wait for the device, ten turns at most. -/
def findDevice (e : LinuxMctpSerial) (requested : String) (cs : SetupCalls) : Result Unit :=
  match awaitDevice (listMctpDevices cs.before) requested e.mctpIfName
      ((List.range 10).map cs.polls) with
  | (name, log, .ok ()) => ({ e with mctpIfName := name }, log, .ok ())
  | (name, log, .error err) =>
    Result.andThen ({ e with mctpIfName := name }, log, .ok ()) fun e _ =>
    e.abandon cs (.discovery err)

/-- The netlink requests. A request that fails is no more than a warning. -/
def configuration (ifName : String) (localEid : Byte) (peerEids : List Byte) : List Effect :=
  (if localEid ≠ 0 then [.setLocalEid ifName localEid] else []) ++
    .setInterfaceStatus ifName true :: peerEids.map fun eid => .addRoute ifName eid

def configure (e : LinuxMctpSerial) (localEid : Byte) (peerEids : List Byte) : Result Unit :=
  ({ e with localEid := localEid }, configuration e.mctpIfName localEid peerEids, .ok ())

def getFrameReadyFd (f : MctpFramer) : ℤ := if 0 ≤ f.readyFdDup then f.readyFdDup else f.pipeFds.1

/-- The framer and the descriptor that tells of its packets. -/
def attach (e : LinuxMctpSerial) (cs : SetupCalls) : Result String :=
  let call := OpenCall.openFd e.ptyMasterFd
  let (framer, ret) := e.framer.perform call cs.framer cs.thread
  Result.andThen ({ e with framer := framer }, [.openFramer (call.log e.framer cs.framer)], .ok ())
    fun e _ =>
    match ret with
    | none => (e, [], .error .thread)
    | some ret =>
      if ret < 0 then e.abandon cs .attachFramer
      else if !cs.ifIndex then e.abandon cs .interfaceIndex
      else
        let e := { e with rxFd := getFrameReadyFd e.framer }
        if e.rxFd < 0 then e.abandon cs .readyFd else (e, [], .ok e.mctpIfName)

/-- The object is in use, as far as its fields tell. -/
def isUp (e : LinuxMctpSerial) : Bool :=
  e.ptyMasterFd ≠ -1 || e.ptySlaveFd ≠ -1 || e.rxFd ≠ -1

def initializeLink (e : LinuxMctpSerial) (requested : String) (localEid : Byte)
    (peerEids : List Byte) (cs : SetupCalls) : Result String :=
  let (e, log) := if e.isUp then e.close cs.closeFirst else (e, [])
  Result.andThen (e, log, .ok ()) fun e _ =>
  (e.openMaster cs).andThen fun e slaveName =>
  (e.openSlave slaveName cs).andThen fun e _ =>
  (e.findDevice requested cs).andThen fun e _ =>
  (e.configure localEid peerEids).andThen fun e _ =>
  e.attach cs

end LinuxMctpSerial
end MctpSerial
