import MctpSerial.BroadcastMessenger
import MctpSerial.EndpointLifecycle
import MctpSerial.UsbForwarderLife

/-!
# The bridge object and its calls

`open` of the bridge closes what is there and then brings up four parts one after another;
any failure takes it all down again. The main thread is cut at the boundaries of the parts,
because the worker of the USB forwarder runs already while the others are brought up, and
the dispatch thread serves a client until `close` joins it. Each step returns its entries in
the ledger of descriptors, with a mark on those that come from `close` of the messenger.
-/
namespace MctpSerial.MctpBridge
open MctpFramer DescriptorLedgers ManagedUsbTty LinuxMctpSerial

/-- An entry, and whether `BcastMessenger::close` makes it. -/
structure Entry where
  byMessenger : Bool
  event : Event ℤ Origin

def entries (es : List (Event ℤ Origin)) : List Entry := es.map (Entry.mk false)

/-- The entries of the messenger's calls. -/
def sysCallEvents (calls : List BcastMessenger.SysCall) : List (Event ℤ Origin) :=
  calls.filterMap fun call =>
    match call with
    | .socket fd => some (.obtained fd .listener)
    | .accept fd => some (.obtained fd .client)
    | .close fd => some (.closed fd)
    | .unlink _ => none

/-- The object. `dispatching` says whether the dispatch thread can be joined. The flags for
the messenger tell that its fields still name what its `close` has closed. -/
structure Object where
  linuxEndpoint : LinuxMctpSerial
  mctpSerial : MctpFramer
  bcast : BcastMessenger
  listenStale : Bool
  connStale : Bool
  managedUsb : Option Forwarder
  ttyFd : ℤ
  ttyRawFd : ℤ
  ifname : String
  broadcastName : String
  running : Bool
  dispatching : Bool

/-- The constructor. -/
def Object.init : Object where
  linuxEndpoint := .init
  mctpSerial := .init
  bcast := .init
  listenStale := false
  connStale := false
  managedUsb := none
  ttyFd := -1
  ttyRawFd := -1
  ifname := ""
  broadcastName := ""
  running := false
  dispatching := false

/-- The results of the calls made by `close`. -/
structure CloseCalls where
  endpoint : ClosingCalls
  late : Option ℕ

/-- `close()` of the forwarder and its destructor. -/
def closeForwarder (f : Forwarder) (late : Option ℕ) : List (Event ℤ Origin) :=
  (f.close late).2 ++ ((f.close late).1.close none).2

def closeBroadcast (b : Object) : Object × List Entry :=
  ({ b with listenStale := true, connStale := true },
    (sysCallEvents b.bcast.close.2).map (Entry.mk true))

def Object.close (b : Object) (cs : CloseCalls) : Object × List Entry :=
  let (linuxEndpoint, effects) := b.linuxEndpoint.close cs.endpoint
  let es := effects.flatMap Effect.events ++ b.mctpSerial.closeLog ++
    (b.managedUsb.elim [] fun f => closeForwarder f cs.late) ++ closing b.ttyRawFd
  let (b, messenger) := closeBroadcast { b with
    linuxEndpoint := linuxEndpoint
    mctpSerial := b.mctpSerial.close
    managedUsb := none
    ttyFd := -1
    ttyRawFd := if 0 ≤ b.ttyRawFd then -1 else b.ttyRawFd
    ifname := ""
    broadcastName := ""
    running := false
    dispatching := false }
  (b, entries es ++ messenger)

/-- Where the main thread is. Between the parts of `open` the descriptor of the slave is a
local variable, if the tty is behind a forwarder. -/
inductive Stage where
  | idle
  | endpoint (slaveDup : Option ℕ)
  | broadcast (slaveDup : Option ℕ)
  | tty (slaveDup : Option ℕ)
  | dispatch
  deriving DecidableEq

/-- The way out of a failed `open`: a forwarder is closed first, then its slave, then all. -/
def giveUp (b : Object) (slaveDup : Option ℕ) (cs : CloseCalls) : Object × Stage × List Entry :=
  match slaveDup with
  | none =>
    let (b, log) := b.close cs
    (b, .idle, log)
  | some fd =>
    let es : List (Event ℤ Origin) :=
      match b.managedUsb with
      | none => [.closed (fd : ℤ)]
      | some f =>
        let (f, log) := f.close cs.late
        log ++ .closed (fd : ℤ) :: (f.close none).2
    let (b, log) := Object.close { b with managedUsb := none } cs
    (b, .idle, entries es ++ log)

/-- The beginning of `open`, up to the slave of the forwarder. -/
def openBegins (b : Object) (ttyPath : String) (useIdPathTag : Bool) (cs : CloseCalls)
    (usb : Forwarder.OpenCalls) (again : CloseCalls) : Object × Stage × List Entry :=
  let (b, log) := b.close cs
  if !useIdPathTag then (b, .endpoint none, log)
  else
    let (f, es, ret) := Forwarder.init.openPty ttyPath usb
    if ret < 0 then
      let (b, log') := b.close again
      (b, .idle, log ++ entries (es ++ (f.close none).2) ++ log')
    else
      ({ b with managedUsb := some f }, .endpoint (some ret.toNat), log ++ entries es)

/-- The kernel endpoint; whatever it throws is caught. -/
def initEndpoint (b : Object) (slaveDup : Option ℕ) (localEid : Byte) (peerEids : List Byte)
    (os : SetupCalls) (again : CloseCalls) : Object × Stage × List Entry :=
  let (linuxEndpoint, effects, x) := b.linuxEndpoint.initializeLink b.ifname localEid peerEids os
  let b := { b with linuxEndpoint := linuxEndpoint }
  let es := entries (effects.flatMap Effect.events)
  match x with
  | .error _ =>
    let (b, stage, log) := giveUp b slaveDup again
    (b, stage, es ++ log)
  | .ok name => ({ b with ifname := name }, .broadcast slaveDup, es)

def openBroadcast (b : Object) (slaveDup : Option ℕ) (os : BcastMessenger.SetupCalls)
    (again : CloseCalls) : Object × Stage × List Entry :=
  let name := "/tmp/bcast_" ++ b.ifname ++ ".sock"
  let (bcast, calls, ok) := b.bcast.openPath name os
  let b := { b with broadcastName := name, bcast := bcast, listenStale := false }
  let es := entries (sysCallEvents calls)
  if !ok then
    let (b, stage, log) := giveUp b slaveDup again
    (b, stage, es ++ log)
  else (b, .tty slaveDup, es)

/-- The results of the calls that open and configure a tty without a forwarder, and of those
that attach the framer. -/
structure TtyCalls where
  openTty : Option ℕ
  tcgetattr : Bool
  tcsetattr : Bool
  framer : MctpFramer.OpenCalls
  thread : Bool

/-- The framer on `fd`. An exception leaves `open` with `fd` in no field. -/
def attachFramer (b : Object) (fd : ℕ) (os : TtyCalls)
    (giveUp : Object → Object × Stage × List Entry) : Object × Stage × List Entry :=
  let call := OpenCall.openFd fd
  let es := entries (call.log b.mctpSerial os.framer)
  let (framer, ret) := b.mctpSerial.perform call os.framer os.thread
  let b := { b with mctpSerial := framer }
  match ret with
  | none => (b, .idle, es)
  | some pipefd =>
    if pipefd < 0 then
      let (b, stage, log) := giveUp b
      (b, stage, es ++ log)
    else ({ b with ttyRawFd := fd, ttyFd := pipefd }, .dispatch, es)

/-- `::close(fd)` and `close()`. -/
def closeTty (b : Object) (fd : ℕ) (again : CloseCalls) : Object × Stage × List Entry :=
  let (b, log) := b.close again
  (b, .idle, entries [.closed (fd : ℤ)] ++ log)

def openTty (b : Object) (slaveDup : Option ℕ) (os : TtyCalls) (again : CloseCalls) :
    Object × Stage × List Entry :=
  match slaveDup with
  | some fd => attachFramer b fd os fun b => giveUp b (some fd) again
  | none =>
    match os.openTty with
    | none => giveUp b none again
    | some fd =>
      let opened := entries [.obtained (fd : ℤ) .tty]
      let (b, stage, log) :=
        if !os.tcgetattr || !os.tcsetattr then closeTty b fd again
        else attachFramer b fd os fun b => closeTty b fd again
      (b, stage, opened ++ log)

/-- The dispatch thread; `running` is set even if the thread cannot be created. -/
def startDispatch (b : Object) (thread : Bool) : Object :=
  { b with running := true, dispatching := thread }

/-- A call of the destructor: `close`, then the parts. -/
def destroy (b : Object) (cs again : CloseCalls) : Object × List Entry :=
  let (b, log) := b.close cs
  let (b, messenger) := closeBroadcast b
  let (linuxEndpoint, effects) := b.linuxEndpoint.close again.endpoint
  ({ b with mctpSerial := b.mctpSerial.close, linuxEndpoint := linuxEndpoint },
    log ++ messenger ++ entries (b.mctpSerial.closeLog ++ effects.flatMap Effect.events))

/-! ## What the fields name -/

/-- The sockets of the messenger, unless its `close` has closed them. -/
def Object.sockets (b : Object) : Multiset (ℤ × Origin) :=
  (if b.connStale then 0 else named b.bcast.connFd .client) +
    (if b.listenStale then 0 else named b.bcast.listenFd .listener)

def Object.descriptors (b : Object) : Multiset (ℤ × Origin) :=
  b.linuxEndpoint.descriptors + b.mctpSerial.descriptors +
    (b.managedUsb.elim 0 fun f => f.descriptors) + named b.ttyRawFd .tty + b.sockets

/-- The local variable of `open`. -/
def slaveNamed (slaveDup : Option ℕ) : Multiset (ℤ × Origin) :=
  slaveDup.elim 0 fun fd => {((fd : ℤ), .tty)}

def Stage.descriptors : Stage → Multiset (ℤ × Origin)
  | .endpoint slaveDup => slaveNamed slaveDup
  | .broadcast slaveDup => slaveNamed slaveDup
  | .tty slaveDup => slaveNamed slaveDup
  | _ => 0

end MctpSerial.MctpBridge
