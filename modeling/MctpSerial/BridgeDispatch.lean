import MctpSerial.AcceptedFrames
import MctpSerial.BroadcastMessenger
import MctpSerial.GuardedRuns

/-!
# The dispatch loop of the bridge

The bridge joins two framers and the broadcast messenger. Two receive threads feed the
packet sockets of the framers, clients come, send and go, and the dispatch thread runs
`run`. One label is one step of one of these parties. The loop is cut into its accept
phase, its epoll phase and one phase for each source; between two phases any other party
may move.
-/
namespace MctpSerial
open MctpFramer StreamTransducers GuardedRuns

/-- A framer as the bridge sees it: the receive state machine, the packets waiting in its
packet socket, the messages `send` was called with and the bytes it has written. -/
structure Port where
  rx : Rx
  packets : List Packet
  sent : List Packet
  wire : List Byte
  deriving DecidableEq

namespace Port

def init (rx : Rx) : Port := ⟨rx, [], [], []⟩

/-- The receive thread consumes a byte. A packet that finds no `room` in the packet
socket is dropped. -/
def receiveByte (p : Port) (b : Byte) (room : Bool) : Port :=
  { p with
    rx := (updateRxFSM p.rx b).1
    packets := p.packets ++ if room then (updateRxFSM p.rx b).2.toList else [] }

/-- Whether `recv` on the packet socket returns a packet. -/
inductive ReadResult where
  | packet
  | failed
  deriving DecidableEq

/-- `MctpFramer::receive`. Packets are shorter than its buffer, and an error gives an
empty message. A packet cannot be read from an empty socket. -/
def receive (p : Port) : ReadResult → Option (Packet × Port)
  | .failed => some ([], p)
  | .packet =>
    match p.packets with
    | [] => none
    | msg :: rest => some (msg, { p with packets := rest })

/-- `MctpFramer::send`, once its writes have returned. -/
def transmit (p : Port) (msg : Packet) (os : List WriteOutcome) : Option Port :=
  if (send msg os).ret.isSome then
    some { p with sent := p.sent ++ [msg], wire := p.wire ++ (send msg os).written }
  else none

theorem receive_packet {p source : Port} {r : ReadResult} {msg : Packet}
    (h : p.receive r = some (msg, source)) (hr : r = .packet) :
    ∃ rest, p.packets = msg :: rest ∧ source = { p with packets := rest } := by
  subst hr
  unfold Port.receive at h
  cases hq : p.packets with
  | nil => simp [hq] at h
  | cons x rest =>
    simp only [hq, Option.some.injEq, Prod.mk.injEq] at h
    exact ⟨rest, by rw [h.1], h.2.symm⟩

theorem transmit_spec {p port : Port} {msg : Packet} {os : List WriteOutcome}
    (h : p.transmit msg os = some port) :
    (∃ r, (send msg os).ret = some r) ∧
      port = { p with sent := p.sent ++ [msg], wire := p.wire ++ (send msg os).written } := by
  simp only [transmit, Option.ite_none_right_eq_some, Option.some.injEq] at h
  exact ⟨Option.isSome_iff_exists.mp h.1, h.2.symm⟩

end Port

/-- The connected client: the datagrams it has sent that are not read yet, and whether its
end of the connection is still open. -/
structure Client where
  datagrams : List Packet
  peerOpen : Bool
  deriving DecidableEq

/-- The sources reported by `epoll_wait`. -/
structure Ready where
  bcast : Bool
  linux : Bool
  tty : Bool
  deriving DecidableEq

namespace MctpBridge

/-- Where the dispatch thread is. `exited` is the end of `run`; an exception that leaves it
and a fatal signal are ends of their own. -/
inductive Phase where
  | loop
  | epoll
  | bcast (r : Ready)
  | linux (r : Ready)
  | tty (r : Ready)
  | exited
  | thrown (what : String)
  | killed
  deriving DecidableEq

end MctpBridge

/-- The bridge with its surroundings. `clientOut` holds the messages sent to clients and
`lookups` the messages whose byte 1 was read as a destination. -/
structure MctpBridge where
  running : Bool
  phase : MctpBridge.Phase
  mctpSerial : Port
  linuxEndpoint : Port
  bcast : BcastMessenger
  client : Client
  clientOut : List Packet
  lookups : List Packet
  deriving DecidableEq

namespace MctpBridge

/-- The state in which `open` starts the dispatch thread. The framers may carry receive
states of earlier sessions, and the messenger has just been opened. -/
def start (serialRx linuxRx : Rx) (m : BcastMessenger) (path : String) (fd : ℕ) : MctpBridge where
  running := true
  phase := .loop
  mctpSerial := Port.init serialRx
  linuxEndpoint := Port.init linuxRx
  bcast := (m.openPath path ⟨some fd, true, true⟩).1
  client := ⟨[], false⟩
  clientOut := []
  lookups := []

theorem isConnected_start (serialRx linuxRx : Rx) (m : BcastMessenger) (path : String) (fd : ℕ) :
    (start serialRx linuxRx m path fd).bcast.isConnected = false := by
  rw [start, BcastMessenger.openPath_ok]
  rfl

/-- What `recv` on the client socket answers; `datagram` reads the head of its queue. -/
inductive ClientRead where
  | datagram
  | endOfFile
  | wouldBlock
  | failed
  deriving DecidableEq

/-- One step of one party, with the results of the system calls made in it. The byte
`beyond` is what the loop finds at index 1 of a message that is too short for it. -/
inductive Label where
  | serialByte (b : Byte) (room : Bool)
  | linuxByte (b : Byte) (room : Bool)
  | clientSend (d : Packet)
  | clientClose
  | stop
  | check
  | accept (r : BcastMessenger.AcceptResult) (c : Client)
  | wait (created : Bool) (ready : Option Ready)
  | serveBcast (r : ClientRead) (beyond : Byte) (os : List WriteOutcome)
  | serveLinux (r : Port.ReadResult) (os : List WriteOutcome)
  | serveTty (r : Port.ReadResult) (beyond : Byte) (ok : Bool) (os : List WriteOutcome)
  deriving DecidableEq

/-- The destination `msg[1]`. -/
def destEid (msg : Packet) (beyond : Byte) : Byte := msg.getD 1 beyond

/-- A datagram of legal length fits into the buffer of `recvMessage`. -/
theorem take_of_sendable {d : Packet} (h : Sendable d) : d.take 256 = d :=
  List.take_of_length_le (by have := h.2; omega)

/-- The test on the destination that sends a message to or from the broadcast socket. -/
def isBroadcastEid (eid : Byte) : Bool := eid == 0xFF || eid == 0x00

/-- The answer of the client socket, and its queue afterwards. -/
def Client.recv (c : Client) : ClientRead → Option (BcastMessenger.RecvResult × Client)
  | .datagram =>
    match c.datagrams with
    | [] => none
    | d :: rest => some (.datagram d, { c with datagrams := rest })
  | .endOfFile => some (.endOfFile, c)
  | .wouldBlock => some (.wouldBlock, c)
  | .failed => some (.failed, c)

theorem Client.recv_datagram {c client : Client} {r : ClientRead} {d : List Byte}
    (h : Client.recv c r = some (.datagram d, client)) :
    r = .datagram ∧ ∃ rest, c.datagrams = d :: rest ∧ client = { c with datagrams := rest } := by
  cases r with
  | datagram =>
    unfold Client.recv at h
    cases hq : c.datagrams with
    | nil => simp [hq] at h
    | cons x rest =>
      simp only [hq, Option.some.injEq, Prod.mk.injEq, BcastMessenger.RecvResult.datagram.injEq] at h
      exact ⟨rfl, rest, by rw [h.1], h.2.symm⟩
  | endOfFile => simp [Client.recv] at h
  | wouldBlock => simp [Client.recv] at h
  | failed => simp [Client.recv] at h

/-- Reading a datagram from a connected client yields a message. -/
theorem Client.recv_answers {c client : Client} {d : Packet} {m : BcastMessenger}
    {answer : BcastMessenger.RecvResult} (hhead : c.datagrams.head? = some d) (hd : d ≠ [])
    (hm : m.isConnected = true) (h : Client.recv c .datagram = some (answer, client)) :
    (m.recvMessage answer).2.2 ≠ [] := by
  obtain ⟨rest, hq⟩ := List.head?_eq_some_iff.mp hhead
  simp only [Client.recv, hq, Option.some.injEq, Prod.mk.injEq] at h
  rw [← h.1, BcastMessenger.recvMessage_datagram hm hd]
  simpa using hd

theorem Client.recv_subset {c client : Client} {r : ClientRead}
    {answer : BcastMessenger.RecvResult} (h : Client.recv c r = some (answer, client)) :
    client.datagrams ⊆ c.datagrams := by
  cases r with
  | datagram =>
    unfold Client.recv at h
    cases hq : c.datagrams with
    | nil => simp [hq] at h
    | cons d rest =>
      simp only [hq, Option.some.injEq, Prod.mk.injEq] at h
      rw [← h.2]
      exact List.subset_cons_self d rest
  | endOfFile =>
    cases h
    exact List.Subset.refl _
  | wouldBlock =>
    cases h
    exact List.Subset.refl _
  | failed =>
    cases h
    exact List.Subset.refl _

/-- The head of the loop, when `acceptConnection` is not called. -/
def checkPhase (s : MctpBridge) : Option MctpBridge :=
  if !s.running then some { s with phase := .exited }
  else if s.bcast.isConnected then some { s with phase := .epoll }
  else none

/-- The head of the loop, when no client is connected; `c` is the client accepted. -/
def acceptPhase (s : MctpBridge) (r : BcastMessenger.AcceptResult) (c : Client) :
    Option MctpBridge :=
  if !s.running || s.bcast.isConnected then none
  else
    let (bcast, _, result) := s.bcast.acceptConnection r
    match result with
    | .error e => some { s with bcast := bcast, phase := .thrown e }
    | .ok () => some { s with
        bcast := bcast
        client := if bcast.isConnected then c else s.client
        phase := .epoll }

/-- Epoll: without an instance or without an event the loop starts over. The client
socket is registered only while a client is connected. -/
def waitPhase (s : MctpBridge) (created : Bool) (ready : Option Ready) : MctpBridge :=
  if !created then { s with phase := .loop }
  else
    match ready with
    | none => { s with phase := .loop }
    | some r => { s with phase := .bcast { r with bcast := r.bcast && s.bcast.isConnected } }

/-- From the client to the serial line: broadcasts only. -/
def bcastPhase (s : MctpBridge) (ready : Ready) (r : ClientRead) (beyond : Byte)
    (os : List WriteOutcome) : Option MctpBridge :=
  if !ready.bcast then some { s with phase := .linux ready }
  else do
    let (answer, client) ← Client.recv s.client r
    let (bcast, _, msg) := s.bcast.recvMessage answer
    let s := { s with bcast := bcast, client := client, phase := .linux ready }
    if msg.length > 0 then
      let s := { s with lookups := s.lookups ++ [msg] }
      if isBroadcastEid (destEid msg beyond) then
        let port ← s.mctpSerial.transmit msg os
        some { s with mctpSerial := port }
      else some s
    else some s

/-- From the kernel to the serial line: everything, the empty message included. -/
def linuxPhase (s : MctpBridge) (ready : Ready) (r : Port.ReadResult) (os : List WriteOutcome) :
    Option MctpBridge :=
  if !ready.linux then some { s with phase := .tty ready }
  else do
    let (msg, linuxEndpoint) ← s.linuxEndpoint.receive r
    let port ← s.mctpSerial.transmit msg os
    some { s with linuxEndpoint := linuxEndpoint, mctpSerial := port, phase := .tty ready }

/-- From the serial line to the client or the kernel, by destination. -/
def ttyPhase (s : MctpBridge) (ready : Ready) (r : Port.ReadResult) (beyond : Byte) (ok : Bool)
    (os : List WriteOutcome) : Option MctpBridge :=
  if !ready.tty then some { s with phase := .loop }
  else do
    let (msg, mctpSerial) ← s.mctpSerial.receive r
    let s := { s with mctpSerial := mctpSerial, phase := .loop }
    if msg.length > 0 then
      let s := { s with lookups := s.lookups ++ [msg] }
      if isBroadcastEid (destEid msg beyond) then
        match s.bcast.sendMessage msg s.client.peerOpen ok with
        | .sigpipe => some { s with phase := .killed }
        | .sent data => some { s with clientOut := s.clientOut ++ [data] }
        | .skipped | .failed => some s
      else
        let port ← s.linuxEndpoint.transmit msg os
        some { s with linuxEndpoint := port }
    else some s

/-- One step. A label of the dispatch thread is possible only in its phase, and a client
acts only while it is there. -/
def step (s : MctpBridge) : Label → Option MctpBridge
  | .serialByte b room => some { s with mctpSerial := s.mctpSerial.receiveByte b room }
  | .linuxByte b room => some { s with linuxEndpoint := s.linuxEndpoint.receiveByte b room }
  | .clientSend d =>
    if s.bcast.isConnected && s.client.peerOpen then
      some { s with client := { s.client with datagrams := s.client.datagrams ++ [d] } }
    else none
  | .clientClose =>
    if s.bcast.isConnected && s.client.peerOpen then
      some { s with client := { s.client with peerOpen := false } }
    else none
  | .stop => some { s with running := false }
  | .check =>
    match s.phase with
    | .loop => s.checkPhase
    | _ => none
  | .accept r c =>
    match s.phase with
    | .loop => s.acceptPhase r c
    | _ => none
  | .wait created ready =>
    match s.phase with
    | .epoll => some (s.waitPhase created ready)
    | _ => none
  | .serveBcast r beyond os =>
    match s.phase with
    | .bcast ready => s.bcastPhase ready r beyond os
    | _ => none
  | .serveLinux r os =>
    match s.phase with
    | .linux ready => s.linuxPhase ready r os
    | _ => none
  | .serveTty r beyond ok os =>
    match s.phase with
    | .tty ready => s.ttyPhase ready r beyond ok os
    | _ => none

/-- The serial bytes a label brings. -/
def Label.serialBytes : Label → List Byte
  | .serialByte b _ => [b]
  | _ => []

def Label.linuxBytes : Label → List Byte
  | .linuxByte b _ => [b]
  | _ => []

/-- The datagrams of connected clients a label brings. A client may have sent some before
it is accepted. -/
def Label.clientDatagrams : Label → List Packet
  | .clientSend d => [d]
  | .accept (.client _) c => c.datagrams
  | _ => []

/-- Everything a step can do. -/
inductive Moves : MctpBridge → Label → MctpBridge → Prop
  | serialByte (s : MctpBridge) (b : Byte) (room : Bool) :
      Moves s (.serialByte b room) { s with mctpSerial := s.mctpSerial.receiveByte b room }
  | linuxByte (s : MctpBridge) (b : Byte) (room : Bool) :
      Moves s (.linuxByte b room) { s with linuxEndpoint := s.linuxEndpoint.receiveByte b room }
  | clientSend (s : MctpBridge) (d : Packet) (hconn : s.bcast.isConnected = true) :
      Moves s (.clientSend d)
        { s with client := { s.client with datagrams := s.client.datagrams ++ [d] } }
  | clientClose (s : MctpBridge) (hconn : s.bcast.isConnected = true) :
      Moves s .clientClose { s with client := { s.client with peerOpen := false } }
  | stop (s : MctpBridge) : Moves s .stop { s with running := false }
  | leave (s : MctpBridge) (hp : s.phase = .loop) (hr : s.running = false) :
      Moves s .check { s with phase := .exited }
  | keep (s : MctpBridge) (hp : s.phase = .loop) (hconn : s.bcast.isConnected = true) :
      Moves s .check { s with phase := .epoll }
  | accepted (s : MctpBridge) (fd : ℕ) (c : Client) (hp : s.phase = .loop)
      (hconn : s.bcast.isConnected = false) :
      Moves s (.accept (.client fd) c)
        { s with
          bcast := { s.bcast with connFd := fd, state := .connected }
          client := c
          phase := .epoll }
  | acceptBlocked (s : MctpBridge) (c : Client) (hp : s.phase = .loop)
      (hconn : s.bcast.isConnected = false) :
      Moves s (.accept .wouldBlock c)
        { s with bcast := { s.bcast with connFd := -1 }, phase := .epoll }
  | acceptFailed (s : MctpBridge) (c : Client) (hp : s.phase = .loop)
      (hconn : s.bcast.isConnected = false) :
      Moves s (.accept .failed c)
        { s with bcast := { s.bcast with connFd := -1 }, phase := .thrown "accept() failed" }
  | idle (s : MctpBridge) (created : Bool) (ready : Option Ready) (hp : s.phase = .epoll) :
      Moves s (.wait created ready) { s with phase := .loop }
  | ready (s : MctpBridge) (r : Ready) (hp : s.phase = .epoll) :
      Moves s (.wait true (some r))
        { s with phase := .bcast { r with bcast := r.bcast && s.bcast.isConnected } }
  | bcastSkip (s : MctpBridge) (ready : Ready) (r : ClientRead) (beyond : Byte)
      (os : List WriteOutcome) (hp : s.phase = .bcast ready) (hr : ready.bcast = false) :
      Moves s (.serveBcast r beyond os) { s with phase := .linux ready }
  | bcastNothing (s : MctpBridge) (ready : Ready) (r : ClientRead) (beyond : Byte)
      (os : List WriteOutcome) (answer : BcastMessenger.RecvResult) (client : Client)
      (hp : s.phase = .bcast ready) (hr : ready.bcast = true)
      (hrecv : Client.recv s.client r = some (answer, client))
      (hmsg : (s.bcast.recvMessage answer).2.2 = []) :
      Moves s (.serveBcast r beyond os)
        { s with
          bcast := (s.bcast.recvMessage answer).1
          client := client
          phase := .linux ready }
  | bcastIgnored (s : MctpBridge) (ready : Ready) (beyond : Byte) (os : List WriteOutcome)
      (d : Packet) (rest : List Packet) (hp : s.phase = .bcast ready) (hr : ready.bcast = true)
      (hq : s.client.datagrams = d :: rest) (hconn : s.bcast.isConnected = true) (hd : d ≠ [])
      (hdest : isBroadcastEid (destEid (d.take 256) beyond) = false) :
      Moves s (.serveBcast .datagram beyond os)
        { s with
          client := { s.client with datagrams := rest }
          lookups := s.lookups ++ [d.take 256]
          phase := .linux ready }
  | bcastRelayed (s : MctpBridge) (ready : Ready) (beyond : Byte) (os : List WriteOutcome)
      (d : Packet) (rest : List Packet) (port : Port) (hp : s.phase = .bcast ready)
      (hr : ready.bcast = true) (hq : s.client.datagrams = d :: rest)
      (hconn : s.bcast.isConnected = true) (hd : d ≠ [])
      (hdest : isBroadcastEid (destEid (d.take 256) beyond) = true)
      (hsend : s.mctpSerial.transmit (d.take 256) os = some port) :
      Moves s (.serveBcast .datagram beyond os)
        { s with
          mctpSerial := port
          client := { s.client with datagrams := rest }
          lookups := s.lookups ++ [d.take 256]
          phase := .linux ready }
  | linuxSkip (s : MctpBridge) (ready : Ready) (r : Port.ReadResult) (os : List WriteOutcome)
      (hp : s.phase = .linux ready) (hr : ready.linux = false) :
      Moves s (.serveLinux r os) { s with phase := .tty ready }
  | linuxRelayed (s : MctpBridge) (ready : Ready) (r : Port.ReadResult) (os : List WriteOutcome)
      (msg : Packet) (source port : Port) (hp : s.phase = .linux ready) (hr : ready.linux = true)
      (hread : s.linuxEndpoint.receive r = some (msg, source))
      (hsend : s.mctpSerial.transmit msg os = some port) :
      Moves s (.serveLinux r os)
        { s with linuxEndpoint := source, mctpSerial := port, phase := .tty ready }
  | ttySkip (s : MctpBridge) (ready : Ready) (r : Port.ReadResult) (beyond : Byte) (ok : Bool)
      (os : List WriteOutcome) (hp : s.phase = .tty ready) (hr : ready.tty = false) :
      Moves s (.serveTty r beyond ok os) { s with phase := .loop }
  | ttyNothing (s : MctpBridge) (ready : Ready) (r : Port.ReadResult) (beyond : Byte) (ok : Bool)
      (os : List WriteOutcome) (source : Port) (hp : s.phase = .tty ready) (hr : ready.tty = true)
      (hread : s.mctpSerial.receive r = some ([], source)) :
      Moves s (.serveTty r beyond ok os) { s with mctpSerial := source, phase := .loop }
  | ttyDropped (s : MctpBridge) (ready : Ready) (r : Port.ReadResult) (beyond : Byte) (ok : Bool)
      (os : List WriteOutcome) (msg : Packet) (source : Port) (hp : s.phase = .tty ready)
      (hr : ready.tty = true) (hread : s.mctpSerial.receive r = some (msg, source))
      (hmsg : msg ≠ []) (hdest : isBroadcastEid (destEid msg beyond) = true)
      (hdrop : s.bcast.isConnected = false ∨ s.client.peerOpen = true ∧ ok = false) :
      Moves s (.serveTty r beyond ok os)
        { s with mctpSerial := source, lookups := s.lookups ++ [msg], phase := .loop }
  | ttyKilled (s : MctpBridge) (ready : Ready) (r : Port.ReadResult) (beyond : Byte) (ok : Bool)
      (os : List WriteOutcome) (msg : Packet) (source : Port) (hp : s.phase = .tty ready)
      (hr : ready.tty = true) (hread : s.mctpSerial.receive r = some (msg, source))
      (hmsg : msg ≠ []) (hdest : isBroadcastEid (destEid msg beyond) = true)
      (hconn : s.bcast.isConnected = true) (hpeer : s.client.peerOpen = false) :
      Moves s (.serveTty r beyond ok os)
        { s with mctpSerial := source, lookups := s.lookups ++ [msg], phase := .killed }
  | ttySent (s : MctpBridge) (ready : Ready) (r : Port.ReadResult) (beyond : Byte)
      (os : List WriteOutcome) (msg : Packet) (source : Port) (hp : s.phase = .tty ready)
      (hr : ready.tty = true) (hread : s.mctpSerial.receive r = some (msg, source))
      (hmsg : msg ≠ []) (hdest : isBroadcastEid (destEid msg beyond) = true)
      (hconn : s.bcast.isConnected = true) (hpeer : s.client.peerOpen = true) :
      Moves s (.serveTty r beyond true os)
        { s with
          mctpSerial := source
          clientOut := s.clientOut ++ [msg]
          lookups := s.lookups ++ [msg]
          phase := .loop }
  | ttyRelayed (s : MctpBridge) (ready : Ready) (r : Port.ReadResult) (beyond : Byte) (ok : Bool)
      (os : List WriteOutcome) (msg : Packet) (source port : Port) (hp : s.phase = .tty ready)
      (hr : ready.tty = true) (hread : s.mctpSerial.receive r = some (msg, source))
      (hmsg : msg ≠ []) (hdest : isBroadcastEid (destEid msg beyond) = false)
      (hsend : s.linuxEndpoint.transmit msg os = some port) :
      Moves s (.serveTty r beyond ok os)
        { s with
          mctpSerial := source
          linuxEndpoint := port
          lookups := s.lookups ++ [msg]
          phase := .loop }

theorem Moves.of_checkPhase {s t : MctpBridge} (hp : s.phase = .loop)
    (h : s.checkPhase = some t) : Moves s .check t := by
  rw [checkPhase] at h
  split at h
  next hr =>
    cases h
    exact .leave s hp (by simpa using hr)
  next hr =>
    split at h
    next hconn =>
      cases h
      exact .keep s hp hconn
    next hconn => cases h

theorem Moves.of_acceptPhase {s t : MctpBridge} {r : BcastMessenger.AcceptResult} {c : Client}
    (hp : s.phase = .loop) (h : s.acceptPhase r c = some t) : Moves s (.accept r c) t := by
  rw [acceptPhase] at h
  split at h
  next => cases h
  next hguard =>
    have hconn : s.bcast.isConnected = false := by
      simp only [Bool.or_eq_true, not_or, Bool.not_eq_true] at hguard
      exact hguard.2
    cases r with
    | client fd =>
      have hnow : ({ s.bcast with connFd := fd, state := .connected } : BcastMessenger).isConnected =
          true := by
        simp [BcastMessenger.isConnected]
      simp only [BcastMessenger.acceptConnection, hnow, if_true, Option.some.injEq] at h
      rw [← h]
      exact .accepted s fd c hp hconn
    | wouldBlock =>
      have hnow : ({ s.bcast with connFd := -1 } : BcastMessenger).isConnected = false := by
        simp [BcastMessenger.isConnected]
      simp only [BcastMessenger.acceptConnection, hnow, Bool.false_eq_true, if_false,
        Option.some.injEq] at h
      rw [← h]
      exact .acceptBlocked s c hp hconn
    | failed =>
      simp only [BcastMessenger.acceptConnection, Option.some.injEq] at h
      rw [← h]
      exact .acceptFailed s c hp hconn

theorem Moves.of_waitPhase {s : MctpBridge} {created : Bool} {ready : Option Ready}
    (hp : s.phase = .epoll) : Moves s (.wait created ready) (s.waitPhase created ready) := by
  cases created with
  | false => exact .idle s false ready hp
  | true =>
    cases ready with
    | none => exact .idle s true none hp
    | some r => exact .ready s r hp

theorem Moves.of_bcastPhase {s t : MctpBridge} {ready : Ready} {r : ClientRead} {beyond : Byte}
    {os : List WriteOutcome} (hp : s.phase = .bcast ready)
    (h : s.bcastPhase ready r beyond os = some t) : Moves s (.serveBcast r beyond os) t := by
  rw [bcastPhase] at h
  split at h
  next hr =>
    cases h
    exact .bcastSkip s ready r beyond os hp (by simpa using hr)
  next hr =>
    have hr : ready.bcast = true := by simpa using hr
    obtain ⟨⟨answer, client⟩, hrecv, h⟩ := Option.bind_eq_some_iff.mp h
    by_cases hmsg : (s.bcast.recvMessage answer).2.2 = []
    · simp only [hmsg, List.length_nil, gt_iff_lt, lt_self_iff_false, if_false,
        Option.some.injEq] at h
      rw [← h]
      exact .bcastNothing s ready r beyond os answer client hp hr hrecv hmsg
    · obtain ⟨hconn, d, rfl, hd, hread⟩ := BcastMessenger.recvMessage_of_ne_nil hmsg
      obtain ⟨rfl, rest, hq, rfl⟩ := Client.recv_datagram hrecv
      rw [hread] at hmsg
      simp only [hread, gt_iff_lt, List.length_pos_iff.mpr hmsg, if_true] at h
      cases hdest : isBroadcastEid (destEid (d.take 256) beyond) with
      | false =>
        simp only [hdest, Bool.false_eq_true, if_false, Option.some.injEq] at h
        rw [← h]
        exact .bcastIgnored s ready beyond os d rest hp hr hq hconn hd hdest
      | true =>
        simp only [hdest, if_true] at h
        obtain ⟨port, hsend, h⟩ := Option.bind_eq_some_iff.mp h
        rw [← Option.some.inj h]
        exact .bcastRelayed s ready beyond os d rest port hp hr hq hconn hd hdest hsend

theorem Moves.of_linuxPhase {s t : MctpBridge} {ready : Ready} {r : Port.ReadResult}
    {os : List WriteOutcome} (hp : s.phase = .linux ready)
    (h : s.linuxPhase ready r os = some t) : Moves s (.serveLinux r os) t := by
  rw [linuxPhase] at h
  split at h
  next hr =>
    cases h
    exact .linuxSkip s ready r os hp (by simpa using hr)
  next hr =>
    obtain ⟨⟨msg, source⟩, hread, h⟩ := Option.bind_eq_some_iff.mp h
    obtain ⟨port, hsend, h⟩ := Option.bind_eq_some_iff.mp h
    rw [← Option.some.inj h]
    exact .linuxRelayed s ready r os msg source port hp (by simpa using hr) hread hsend

theorem Moves.of_ttyPhase {s t : MctpBridge} {ready : Ready} {r : Port.ReadResult} {beyond : Byte}
    {ok : Bool} {os : List WriteOutcome} (hp : s.phase = .tty ready)
    (h : s.ttyPhase ready r beyond ok os = some t) : Moves s (.serveTty r beyond ok os) t := by
  rw [ttyPhase] at h
  split at h
  next hr =>
    cases h
    exact .ttySkip s ready r beyond ok os hp (by simpa using hr)
  next hr =>
    have hr : ready.tty = true := by simpa using hr
    obtain ⟨⟨msg, source⟩, hread, h⟩ := Option.bind_eq_some_iff.mp h
    by_cases hmsg : msg = []
    · subst hmsg
      simp only [List.length_nil, gt_iff_lt, lt_self_iff_false, if_false, Option.some.injEq] at h
      rw [← h]
      exact .ttyNothing s ready r beyond ok os source hp hr hread
    · simp only [gt_iff_lt, List.length_pos_iff.mpr hmsg, if_true] at h
      cases hdest : isBroadcastEid (destEid msg beyond) with
      | false =>
        simp only [hdest, Bool.false_eq_true, if_false] at h
        obtain ⟨port, hsend, h⟩ := Option.bind_eq_some_iff.mp h
        rw [← Option.some.inj h]
        exact .ttyRelayed s ready r beyond ok os msg source port hp hr hread hmsg hdest hsend
      | true =>
        simp only [hdest, if_true, BcastMessenger.sendMessage] at h
        cases hconn : s.bcast.isConnected with
        | false =>
          simp only [hconn, Bool.not_false, if_true, Option.some.injEq] at h
          rw [← h]
          exact .ttyDropped s ready r beyond ok os msg source hp hr hread hmsg hdest (Or.inl hconn)
        | true =>
          cases hpeer : s.client.peerOpen with
          | false =>
            simp only [hconn, hpeer, Bool.not_true, Bool.not_false, Bool.false_eq_true, if_false,
              if_true, Option.some.injEq] at h
            rw [← h]
            exact .ttyKilled s ready r beyond ok os msg source hp hr hread hmsg hdest hconn hpeer
          | true =>
            cases ok with
            | false =>
              simp only [hconn, hpeer, Bool.not_true, Bool.false_eq_true, if_false,
                Option.some.injEq] at h
              rw [← h]
              exact .ttyDropped s ready r beyond false os msg source hp hr hread hmsg hdest
                (Or.inr ⟨hpeer, rfl⟩)
            | true =>
              simp only [hconn, hpeer, Bool.not_true, Bool.false_eq_true, if_false, if_true,
                Option.some.injEq] at h
              rw [← h]
              exact .ttySent s ready r beyond os msg source hp hr hread hmsg hdest hconn hpeer

/-- Every step is one of the moves. -/
theorem moves_of_step {s t : MctpBridge} {l : Label} (h : s.step l = some t) : Moves s l t := by
  cases l with
  | serialByte b room =>
    cases h
    exact .serialByte s b room
  | linuxByte b room =>
    cases h
    exact .linuxByte s b room
  | clientSend d =>
    simp only [step, Option.ite_none_right_eq_some, Option.some.injEq, Bool.and_eq_true] at h
    obtain ⟨⟨hconn, -⟩, rfl⟩ := h
    exact .clientSend s d hconn
  | clientClose =>
    simp only [step, Option.ite_none_right_eq_some, Option.some.injEq, Bool.and_eq_true] at h
    obtain ⟨⟨hconn, -⟩, rfl⟩ := h
    exact .clientClose s hconn
  | stop =>
    cases h
    exact .stop s
  | check =>
    simp only [step] at h
    split at h
    next hp => exact .of_checkPhase hp h
    next => cases h
  | accept r c =>
    simp only [step] at h
    split at h
    next hp => exact .of_acceptPhase hp h
    next => cases h
  | wait created ready =>
    simp only [step] at h
    split at h
    next hp =>
      cases h
      exact .of_waitPhase hp
    next => cases h
  | serveBcast r beyond os =>
    simp only [step] at h
    split at h
    next ready hp => exact .of_bcastPhase hp h
    next => cases h
  | serveLinux r os =>
    simp only [step] at h
    split at h
    next ready hp => exact .of_linuxPhase hp h
    next => cases h
  | serveTty r beyond ok os =>
    simp only [step] at h
    split at h
    next ready hp => exact .of_ttyPhase hp h
    next => cases h

/-- A message to every endpoint. -/
def hail : Packet := [1, 0xFF, 1, 1, 1]

/-- A client that has already sent a broadcast is accepted while one arrives on the serial
side; then both are served in one iteration. -/
def hailRun : List Label :=
  (buildWire hail).map (Label.serialByte · true) ++
    [.accept (.client 7) ⟨[hail], true⟩, .wait true (some ⟨true, false, true⟩),
      .serveBcast .datagram 0 [.accepted 12], .serveLinux .failed [], .serveTty .packet 0 true []]

end MctpBridge
end MctpSerial
