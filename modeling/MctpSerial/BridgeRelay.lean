import MctpSerial.BridgeDispatch

/-!
# Transparent relaying

As long as the surroundings behave, whatever the order in which bytes arrive, datagrams
are sent and sources are served, the outputs of the bridge are functions of its inputs:
the packets taken from the serial side are split by destination, and the serial side gets
a merge of the packets taken from the kernel side and the broadcasts of the client.
-/
namespace MctpSerial.MctpBridge
open MctpFramer StreamTransducers GuardedRuns

/-- A message with destination 0x00 or 0xFF. -/
def isBroadcast (msg : Packet) : Bool := (msg[1]?).any isBroadcastEid

/-- `framer_write_all` does not fail on the frame of `msg`. -/
def WritesSucceed (msg : Packet) (os : List WriteOutcome) : Prop :=
  ∀ r ∈ (send msg os).ret, 0 ≤ r

/-- The sources that are still to be served in this iteration. -/
def Phase.awaits : Phase → Ready
  | .bcast r => r
  | .linux r => { r with bcast := false }
  | .tty r => { bcast := false, linux := false, tty := r.tty }
  | _ => ⟨false, false, false⟩

/-- The assumptions on the surroundings: queues are FIFO and never full, a source is
reported ready only when it holds something, datagrams have a legal length, clients stay,
the serial side is served only with a client connected, and writes succeed. -/
def WellBehaved (s : MctpBridge) : Label → Prop
  | .serialByte _ room => room = true
  | .linuxByte _ room => room = true
  | .clientSend d => Sendable d
  | .clientClose => False
  | .stop => True
  | .check => True
  | .accept _ c => c.peerOpen = true ∧ ∀ d ∈ c.datagrams, Sendable d
  | .wait _ none => True
  | .wait _ (some r) =>
    (r.bcast = true → s.client.datagrams ≠ []) ∧ (r.linux = true → s.linuxEndpoint.packets ≠ []) ∧
      (r.tty = true → s.mctpSerial.packets ≠ [])
  | .serveBcast r _ os =>
    (s.client.datagrams ≠ [] → r = .datagram) ∧ ∀ d ∈ s.client.datagrams.head?, WritesSucceed d os
  | .serveLinux r os =>
    (s.linuxEndpoint.packets ≠ [] → r = .packet) ∧
      ∀ p ∈ s.linuxEndpoint.packets.head?, WritesSucceed p os
  | .serveTty r _ ok os =>
    (s.mctpSerial.packets ≠ [] → r = .packet) ∧
      (s.phase.awaits.tty = true → s.bcast.isConnected = true) ∧ ok = true ∧
      ∀ p ∈ s.mctpSerial.packets.head?, WritesSucceed p os

instance (msg : Packet) (os : List WriteOutcome) : Decidable (WritesSucceed msg os) :=
  inferInstanceAs (Decidable (∀ r ∈ (send msg os).ret, 0 ≤ r))

instance (s : MctpBridge) : ∀ l, Decidable (WellBehaved s l)
  | .serialByte _ room => inferInstanceAs (Decidable (room = true))
  | .linuxByte _ room => inferInstanceAs (Decidable (room = true))
  | .clientSend d => inferInstanceAs (Decidable (Sendable d))
  | .clientClose => isFalse id
  | .stop => isTrue trivial
  | .check => isTrue trivial
  | .accept _ c => inferInstanceAs (Decidable (c.peerOpen = true ∧ ∀ d ∈ c.datagrams, Sendable d))
  | .wait _ none => isTrue trivial
  | .wait _ (some r) => inferInstanceAs (Decidable (
      (r.bcast = true → s.client.datagrams ≠ []) ∧
      (r.linux = true → s.linuxEndpoint.packets ≠ []) ∧
      (r.tty = true → s.mctpSerial.packets ≠ [])))
  | .serveBcast r _ os => inferInstanceAs (Decidable (
      (s.client.datagrams ≠ [] → r = .datagram) ∧
      ∀ d ∈ s.client.datagrams.head?, WritesSucceed d os))
  | .serveLinux r os => inferInstanceAs (Decidable (
      (s.linuxEndpoint.packets ≠ [] → r = .packet) ∧
      ∀ p ∈ s.linuxEndpoint.packets.head?, WritesSucceed p os))
  | .serveTty r _ ok os => inferInstanceAs (Decidable (
      (s.mctpSerial.packets ≠ [] → r = .packet) ∧
      (s.phase.awaits.tty = true → s.bcast.isConnected = true) ∧ ok = true ∧
      ∀ p ∈ s.mctpSerial.packets.head?, WritesSucceed p os))

/-- What has been taken from each source, and what has become of it. -/
structure Accounts (serialRx linuxRx : Rx) (serialIn linuxIn : List Byte) (clientIn : List Packet)
    (s : MctpBridge) (fromSerial fromLinux fromClient toSerial : List Packet) : Prop where
  serial_rx : s.mctpSerial.rx = run updateRxFSM serialRx serialIn
  serial_taken : delivered serialRx serialIn = fromSerial ++ s.mctpSerial.packets
  linux_rx : s.linuxEndpoint.rx = run updateRxFSM linuxRx linuxIn
  linux_taken : delivered linuxRx linuxIn = fromLinux ++ s.linuxEndpoint.packets
  client_taken : clientIn = fromClient ++ s.client.datagrams
  client_sendable : ∀ d ∈ s.client.datagrams, Sendable d
  client_stays : s.bcast.isConnected = true → s.client.peerOpen = true
  client_fresh : s.bcast.isConnected = false → s.client.datagrams = []
  to_linux : s.linuxEndpoint.wire =
    (fromSerial.filter fun p => !isBroadcast p).flatMap buildWire
  to_client : s.clientOut = fromSerial.filter isBroadcast
  merged : Interleaving fromLinux (fromClient.filter isBroadcast) toSerial
  to_serial : s.mctpSerial.wire = toSerial.flatMap buildWire
  bcast_ready : s.phase.awaits.bcast = true → s.client.datagrams ≠ []
  linux_ready : s.phase.awaits.linux = true → s.linuxEndpoint.packets ≠ []
  tty_ready : s.phase.awaits.tty = true → s.mctpSerial.packets ≠ []

theorem isBroadcastEid_destEid {msg : Packet} (h : 2 ≤ msg.length) (beyond : Byte) :
    isBroadcastEid (destEid msg beyond) = isBroadcast msg := by
  match msg, h with
  | _ :: _ :: _, _ => rfl

theorem transmit_of_writesSucceed {p port : Port} {msg : Packet} {os : List WriteOutcome}
    (h : p.transmit msg os = some port) (hw : WritesSucceed msg os) :
    port = { p with sent := p.sent ++ [msg], wire := p.wire ++ buildWire msg } := by
  obtain ⟨⟨r, hr⟩, rfl⟩ := Port.transmit_spec h
  rw [send_written_of_ret hr (hw r hr)]

namespace Accounts

variable {serialRx linuxRx : Rx} {serialIn linuxIn : List Byte} {clientIn : List Packet}
variable {s : MctpBridge} {fromSerial fromLinux fromClient toSerial : List Packet}
variable (h : Accounts serialRx linuxRx serialIn linuxIn clientIn s fromSerial fromLinux
  fromClient toSerial)

include h

theorem serialByte (b : Byte) :
    Accounts serialRx linuxRx (serialIn ++ [b]) linuxIn clientIn
      { s with mctpSerial := s.mctpSerial.receiveByte b true }
      fromSerial fromLinux fromClient toSerial :=
  { h with
    serial_rx := by rw [run_concat, ← h.serial_rx]; rfl
    serial_taken := by
      rw [delivered, emitted_concat, ← delivered, h.serial_taken, ← h.serial_rx, List.append_assoc]
      rfl
    tty_ready := fun hr => List.append_ne_nil_of_left_ne_nil (h.tty_ready hr) _ }

theorem linuxByte (b : Byte) :
    Accounts serialRx linuxRx serialIn (linuxIn ++ [b]) clientIn
      { s with linuxEndpoint := s.linuxEndpoint.receiveByte b true }
      fromSerial fromLinux fromClient toSerial :=
  { h with
    linux_rx := by rw [run_concat, ← h.linux_rx]; rfl
    linux_taken := by
      rw [delivered, emitted_concat, ← delivered, h.linux_taken, ← h.linux_rx, List.append_assoc]
      rfl
    linux_ready := fun hr => List.append_ne_nil_of_left_ne_nil (h.linux_ready hr) _ }

theorem clientSend {d : Packet} (hconn : s.bcast.isConnected = true) (hd : Sendable d) :
    Accounts serialRx linuxRx serialIn linuxIn (clientIn ++ [d])
      { s with client := { s.client with datagrams := s.client.datagrams ++ [d] } }
      fromSerial fromLinux fromClient toSerial :=
  { h with
    client_taken := by rw [h.client_taken, List.append_assoc]
    client_sendable := by
      intro x hx
      rcases List.mem_append.mp hx with hx | hx
      · exact h.client_sendable x hx
      · rw [List.mem_singleton.mp hx]
        exact hd
    client_fresh := fun hoff => absurd hconn (by simp [hoff])
    bcast_ready := fun hr => List.append_ne_nil_of_left_ne_nil (h.bcast_ready hr) _ }

/-- A new phase that awaits nothing the old one did not await. -/
theorem moveTo {ph : Phase} (hb : ph.awaits.bcast = true → s.phase.awaits.bcast = true)
    (hl : ph.awaits.linux = true → s.phase.awaits.linux = true)
    (ht : ph.awaits.tty = true → s.phase.awaits.tty = true) :
    Accounts serialRx linuxRx serialIn linuxIn clientIn { s with phase := ph }
      fromSerial fromLinux fromClient toSerial :=
  { h with
    bcast_ready := fun hr => h.bcast_ready (hb hr)
    linux_ready := fun hr => h.linux_ready (hl hr)
    tty_ready := fun hr => h.tty_ready (ht hr) }

theorem accepted {c : Client} (fd : ℕ) (hconn : s.bcast.isConnected = false)
    (hpeer : c.peerOpen = true) (hc : ∀ d ∈ c.datagrams, Sendable d) :
    Accounts serialRx linuxRx serialIn linuxIn (clientIn ++ c.datagrams)
      { s with
        bcast := { s.bcast with connFd := fd, state := .connected }
        client := c
        phase := .epoll }
      fromSerial fromLinux fromClient toSerial :=
  { h with
    client_taken := by rw [h.client_taken, h.client_fresh hconn, List.append_nil]
    client_sendable := hc
    client_stays := fun _ => hpeer
    client_fresh := fun hoff => by simp [BcastMessenger.isConnected] at hoff
    bcast_ready := fun hr => by simp [Phase.awaits] at hr
    linux_ready := fun hr => by simp [Phase.awaits] at hr
    tty_ready := fun hr => by simp [Phase.awaits] at hr }

theorem notAccepted {ph : Phase} (hconn : s.bcast.isConnected = false)
    (hph : ph.awaits = ⟨false, false, false⟩) :
    Accounts serialRx linuxRx serialIn linuxIn clientIn
      { s with bcast := { s.bcast with connFd := -1 }, phase := ph }
      fromSerial fromLinux fromClient toSerial :=
  { h with
    client_stays := fun hon => by simp [BcastMessenger.isConnected] at hon
    client_fresh := fun _ => h.client_fresh hconn
    bcast_ready := fun hr => by simp [hph] at hr
    linux_ready := fun hr => by simp [hph] at hr
    tty_ready := fun hr => by simp [hph] at hr }

/-- The head datagram is read and is no broadcast. -/
theorem clientIgnored {d : Packet} {rest : List Packet} (lookups : List Packet) {ready : Ready}
    (hp : s.phase = .bcast ready) (hq : s.client.datagrams = d :: rest)
    (hconn : s.bcast.isConnected = true) (hd : isBroadcast d = false) :
    Accounts serialRx linuxRx serialIn linuxIn clientIn
      { s with
        client := { s.client with datagrams := rest }
        lookups := lookups
        phase := .linux ready }
      fromSerial fromLinux (fromClient ++ [d]) toSerial :=
  { h with
    client_taken := by rw [h.client_taken, hq, List.append_assoc]; rfl
    client_sendable := fun x hx => h.client_sendable x (by rw [hq]; exact List.mem_cons_of_mem d hx)
    client_fresh := fun hoff => absurd hconn (by simp [hoff])
    merged := by simpa [List.filter_append, hd] using h.merged
    bcast_ready := fun hr => by simp [Phase.awaits] at hr
    linux_ready := fun hr => h.linux_ready (by rw [hp]; exact hr)
    tty_ready := fun hr => h.tty_ready (by rw [hp]; exact hr) }

/-- The head datagram is read and sent to the serial side. -/
theorem clientRelayed {d : Packet} {rest : List Packet} (lookups : List Packet) {ready : Ready}
    (hp : s.phase = .bcast ready) (hq : s.client.datagrams = d :: rest)
    (hconn : s.bcast.isConnected = true) (hd : isBroadcast d = true) :
    Accounts serialRx linuxRx serialIn linuxIn clientIn
      { s with
        mctpSerial := { s.mctpSerial with
          sent := s.mctpSerial.sent ++ [d]
          wire := s.mctpSerial.wire ++ buildWire d }
        client := { s.client with datagrams := rest }
        lookups := lookups
        phase := .linux ready }
      fromSerial fromLinux (fromClient ++ [d]) (toSerial ++ [d]) :=
  { h with
    client_taken := by rw [h.client_taken, hq, List.append_assoc]; rfl
    client_sendable := fun x hx => h.client_sendable x (by rw [hq]; exact List.mem_cons_of_mem d hx)
    client_fresh := fun hoff => absurd hconn (by simp [hoff])
    merged := by
      rw [List.filter_append, List.filter_singleton, hd]
      exact .right d h.merged
    to_serial := by rw [h.to_serial, List.flatMap_append, List.flatMap_singleton]
    bcast_ready := fun hr => by simp [Phase.awaits] at hr
    linux_ready := fun hr => h.linux_ready (by rw [hp]; exact hr)
    tty_ready := fun hr => h.tty_ready (by rw [hp]; exact hr) }

/-- The head packet of the kernel side is sent to the serial side. -/
theorem linuxRelayed {msg : Packet} {rest : List Packet} {ready : Ready}
    (hp : s.phase = .linux ready) (hq : s.linuxEndpoint.packets = msg :: rest) :
    Accounts serialRx linuxRx serialIn linuxIn clientIn
      { s with
        linuxEndpoint := { s.linuxEndpoint with packets := rest }
        mctpSerial := { s.mctpSerial with
          sent := s.mctpSerial.sent ++ [msg]
          wire := s.mctpSerial.wire ++ buildWire msg }
        phase := .tty ready }
      fromSerial (fromLinux ++ [msg]) fromClient (toSerial ++ [msg]) :=
  { h with
    linux_taken := by rw [h.linux_taken, hq, List.append_assoc]; rfl
    merged := .left msg h.merged
    to_serial := by rw [h.to_serial, List.flatMap_append, List.flatMap_singleton]
    bcast_ready := fun hr => by simp [Phase.awaits] at hr
    linux_ready := fun hr => by simp [Phase.awaits] at hr
    tty_ready := fun hr => h.tty_ready (by rw [hp]; exact hr) }

/-- The head packet of the serial side is a broadcast and goes to the client. -/
theorem ttySent {msg : Packet} {rest : List Packet} (lookups : List Packet)
    (hq : s.mctpSerial.packets = msg :: rest) (hmsg : isBroadcast msg = true) :
    Accounts serialRx linuxRx serialIn linuxIn clientIn
      { s with
        mctpSerial := { s.mctpSerial with packets := rest }
        clientOut := s.clientOut ++ [msg]
        lookups := lookups
        phase := .loop }
      (fromSerial ++ [msg]) fromLinux fromClient toSerial :=
  { h with
    serial_taken := by rw [h.serial_taken, hq, List.append_assoc]; rfl
    to_linux := by simpa [List.filter_append, hmsg] using h.to_linux
    to_client := by simp [List.filter_append, hmsg, h.to_client]
    bcast_ready := fun hr => by simp [Phase.awaits] at hr
    linux_ready := fun hr => by simp [Phase.awaits] at hr
    tty_ready := fun hr => by simp [Phase.awaits] at hr }

/-- The head packet of the serial side goes to the kernel side. -/
theorem ttyRelayed {msg : Packet} {rest : List Packet} (lookups : List Packet)
    (hq : s.mctpSerial.packets = msg :: rest) (hmsg : isBroadcast msg = false) :
    Accounts serialRx linuxRx serialIn linuxIn clientIn
      { s with
        mctpSerial := { s.mctpSerial with packets := rest }
        linuxEndpoint := { s.linuxEndpoint with
          sent := s.linuxEndpoint.sent ++ [msg]
          wire := s.linuxEndpoint.wire ++ buildWire msg }
        lookups := lookups
        phase := .loop }
      (fromSerial ++ [msg]) fromLinux fromClient toSerial :=
  { h with
    serial_taken := by rw [h.serial_taken, hq, List.append_assoc]; rfl
    to_linux := by simp [List.filter_append, hmsg, h.to_linux]
    to_client := by simpa [List.filter_append, hmsg] using h.to_client
    bcast_ready := fun hr => by simp [Phase.awaits] at hr
    linux_ready := fun hr => by simp [Phase.awaits] at hr
    tty_ready := fun hr => by simp [Phase.awaits] at hr }

/-- Serving a client that is reported ready reads a message. -/
theorem clientAnswers {ready : Ready} {r : ClientRead} {answer : BcastMessenger.RecvResult}
    {client : Client} (hp : s.phase = .bcast ready) (hr : ready.bcast = true)
    (hread : s.client.datagrams ≠ [] → r = .datagram)
    (hrecv : Client.recv s.client r = some (answer, client)) :
    (s.bcast.recvMessage answer).2.2 ≠ [] := by
  have hne : s.client.datagrams ≠ [] := h.bcast_ready (by rw [hp]; exact hr)
  have hconn : s.bcast.isConnected = true := by
    by_contra hoff
    exact hne (h.client_fresh (by simpa using hoff))
  obtain ⟨d, rest, hq⟩ := List.exists_cons_of_ne_nil hne
  have hd : Sendable d := h.client_sendable d (by rw [hq]; exact List.mem_cons_self)
  rw [hread hne] at hrecv
  exact Client.recv_answers (by rw [hq]; rfl)
    (List.ne_nil_of_length_pos (by have := hd.1; omega)) hconn hrecv

/-- Serving the serial side when it is reported ready reads a packet with a destination. -/
theorem ttyAnswers {ready : Ready} {r : Port.ReadResult} {msg : Packet} {source : Port}
    (hp : s.phase = .tty ready) (hr : ready.tty = true)
    (hG : s.mctpSerial.packets ≠ [] → r = .packet)
    (hread : s.mctpSerial.receive r = some (msg, source)) :
    ∃ rest, s.mctpSerial.packets = msg :: rest ∧
      source = { s.mctpSerial with packets := rest } ∧ 2 ≤ msg.length := by
  have hne := h.tty_ready (by rw [hp]; exact hr)
  obtain ⟨rest, hq, hsource⟩ := Port.receive_packet hread (hG hne)
  refine ⟨rest, hq, hsource, ?_⟩
  have hmem : msg ∈ delivered serialRx serialIn := by
    rw [h.serial_taken, hq]
    simp
  have hlen := five_le_of_delivered hmem
  omega

end Accounts

/-- The invariant of a run: the accounts of its inputs balance. -/
def Relays (serialRx linuxRx : Rx) (ls : List Label) (s : MctpBridge) : Prop :=
  ∃ fromSerial fromLinux fromClient toSerial,
    Accounts serialRx linuxRx (ls.flatMap Label.serialBytes) (ls.flatMap Label.linuxBytes)
      (ls.flatMap Label.clientDatagrams) s fromSerial fromLinux fromClient toSerial

section Runs

variable {serialRx linuxRx : Rx} {ls : List Label} {l : Label} {s t : MctpBridge}
variable {fromSerial fromLinux fromClient toSerial : List Packet}

theorem Relays.concat
    (h : Accounts serialRx linuxRx (ls.flatMap Label.serialBytes ++ l.serialBytes)
      (ls.flatMap Label.linuxBytes ++ l.linuxBytes)
      (ls.flatMap Label.clientDatagrams ++ l.clientDatagrams) t
      fromSerial fromLinux fromClient toSerial) : Relays serialRx linuxRx (ls ++ [l]) t := by
  refine ⟨fromSerial, fromLinux, fromClient, toSerial, ?_⟩
  simpa only [List.flatMap_append, List.flatMap_singleton] using h

/-- A label that brings no input. -/
theorem Relays.quiet
    (hl : l.serialBytes = [] ∧ l.linuxBytes = [] ∧ l.clientDatagrams = [])
    (h : Accounts serialRx linuxRx (ls.flatMap Label.serialBytes) (ls.flatMap Label.linuxBytes)
      (ls.flatMap Label.clientDatagrams) t fromSerial fromLinux fromClient toSerial) :
    Relays serialRx linuxRx (ls ++ [l]) t := by
  refine ⟨fromSerial, fromLinux, fromClient, toSerial, ?_⟩
  simpa only [List.flatMap_append, List.flatMap_singleton, hl.1, hl.2.1, hl.2.2,
    List.append_nil] using h

theorem relays_start (m : BcastMessenger) (path : String) (fd : ℕ) :
    Relays serialRx linuxRx [] (start serialRx linuxRx m path fd) := by
  refine ⟨[], [], [], [], rfl, rfl, rfl, rfl, rfl, ?_, ?_, fun _ => rfl, rfl, rfl, .nil, rfl, ?_,
    ?_, ?_⟩
  · intro d hd
    cases hd
  · intro hconn
    rw [isConnected_start] at hconn
    cases hconn
  · intro hr
    cases hr
  · intro hr
    cases hr
  · intro hr
    cases hr

/-- One step of a well-behaved run keeps the accounts. -/
theorem relays_step (h : Relays serialRx linuxRx ls s) (hG : WellBehaved s l)
    (hstep : s.step l = some t) : Relays serialRx linuxRx (ls ++ [l]) t := by
  obtain ⟨fromSerial, fromLinux, fromClient, toSerial, h⟩ := h
  cases moves_of_step hstep with
  | serialByte b room =>
    obtain rfl : room = true := hG
    apply Relays.concat
    simpa only [Label.serialBytes, Label.linuxBytes, Label.clientDatagrams, List.append_nil]
      using h.serialByte b
  | linuxByte b room =>
    obtain rfl : room = true := hG
    apply Relays.concat
    simpa only [Label.serialBytes, Label.linuxBytes, Label.clientDatagrams, List.append_nil]
      using h.linuxByte b
  | clientSend d hconn =>
    apply Relays.concat
    simpa only [Label.serialBytes, Label.linuxBytes, Label.clientDatagrams, List.append_nil]
      using h.clientSend hconn hG
  | clientClose hconn => exact absurd hG id
  | stop => exact .quiet ⟨rfl, rfl, rfl⟩ { h with }
  | leave hp hr => exact .quiet ⟨rfl, rfl, rfl⟩ (h.moveTo nofun nofun nofun)
  | keep hp hconn => exact .quiet ⟨rfl, rfl, rfl⟩ (h.moveTo nofun nofun nofun)
  | accepted fd c hp hconn =>
    apply Relays.concat
    simpa only [Label.serialBytes, Label.linuxBytes, Label.clientDatagrams, List.append_nil]
      using h.accepted fd hconn hG.1 hG.2
  | acceptBlocked c hp hconn => exact .quiet ⟨rfl, rfl, rfl⟩ (h.notAccepted hconn rfl)
  | acceptFailed c hp hconn => exact .quiet ⟨rfl, rfl, rfl⟩ (h.notAccepted hconn rfl)
  | idle created ready hp => exact .quiet ⟨rfl, rfl, rfl⟩ (h.moveTo nofun nofun nofun)
  | ready r hp =>
    refine .quiet ⟨rfl, rfl, rfl⟩ { h with bcast_ready := ?_, linux_ready := ?_, tty_ready := ?_ }
    · intro hr
      exact hG.1 (Bool.and_eq_true_iff.mp hr).1
    · exact hG.2.1
    · exact hG.2.2
  | bcastSkip ready r beyond os hp hr =>
    exact .quiet ⟨rfl, rfl, rfl⟩ (h.moveTo nofun (by rw [hp]; exact id) (by rw [hp]; exact id))
  | bcastNothing ready r beyond os answer client hp hr hrecv hmsg =>
    exact absurd hmsg (h.clientAnswers hp hr hG.1 hrecv)
  | bcastIgnored ready beyond os d rest hp hr hq hconn hd hdest =>
    have hd : Sendable d := h.client_sendable d (by rw [hq]; exact List.mem_cons_self)
    rw [take_of_sendable hd, isBroadcastEid_destEid (by have := hd.1; omega)] at hdest
    exact .quiet ⟨rfl, rfl, rfl⟩ (h.clientIgnored _ hp hq hconn hdest)
  | bcastRelayed ready beyond os d rest port hp hr hq hconn hd hdest hsend =>
    have hd : Sendable d := h.client_sendable d (by rw [hq]; exact List.mem_cons_self)
    rw [take_of_sendable hd] at hdest hsend
    rw [isBroadcastEid_destEid (by have := hd.1; omega)] at hdest
    rw [transmit_of_writesSucceed hsend (hG.2 d (by simp [hq]))]
    exact .quiet ⟨rfl, rfl, rfl⟩ (h.clientRelayed _ hp hq hconn hdest)
  | linuxSkip ready r os hp hr =>
    exact .quiet ⟨rfl, rfl, rfl⟩ (h.moveTo nofun nofun (by rw [hp]; exact id))
  | linuxRelayed ready r os msg source port hp hr hread hsend =>
    have hne := h.linux_ready (by rw [hp]; exact hr)
    obtain ⟨rest, hq, rfl⟩ := Port.receive_packet hread (hG.1 hne)
    rw [transmit_of_writesSucceed hsend (hG.2 msg (by simp [hq]))]
    exact .quiet ⟨rfl, rfl, rfl⟩ (h.linuxRelayed hp hq)
  | ttySkip ready r beyond ok os hp hr =>
    exact .quiet ⟨rfl, rfl, rfl⟩ (h.moveTo nofun nofun nofun)
  | ttyNothing ready r beyond ok os source hp hr hread =>
    obtain ⟨rest, hq, -, hlen⟩ := h.ttyAnswers hp hr hG.1 hread
    simp at hlen
  | ttyDropped ready r beyond ok os msg source hp hr hread hmsg hdest hdrop =>
    rcases hdrop with hoff | ⟨-, hok⟩
    · rw [hG.2.1 (by rw [hp]; exact hr)] at hoff
      cases hoff
    · rw [hG.2.2.1] at hok
      cases hok
  | ttyKilled ready r beyond ok os msg source hp hr hread hmsg hdest hconn hpeer =>
    rw [h.client_stays hconn] at hpeer
    cases hpeer
  | ttySent ready r beyond os msg source hp hr hread hmsg hdest hconn hpeer =>
    obtain ⟨rest, hq, rfl, hlen⟩ := h.ttyAnswers hp hr hG.1 hread
    rw [isBroadcastEid_destEid hlen] at hdest
    exact .quiet ⟨rfl, rfl, rfl⟩ (h.ttySent _ hq hdest)
  | ttyRelayed ready r beyond ok os msg source port hp hr hread hmsg hdest hsend =>
    obtain ⟨rest, hq, rfl, hlen⟩ := h.ttyAnswers hp hr hG.1 hread
    rw [isBroadcastEid_destEid hlen] at hdest
    rw [transmit_of_writesSucceed hsend (hG.2.2.2 msg (by simp [hq]))]
    exact .quiet ⟨rfl, rfl, rfl⟩ (h.ttyRelayed _ hq hdest)

end Runs

/-- The bridge relays transparently and routes by destination: in every state of every
well-behaved run the outputs are determined by how many packets and datagrams have been
taken from each source, everything else being still queued. -/
theorem bridge_relays (serialRx linuxRx : Rx) (m : BcastMessenger) (path : String) (fd : ℕ)
    (ls : List Label) (s : MctpBridge)
    (hrun : exec step (start serialRx linuxRx m path fd) ls = some s)
    (hwell : Every step WellBehaved (start serialRx linuxRx m path fd) ls) :
    ∃ j i k,
      s.linuxEndpoint.wire =
        (((delivered serialRx (ls.flatMap Label.serialBytes)).take j).filter
          fun p => !isBroadcast p).flatMap buildWire ∧
      s.clientOut =
        ((delivered serialRx (ls.flatMap Label.serialBytes)).take j).filter isBroadcast ∧
      (∃ merged,
        Interleaving ((delivered linuxRx (ls.flatMap Label.linuxBytes)).take i)
          (((ls.flatMap Label.clientDatagrams).take k).filter isBroadcast) merged ∧
        s.mctpSerial.wire = merged.flatMap buildWire) ∧
      s.mctpSerial.packets = (delivered serialRx (ls.flatMap Label.serialBytes)).drop j ∧
      s.linuxEndpoint.packets = (delivered linuxRx (ls.flatMap Label.linuxBytes)).drop i ∧
      s.client.datagrams = (ls.flatMap Label.clientDatagrams).drop k := by
  obtain ⟨fromSerial, fromLinux, fromClient, toSerial, h⟩ :=
    guarded_invariant (Relays serialRx linuxRx) (relays_start m path fd)
      (fun _ _ _ _ h hG hstep => relays_step h hG hstep) hrun hwell
  refine ⟨fromSerial.length, fromLinux.length, fromClient.length, ?_⟩
  rw [h.serial_taken, h.linux_taken, h.client_taken]
  simp only [List.take_left, List.drop_left, and_true]
  exact ⟨h.to_linux, h.to_client, toSerial, h.merged, h.to_serial⟩

theorem bridge_relays_hail : ∃ s,
    exec step (start Rx.init Rx.init .init "bcast" 3) hailRun = some s ∧
    Every step WellBehaved (start Rx.init Rx.init .init "bcast" 3) hailRun ∧
    s.clientOut = [hail] ∧ s.mctpSerial.wire = buildWire hail ∧
    ∃ j, s.clientOut =
      ((delivered Rx.init (hailRun.flatMap Label.serialBytes)).take j).filter isBroadcast := by
  have hwell : Every step WellBehaved (start Rx.init Rx.init .init "bcast" 3) hailRun := by
    decide +kernel
  have hout : (exec step (start Rx.init Rx.init .init "bcast" 3) hailRun).map
      (fun s => (s.clientOut, s.mctpSerial.wire)) = some ([hail], buildWire hail) := by
    decide +kernel
  obtain ⟨s, hrun, hs⟩ := Option.map_eq_some_iff.mp hout
  obtain ⟨j, _, _, _, hclient, _⟩ := bridge_relays Rx.init Rx.init .init "bcast" 3 hailRun s hrun hwell
  exact ⟨s, hrun, hwell, congrArg Prod.fst hs, congrArg Prod.snd hs, j, hclient⟩

end MctpSerial.MctpBridge
