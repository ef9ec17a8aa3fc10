import MctpSerial.BridgePairs

/-!
# Two bridges under load

Packet sockets overflow, sources are reported ready that are not, clients come, vanish and
leave datagrams behind, and broadcasts find nobody: all this may lose messages. It loses
whole messages and nothing else: as long as the frames themselves are written out, what comes
out at the far end is in order, has been sent, and comes out once.
-/
namespace MctpSerial.MctpBridge
open MctpFramer StreamTransducers GuardedRuns JoinedMachines

/-- Frames are written to their end, datagrams of clients have a legal length, and the kernel
side is served only when it has a packet: otherwise the bridge sends an empty message. -/
def KeepsFraming (s : MctpBridge) : Label → Prop
  | .clientSend d => Sendable d
  | .accept _ c => ∀ d ∈ c.datagrams, Sendable d
  | .serveBcast _ _ os => ∀ d ∈ s.client.datagrams.head?, WritesSucceed d os
  | .serveLinux r os => (s.phase.awaits.linux = true → r = .packet) ∧
      ∀ p ∈ s.linuxEndpoint.packets.head?, WritesSucceed p os
  | .serveTty _ _ _ os => ∀ p ∈ s.mctpSerial.packets.head?, WritesSucceed p os
  | _ => True

instance (s : MctpBridge) : ∀ l, Decidable (KeepsFraming s l)
  | .clientSend d => inferInstanceAs (Decidable (Sendable d))
  | .accept _ c => inferInstanceAs (Decidable (∀ d ∈ c.datagrams, Sendable d))
  | .serveBcast _ _ os =>
    inferInstanceAs (Decidable (∀ d ∈ s.client.datagrams.head?, WritesSucceed d os))
  | .serveLinux r os => inferInstanceAs (Decidable ((s.phase.awaits.linux = true → r = .packet) ∧
      ∀ p ∈ s.linuxEndpoint.packets.head?, WritesSucceed p os))
  | .serveTty _ _ _ os =>
    inferInstanceAs (Decidable (∀ p ∈ s.mctpSerial.packets.head?, WritesSucceed p os))
  | .serialByte _ _ | .linuxByte _ _ | .clientClose | .stop | .check | .wait _ _ => isTrue trivial

/-- What a bridge has made of its inputs, some of which is lost. -/
structure Orderly (serialRx linuxRx : Rx) (serialIn linuxIn : List Byte) (clientsIn : List Packet)
    (s : MctpBridge) (routed fromLinux fromClients toSerial : List Packet) : Prop where
  serial_rx : s.mctpSerial.rx = run updateRxFSM serialRx serialIn
  serial_taken : (routed ++ s.mctpSerial.packets).Sublist (delivered serialRx serialIn)
  linux_rx : s.linuxEndpoint.rx = run updateRxFSM linuxRx linuxIn
  linux_taken : (fromLinux ++ s.linuxEndpoint.packets).Sublist (delivered linuxRx linuxIn)
  clients_taken : (fromClients ++ s.client.datagrams).Sublist clientsIn
  clients_sendable : ∀ d ∈ clientsIn, Sendable d
  to_linux : s.linuxEndpoint.wire = (routed.filter fun p => !isBroadcast p).flatMap buildWire
  to_client : s.clientOut = routed.filter isBroadcast
  broadcasts : ∀ d ∈ fromClients, isBroadcast d = true
  merged : Interleaving fromLinux fromClients toSerial
  to_serial : s.mctpSerial.wire = toSerial.flatMap buildWire

/-- A packet socket answers nothing or its head. -/
theorem receive_head {p source : Port} {r : Port.ReadResult} {msg : Packet}
    (h : p.receive r = some (msg, source)) :
    (msg = [] ∧ source = p) ∨
      ∃ rest, p.packets = msg :: rest ∧ source = { p with packets := rest } := by
  cases r with
  | failed =>
    cases h
    exact Or.inl ⟨rfl, rfl⟩
  | packet => exact Or.inr (Port.receive_packet h rfl)

theorem Client.recv_sublist {c client : Client} {r : ClientRead}
    {answer : BcastMessenger.RecvResult} (h : Client.recv c r = some (answer, client)) :
    client.datagrams.Sublist c.datagrams := by
  cases r with
  | datagram =>
    unfold Client.recv at h
    cases hq : c.datagrams with
    | nil => simp [hq] at h
    | cons d rest =>
      simp only [hq, Option.some.injEq, Prod.mk.injEq] at h
      rw [← h.2]
      exact List.sublist_cons_self d rest
  | endOfFile =>
    cases h
    exact .refl _
  | wouldBlock =>
    cases h
    exact .refl _
  | failed =>
    cases h
    exact .refl _

namespace Orderly

variable {serialRx linuxRx : Rx} {serialIn linuxIn : List Byte} {clientsIn : List Packet}
variable {s : MctpBridge} {routed fromLinux fromClients toSerial : List Packet}
variable (h : Orderly serialRx linuxRx serialIn linuxIn clientsIn s routed fromLinux fromClients
  toSerial)

include h

theorem serialByte (b : Byte) (room : Bool) :
    Orderly serialRx linuxRx (serialIn ++ [b]) linuxIn clientsIn
      { s with mctpSerial := s.mctpSerial.receiveByte b room } routed fromLinux fromClients
      toSerial :=
  { h with
    serial_rx := by rw [run_concat, ← h.serial_rx]; rfl
    serial_taken := by
      rw [delivered, emitted_concat, ← h.serial_rx, Port.receiveByte, ← List.append_assoc]
      refine h.serial_taken.append ?_
      cases room with
      | false => exact List.nil_sublist _
      | true => exact .refl _ }

theorem linuxByte (b : Byte) (room : Bool) :
    Orderly serialRx linuxRx serialIn (linuxIn ++ [b]) clientsIn
      { s with linuxEndpoint := s.linuxEndpoint.receiveByte b room } routed fromLinux fromClients
      toSerial :=
  { h with
    linux_rx := by rw [run_concat, ← h.linux_rx]; rfl
    linux_taken := by
      rw [delivered, emitted_concat, ← h.linux_rx, Port.receiveByte, ← List.append_assoc]
      refine h.linux_taken.append ?_
      cases room with
      | false => exact List.nil_sublist _
      | true => exact .refl _ }

theorem clientSend {d : Packet} (hd : Sendable d) :
    Orderly serialRx linuxRx serialIn linuxIn (clientsIn ++ [d])
      { s with client := { s.client with datagrams := s.client.datagrams ++ [d] } }
      routed fromLinux fromClients toSerial :=
  { h with
    clients_taken := by
      rw [← List.append_assoc]
      exact h.clients_taken.append (.refl _)
    clients_sendable := fun x hx => (List.mem_append.mp hx).elim (h.clients_sendable x) fun hx =>
      List.mem_singleton.mp hx ▸ hd }

/-- A new client; what the old one has left is lost. -/
theorem accepted {c : Client} (hc : ∀ d ∈ c.datagrams, Sendable d) (bcast : BcastMessenger)
    (ph : Phase) :
    Orderly serialRx linuxRx serialIn linuxIn (clientsIn ++ c.datagrams)
      { s with bcast := bcast, client := c, phase := ph } routed fromLinux fromClients toSerial :=
  { h with
    clients_taken := ((List.sublist_append_left _ _).trans h.clients_taken).append (.refl _)
    clients_sendable := fun x hx => (List.mem_append.mp hx).elim (h.clients_sendable x) (hc x) }

/-- A step that sends nothing may lose the head of a queue. -/
theorem loses {mctpSerial linuxEndpoint : Port} {client : Client} (bcast : BcastMessenger)
    (lookups : List Packet) (ph : Phase) (running : Bool)
    (hserial : mctpSerial.rx = s.mctpSerial.rx ∧ mctpSerial.wire = s.mctpSerial.wire ∧
      mctpSerial.packets.Sublist s.mctpSerial.packets)
    (hlinux : linuxEndpoint.rx = s.linuxEndpoint.rx ∧ linuxEndpoint.wire = s.linuxEndpoint.wire ∧
      linuxEndpoint.packets.Sublist s.linuxEndpoint.packets)
    (hclient : client.datagrams.Sublist s.client.datagrams) :
    Orderly serialRx linuxRx serialIn linuxIn clientsIn
      { s with
        running := running
        phase := ph
        mctpSerial := mctpSerial
        linuxEndpoint := linuxEndpoint
        bcast := bcast
        client := client
        lookups := lookups }
      routed fromLinux fromClients toSerial :=
  { h with
    serial_rx := hserial.1.trans h.serial_rx
    serial_taken := ((List.append_sublist_append_left _).mpr hserial.2.2).trans h.serial_taken
    linux_rx := hlinux.1.trans h.linux_rx
    linux_taken := ((List.append_sublist_append_left _).mpr hlinux.2.2).trans h.linux_taken
    clients_taken := ((List.append_sublist_append_left _).mpr hclient).trans h.clients_taken
    to_linux := hlinux.2.1.trans h.to_linux
    to_serial := hserial.2.1.trans h.to_serial }

/-- A move that touches neither queues nor wires. -/
theorem quiet {client : Client} (bcast : BcastMessenger) (ph : Phase) (running : Bool)
    (hclient : client.datagrams.Sublist s.client.datagrams) :
    Orderly serialRx linuxRx serialIn linuxIn clientsIn
      { s with running := running, phase := ph, bcast := bcast, client := client }
      routed fromLinux fromClients toSerial :=
  h.loses bcast s.lookups ph running ⟨rfl, rfl, .refl _⟩ ⟨rfl, rfl, .refl _⟩ hclient

/-- A broadcast of the client goes to the serial side. -/
theorem clientRelayed {d : Packet} {rest : List Packet} (lookups : List Packet) (ph : Phase)
    (hq : s.client.datagrams = d :: rest) (hd : isBroadcast d = true) :
    Orderly serialRx linuxRx serialIn linuxIn clientsIn
      { s with
        mctpSerial := { s.mctpSerial with
          sent := s.mctpSerial.sent ++ [d]
          wire := s.mctpSerial.wire ++ buildWire d }
        client := { s.client with datagrams := rest }
        lookups := lookups
        phase := ph }
      routed fromLinux (fromClients ++ [d]) (toSerial ++ [d]) :=
  { h with
    clients_taken := by
      have htaken := h.clients_taken
      rw [hq] at htaken
      simpa using htaken
    broadcasts := fun x hx => (List.mem_append.mp hx).elim (h.broadcasts x) fun hx =>
      List.mem_singleton.mp hx ▸ hd
    merged := .right d h.merged
    to_serial := by rw [h.to_serial, List.flatMap_append, List.flatMap_singleton] }

/-- A packet of the kernel side goes to the serial side. -/
theorem linuxRelayed {msg : Packet} {rest : List Packet} (ph : Phase)
    (hq : s.linuxEndpoint.packets = msg :: rest) :
    Orderly serialRx linuxRx serialIn linuxIn clientsIn
      { s with
        linuxEndpoint := { s.linuxEndpoint with packets := rest }
        mctpSerial := { s.mctpSerial with
          sent := s.mctpSerial.sent ++ [msg]
          wire := s.mctpSerial.wire ++ buildWire msg }
        phase := ph }
      routed (fromLinux ++ [msg]) fromClients (toSerial ++ [msg]) :=
  { h with
    linux_taken := by
      have htaken := h.linux_taken
      rw [hq] at htaken
      simpa using htaken
    merged := .left msg h.merged
    to_serial := by rw [h.to_serial, List.flatMap_append, List.flatMap_singleton] }

/-- The head packet of the serial side has a destination. -/
theorem two_le {msg : Packet} {rest : List Packet} (hq : s.mctpSerial.packets = msg :: rest) :
    2 ≤ msg.length := by
  have hmem : msg ∈ delivered serialRx serialIn :=
    h.serial_taken.subset (by simp [hq])
  have hlen := five_le_of_delivered hmem
  omega

theorem ttySent {msg : Packet} {rest : List Packet} (lookups : List Packet)
    (hq : s.mctpSerial.packets = msg :: rest) (hmsg : isBroadcast msg = true) :
    Orderly serialRx linuxRx serialIn linuxIn clientsIn
      { s with
        mctpSerial := { s.mctpSerial with packets := rest }
        clientOut := s.clientOut ++ [msg]
        lookups := lookups
        phase := .loop }
      (routed ++ [msg]) fromLinux fromClients toSerial :=
  { h with
    serial_taken := by
      have htaken := h.serial_taken
      rw [hq] at htaken
      simpa using htaken
    to_linux := by simpa [List.filter_append, hmsg] using h.to_linux
    to_client := by simp [List.filter_append, hmsg, h.to_client] }

theorem ttyRelayed {msg : Packet} {rest : List Packet} (lookups : List Packet)
    (hq : s.mctpSerial.packets = msg :: rest) (hmsg : isBroadcast msg = false) :
    Orderly serialRx linuxRx serialIn linuxIn clientsIn
      { s with
        mctpSerial := { s.mctpSerial with packets := rest }
        linuxEndpoint := { s.linuxEndpoint with
          sent := s.linuxEndpoint.sent ++ [msg]
          wire := s.linuxEndpoint.wire ++ buildWire msg }
        lookups := lookups
        phase := .loop }
      (routed ++ [msg]) fromLinux fromClients toSerial :=
  { h with
    serial_taken := by
      have htaken := h.serial_taken
      rw [hq] at htaken
      simpa using htaken
    to_linux := by simp [List.filter_append, hmsg, h.to_linux]
    to_client := by simpa [List.filter_append, hmsg] using h.to_client }

end Orderly

/-- The invariant of a run under load. -/
def StaysOrderly (serialRx linuxRx : Rx) (ls : List Label) (s : MctpBridge) : Prop :=
  ∃ routed fromLinux fromClients toSerial,
    Orderly serialRx linuxRx (ls.flatMap Label.serialBytes) (ls.flatMap Label.linuxBytes)
      (ls.flatMap Label.clientDatagrams) s routed fromLinux fromClients toSerial

section Runs

variable {serialRx linuxRx : Rx} {ls : List Label} {l : Label} {s t : MctpBridge}
variable {routed fromLinux fromClients toSerial : List Packet}

theorem StaysOrderly.concat
    (h : Orderly serialRx linuxRx (ls.flatMap Label.serialBytes ++ l.serialBytes)
      (ls.flatMap Label.linuxBytes ++ l.linuxBytes)
      (ls.flatMap Label.clientDatagrams ++ l.clientDatagrams) t
      routed fromLinux fromClients toSerial) : StaysOrderly serialRx linuxRx (ls ++ [l]) t := by
  refine ⟨routed, fromLinux, fromClients, toSerial, ?_⟩
  simpa only [List.flatMap_append, List.flatMap_singleton] using h

theorem StaysOrderly.quiet
    (hl : l.serialBytes = [] ∧ l.linuxBytes = [] ∧ l.clientDatagrams = [])
    (h : Orderly serialRx linuxRx (ls.flatMap Label.serialBytes) (ls.flatMap Label.linuxBytes)
      (ls.flatMap Label.clientDatagrams) t routed fromLinux fromClients toSerial) :
    StaysOrderly serialRx linuxRx (ls ++ [l]) t := by
  refine ⟨routed, fromLinux, fromClients, toSerial, ?_⟩
  simpa only [List.flatMap_append, List.flatMap_singleton, hl.1, hl.2.1, hl.2.2,
    List.append_nil] using h

theorem staysOrderly_start (m : BcastMessenger) (path : String) (fd : ℕ) :
    StaysOrderly serialRx linuxRx [] (start serialRx linuxRx m path fd) := by
  refine ⟨[], [], [], [], rfl, .refl _, rfl, .refl _, .refl _, ?_, rfl, rfl, ?_, .nil, rfl⟩
  · intro d hd
    cases hd
  · intro d hd
    cases hd

theorem staysOrderly_step (h : StaysOrderly serialRx linuxRx ls s) (hG : KeepsFraming s l)
    (hstep : s.step l = some t) : StaysOrderly serialRx linuxRx (ls ++ [l]) t := by
  obtain ⟨routed, fromLinux, fromClients, toSerial, h⟩ := h
  cases moves_of_step hstep with
  | serialByte b room =>
    apply StaysOrderly.concat
    simpa only [Label.serialBytes, Label.linuxBytes, Label.clientDatagrams, List.append_nil]
      using h.serialByte b room
  | linuxByte b room =>
    apply StaysOrderly.concat
    simpa only [Label.serialBytes, Label.linuxBytes, Label.clientDatagrams, List.append_nil]
      using h.linuxByte b room
  | clientSend d hconn =>
    apply StaysOrderly.concat
    simpa only [Label.serialBytes, Label.linuxBytes, Label.clientDatagrams, List.append_nil]
      using h.clientSend hG
  | clientClose hconn => exact .quiet ⟨rfl, rfl, rfl⟩ (h.quiet s.bcast s.phase s.running (.refl _))
  | stop => exact .quiet ⟨rfl, rfl, rfl⟩ (h.quiet s.bcast s.phase false (.refl _))
  | leave hp hr => exact .quiet ⟨rfl, rfl, rfl⟩ (h.quiet s.bcast .exited s.running (.refl _))
  | keep hp hconn => exact .quiet ⟨rfl, rfl, rfl⟩ (h.quiet s.bcast .epoll s.running (.refl _))
  | accepted fd c hp hconn =>
    apply StaysOrderly.concat
    simpa only [Label.serialBytes, Label.linuxBytes, Label.clientDatagrams, List.append_nil]
      using h.accepted hG _ _
  | acceptBlocked c hp hconn =>
    exact .quiet ⟨rfl, rfl, rfl⟩ (h.quiet _ .epoll s.running (.refl _))
  | acceptFailed c hp hconn =>
    exact .quiet ⟨rfl, rfl, rfl⟩ (h.quiet _ (.thrown "accept() failed") s.running (.refl _))
  | idle created ready hp =>
    exact .quiet ⟨rfl, rfl, rfl⟩ (h.quiet s.bcast .loop s.running (.refl _))
  | ready r hp => exact .quiet ⟨rfl, rfl, rfl⟩ (h.quiet s.bcast (.bcast _) s.running (.refl _))
  | bcastSkip ready r beyond os hp hr =>
    exact .quiet ⟨rfl, rfl, rfl⟩ (h.quiet s.bcast (.linux ready) s.running (.refl _))
  | bcastNothing ready r beyond os answer client hp hr hrecv hmsg =>
    exact .quiet ⟨rfl, rfl, rfl⟩ (h.quiet _ (.linux ready) s.running (Client.recv_sublist hrecv))
  | bcastIgnored ready beyond os d rest hp hr hq hconn hd hdest =>
    refine .quiet ⟨rfl, rfl, rfl⟩ (h.loses s.bcast _ (.linux ready) s.running ⟨rfl, rfl, .refl _⟩
      ⟨rfl, rfl, .refl _⟩ ?_)
    rw [hq]
    exact List.sublist_cons_self d rest
  | bcastRelayed ready beyond os d rest port hp hr hq hconn hd hdest hsend =>
    have hd : Sendable d := h.clients_sendable d (h.clients_taken.subset (by simp [hq]))
    rw [take_of_sendable hd] at hdest hsend
    rw [isBroadcastEid_destEid (by have := hd.1; omega)] at hdest
    rw [transmit_of_writesSucceed hsend (hG d (by simp [hq]))]
    exact .quiet ⟨rfl, rfl, rfl⟩ (h.clientRelayed _ _ hq hdest)
  | linuxSkip ready r os hp hr =>
    exact .quiet ⟨rfl, rfl, rfl⟩ (h.quiet s.bcast (.tty ready) s.running (.refl _))
  | linuxRelayed ready r os msg source port hp hr hread hsend =>
    obtain ⟨rest, hq, rfl⟩ := Port.receive_packet hread (hG.1 (by rw [hp]; exact hr))
    rw [transmit_of_writesSucceed hsend (hG.2 msg (by simp [hq]))]
    exact .quiet ⟨rfl, rfl, rfl⟩ (h.linuxRelayed _ hq)
  | ttySkip ready r beyond ok os hp hr =>
    exact .quiet ⟨rfl, rfl, rfl⟩ (h.quiet s.bcast .loop s.running (.refl _))
  | ttyNothing ready r beyond ok os source hp hr hread =>
    have hsource : source.rx = s.mctpSerial.rx ∧ source.wire = s.mctpSerial.wire ∧
        source.packets.Sublist s.mctpSerial.packets := by
      obtain ⟨-, rfl⟩ | ⟨rest, hq, rfl⟩ := receive_head hread
      · exact ⟨rfl, rfl, .refl _⟩
      · exact ⟨rfl, rfl, hq ▸ List.sublist_cons_self _ rest⟩
    exact .quiet ⟨rfl, rfl, rfl⟩ (h.loses s.bcast s.lookups .loop s.running hsource
      ⟨rfl, rfl, .refl _⟩ (.refl _))
  | ttyDropped ready r beyond ok os msg source hp hr hread hmsg hdest hdrop =>
    obtain ⟨hnil, -⟩ | ⟨rest, hq, rfl⟩ := receive_head hread
    · exact absurd hnil hmsg
    · exact .quiet ⟨rfl, rfl, rfl⟩ (h.loses s.bcast _ .loop s.running
        ⟨rfl, rfl, hq ▸ List.sublist_cons_self _ rest⟩ ⟨rfl, rfl, .refl _⟩ (.refl _))
  | ttyKilled ready r beyond ok os msg source hp hr hread hmsg hdest hconn hpeer =>
    obtain ⟨hnil, -⟩ | ⟨rest, hq, rfl⟩ := receive_head hread
    · exact absurd hnil hmsg
    · exact .quiet ⟨rfl, rfl, rfl⟩ (h.loses s.bcast _ .killed s.running
        ⟨rfl, rfl, hq ▸ List.sublist_cons_self _ rest⟩ ⟨rfl, rfl, .refl _⟩ (.refl _))
  | ttySent ready r beyond os msg source hp hr hread hmsg hdest hconn hpeer =>
    obtain ⟨hnil, -⟩ | ⟨rest, hq, rfl⟩ := receive_head hread
    · exact absurd hnil hmsg
    · rw [isBroadcastEid_destEid (h.two_le hq)] at hdest
      exact .quiet ⟨rfl, rfl, rfl⟩ (h.ttySent _ hq hdest)
  | ttyRelayed ready r beyond ok os msg source port hp hr hread hmsg hdest hsend =>
    obtain ⟨hnil, -⟩ | ⟨rest, hq, rfl⟩ := receive_head hread
    · exact absurd hnil hmsg
    · rw [isBroadcastEid_destEid (h.two_le hq)] at hdest
      rw [transmit_of_writesSucceed hsend (hG msg (by simp [hq]))]
      exact .quiet ⟨rfl, rfl, rfl⟩ (h.ttyRelayed _ hq hdest)

end Runs

/-- What comes out at the far end under load: the frames for the kernel are those of some of
the unicasts of the near kernel, and the client gets some of the broadcasts, each source in
its order. -/
structure Salvages (kernelIn clientsIn : List Packet) (receiver : MctpBridge) : Prop where
  to_kernel : ∃ ms : List Packet, ms.Sublist (kernelIn.filter fun p => !isBroadcast p) ∧
    receiver.linuxEndpoint.wire = ms.flatMap buildWire
  to_client : ∃ xs ys : List Packet, xs.Sublist (kernelIn.filter isBroadcast) ∧
    ys.Sublist (clientsIn.filter isBroadcast) ∧ Interleaving xs ys receiver.clientOut

section Direction

variable {serialRx serialRx' linuxRx' : Rx} {noise serialIn linuxIn linuxIn' : List Byte}
variable {clientsIn clientsIn' : List Packet} {sender receiver : MctpBridge} {arrived : ℕ}
variable {routed fromLinux fromClients toSerial : List Packet}
variable {routed' fromLinux' fromClients' toSerial' : List Packet}

theorem Orderly.sendable
    (h : Orderly serialRx (run updateRxFSM Rx.init noise) serialIn linuxIn clientsIn sender
      routed fromLinux fromClients toSerial) : ∀ msg ∈ toSerial, Sendable msg := by
  intro msg hmsg
  rcases h.merged.mem hmsg with hlinux | hclient
  · have hfrom : msg ∈ delivered (run updateRxFSM Rx.init noise) linuxIn :=
      h.linux_taken.subset (List.mem_append_left _ hlinux)
    exact sendable_of_delivered hfrom
  · exact h.clients_sendable msg (h.clients_taken.subset (List.mem_append_left _ hclient))

theorem Orderly.salvages
    (h : Orderly serialRx (run updateRxFSM Rx.init noise) serialIn linuxIn clientsIn sender
      routed fromLinux fromClients toSerial)
    (h' : Orderly serialRx' linuxRx' (sender.mctpSerial.wire.take arrived) linuxIn' clientsIn'
      receiver routed' fromLinux' fromClients' toSerial') (hstep : serialRx'.InStep) :
    Salvages (delivered (run updateRxFSM Rx.init noise) linuxIn) clientsIn receiver := by
  have hpart := delivered_take_prefix hstep h.to_serial h.sendable arrived
  have hrouted : routed'.Sublist toSerial :=
    ((List.sublist_append_left _ _).trans h'.serial_taken).trans hpart.sublist
  have hlinux : fromLinux.Sublist (delivered (run updateRxFSM Rx.init noise) linuxIn) :=
    (List.sublist_append_left _ _).trans h.linux_taken
  have hclients : fromClients.Sublist clientsIn :=
    (List.sublist_append_left _ _).trans h.clients_taken
  constructor
  · refine ⟨_, ?_, h'.to_linux⟩
    have hunicasts := (h.merged.filter fun p => !isBroadcast p).eq_left
      (List.filter_eq_nil_iff.mpr fun d hd => by simp [h.broadcasts d hd])
    have hsub := hrouted.filter fun p => !isBroadcast p
    rw [hunicasts] at hsub
    exact hsub.trans (hlinux.filter _)
  · have hsub := hrouted.filter isBroadcast
    rw [← h'.to_client] at hsub
    obtain ⟨xs, ys, hxs, hys, hmerged⟩ := (h.merged.filter isBroadcast).of_sublist hsub
    exact ⟨xs, ys, hxs.trans (hlinux.filter _), hys.trans (hclients.filter _), hmerged⟩

end Direction

/-- Under any load, in both directions and in every state of every run that keeps the framing,
whole messages may be lost between two bridges, but none is doubled, reordered, changed or
made up. -/
theorem pair_salvages (l r : End) (ls : List (Label ⊕ Label)) (p : Joint MctpBridge MctpBridge)
    (hrun : exec pairStep ⟨l.start, r.start, 0, 0⟩ ls = some p)
    (hframed : Every pairStep (jointGuard KeepsFraming KeepsFraming) ⟨l.start, r.start, 0, 0⟩ ls) :
    Salvages (l.fromKernel (lefts ls)) ((lefts ls).flatMap Label.clientDatagrams) p.right ∧
      Salvages (r.fromKernel (rights ls)) ((rights ls).flatMap Label.clientDatagrams) p.left := by
  have hproj := projects hrun
  obtain ⟨hl, hr⟩ := every_parts hrun hframed
  obtain ⟨routed, fromLinux, fromClients, toSerial, h⟩ :=
    guarded_invariant (StaysOrderly l.serialRx l.linuxRx)
      (staysOrderly_start l.messenger l.path l.fd)
      (fun _ _ _ _ h hG hstep => staysOrderly_step h hG hstep) hproj.left hl
  obtain ⟨routed', fromLinux', fromClients', toSerial', h'⟩ :=
    guarded_invariant (StaysOrderly r.serialRx r.linuxRx)
      (staysOrderly_start r.messenger r.path r.fd)
      (fun _ _ _ _ h hG hstep => staysOrderly_step h hG hstep) hproj.right hr
  have hright : (rights ls).flatMap Label.serialBytes =
      p.left.mctpSerial.wire.take p.rightward :=
    (serialPort.consumed_eq_flatMap (fun _ _ => rfl) hproj.right).symm.trans hproj.to_right
  have hleft : (lefts ls).flatMap Label.serialBytes =
      p.right.mctpSerial.wire.take p.leftward :=
    (serialPort.consumed_eq_flatMap (fun _ _ => rfl) hproj.left).symm.trans hproj.to_left
  constructor
  · have hfar := h'
    rw [hright] at hfar
    exact h.salvages hfar r.inStep
  · have hfar := h
    rw [hleft] at hfar
    exact h'.salvages hfar l.inStep

/-- The packet socket is full when the broadcast comes, and no client is there; the note gets
through. -/
def lateListener : List Label :=
  (buildWire hail).map (Label.serialByte · false) ++
    (buildWire note).map (Label.serialByte · true) ++
    [.accept .wouldBlock ⟨[], false⟩, .wait true (some ⟨false, false, true⟩),
      .serveBcast .wouldBlock 0 [], .serveLinux .failed [],
      .serveTty .packet 0 false [.accepted 12]]

def overload : List (Label ⊕ Label) := speaker.map .inl ++ lateListener.map .inr

theorem pair_salvages_overload : ∃ p,
    exec pairStep ⟨freshEnd.start, freshEnd.start, 0, 0⟩ overload = some p ∧
    p.right.linuxEndpoint.wire = buildWire note ∧ p.right.clientOut = [] ∧
    Salvages (freshEnd.fromKernel (lefts overload))
      ((lefts overload).flatMap Label.clientDatagrams) p.right := by
  have hout : (exec pairStep ⟨freshEnd.start, freshEnd.start, 0, 0⟩ overload).map
      (fun p => (p.right.linuxEndpoint.wire, p.right.clientOut)) = some (buildWire note, []) := by
    decide +kernel
  have hframed : Every pairStep (jointGuard KeepsFraming KeepsFraming)
      ⟨freshEnd.start, freshEnd.start, 0, 0⟩ overload := by
    decide +kernel
  obtain ⟨p, hrun, hp⟩ := Option.map_eq_some_iff.mp hout
  have hends := pair_salvages freshEnd freshEnd overload p hrun hframed
  exact ⟨p, hrun, congrArg Prod.fst hp, congrArg Prod.snd hp, hends.1⟩

end MctpSerial.MctpBridge
