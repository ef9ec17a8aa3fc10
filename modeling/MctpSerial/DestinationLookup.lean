import MctpSerial.BridgeTransmission

/-!
# Where the dispatch loop reads a destination

The loop reads `msg[1]` of every message that is not empty. Packets of the serial side are
long enough, whatever bytes arrive, because the receive state machine hands over no packet
of fewer than five bytes and the packet socket keeps packets apart. Datagrams of clients
are passed on as they come, and one of a single byte has no destination.
-/
namespace MctpSerial.MctpBridge
open MctpFramer StreamTransducers GuardedRuns

/-- Every destination read so far was part of its message. -/
def LookupsInBounds (s : MctpBridge) : Prop := ∀ msg ∈ s.lookups, 2 ≤ msg.length

/-- A datagram read from the client is not a single byte. -/
def ReadsDestination (s : MctpBridge) : Label → Prop
  | .serveBcast r _ _ =>
    ∀ ready d, s.phase = .bcast ready → ready.bcast = true → r = .datagram →
      s.client.datagrams.head? = some d → s.bcast.isConnected = true → d.length ≠ 1
  | _ => True

/-- What waits in the packet socket of the serial side passed the receive state machine. -/
def SerialPackets (s : MctpBridge) : Prop := ∀ p ∈ s.mctpSerial.packets, 5 ≤ p.length

section Runs

variable {s t : MctpBridge} {l : Label}

theorem transmit_packets {p port : Port} {msg : Packet} {os : List WriteOutcome}
    (h : p.transmit msg os = some port) : port.packets = p.packets := (transmit_sent h).2.1

theorem receive_packets {p source : Port} {r : Port.ReadResult} {msg : Packet}
    (h : p.receive r = some (msg, source)) : source.packets ⊆ p.packets := (receive_cases h).2.2.1

theorem Moves.serialPackets (h : Moves s l t) (hs : s.SerialPackets) : t.SerialPackets := by
  cases h with
  | serialByte b room =>
    intro p hp
    rcases List.mem_append.mp hp with hp | hp
    · exact hs p hp
    · cases room with
      | false => cases hp
      | true => exact five_le_of_answer (Option.mem_toList.mp hp)
  | bcastRelayed ready beyond os d rest port hp hr hq hconn hd hdest hsend =>
    intro p hmem
    exact hs p (transmit_packets hsend ▸ hmem)
  | linuxRelayed ready r os msg source port hp hr hread hsend =>
    intro p hmem
    exact hs p (transmit_packets hsend ▸ hmem)
  | ttyNothing ready r beyond ok os source hp hr hread =>
    intro p hmem
    exact hs p (receive_packets hread hmem)
  | ttyDropped ready r beyond ok os msg source hp hr hread hmsg hdest hdrop =>
    intro p hmem
    exact hs p (receive_packets hread hmem)
  | ttyKilled ready r beyond ok os msg source hp hr hread hmsg hdest hconn hpeer =>
    intro p hmem
    exact hs p (receive_packets hread hmem)
  | ttySent ready r beyond os msg source hp hr hread hmsg hdest hconn hpeer =>
    intro p hmem
    exact hs p (receive_packets hread hmem)
  | ttyRelayed ready r beyond ok os msg source port hp hr hread hmsg hdest hsend =>
    intro p hmem
    exact hs p (receive_packets hread hmem)
  | _ => exact hs

theorem mem_packets_of_receive {p source : Port} {r : Port.ReadResult} {msg : Packet}
    (h : p.receive r = some (msg, source)) (hmsg : msg ≠ []) : msg ∈ p.packets := by
  rcases (receive_cases h).2.2.2 with ⟨-, hmem⟩ | ⟨-, hnil⟩
  · exact hmem
  · exact absurd hnil hmsg

theorem readsDestination_iff {beyond : Byte} {os : List WriteOutcome} {ready : Ready} {d : Packet}
    {rest : List Packet} (hp : s.phase = .bcast ready) (hr : ready.bcast = true)
    (hq : s.client.datagrams = d :: rest) (hconn : s.bcast.isConnected = true) :
    ReadsDestination s (.serveBcast .datagram beyond os) ↔ d.length ≠ 1 := by
  constructor
  · intro h
    exact h ready d hp hr rfl (by simp [hq]) hconn
  · intro h ready' d' _ _ _ hhead _
    obtain rfl : d = d' := by simpa [hq] using hhead
    exact h

/-- A step reads no destination, that of a datagram or that of a serial packet. -/
theorem Moves.looksUp (h : Moves s l t) :
    (t.lookups = s.lookups ∧ ReadsDestination s l) ∨
    (∃ d : Packet, d ≠ [] ∧ t.lookups = s.lookups ++ [d.take 256] ∧
      (ReadsDestination s l ↔ d.length ≠ 1)) ∨
    (∃ p ∈ s.mctpSerial.packets, t.lookups = s.lookups ++ [p] ∧ ReadsDestination s l) := by
  cases h with
  | bcastSkip ready r beyond os hp hr =>
    refine Or.inl ⟨rfl, fun ready' d hp' hr' => ?_⟩
    obtain rfl : ready = ready' := Phase.bcast.inj (hp.symm.trans hp')
    rw [hr] at hr'
    cases hr'
  | bcastNothing ready r beyond os answer client hp hr hrecv hmsg =>
    refine Or.inl ⟨rfl, fun ready' d _ _ hdatagram hhead hconn hd => absurd hmsg ?_⟩
    rw [hdatagram] at hrecv
    exact Client.recv_answers hhead (List.ne_nil_of_length_pos (by omega)) hconn hrecv
  | bcastIgnored ready beyond os d rest hp hr hq hconn hd hdest =>
    exact Or.inr (Or.inl ⟨d, hd, rfl, readsDestination_iff hp hr hq hconn⟩)
  | bcastRelayed ready beyond os d rest port hp hr hq hconn hd hdest hsend =>
    exact Or.inr (Or.inl ⟨d, hd, rfl, readsDestination_iff hp hr hq hconn⟩)
  | ttyDropped ready r beyond ok os msg source hp hr hread hmsg hdest hdrop =>
    exact Or.inr (Or.inr ⟨msg, mem_packets_of_receive hread hmsg, rfl, trivial⟩)
  | ttyKilled ready r beyond ok os msg source hp hr hread hmsg hdest hconn hpeer =>
    exact Or.inr (Or.inr ⟨msg, mem_packets_of_receive hread hmsg, rfl, trivial⟩)
  | ttySent ready r beyond os msg source hp hr hread hmsg hdest hconn hpeer =>
    exact Or.inr (Or.inr ⟨msg, mem_packets_of_receive hread hmsg, rfl, trivial⟩)
  | ttyRelayed ready r beyond ok os msg source port hp hr hread hmsg hdest hsend =>
    exact Or.inr (Or.inr ⟨msg, mem_packets_of_receive hread hmsg, rfl, trivial⟩)
  | _ => exact Or.inl ⟨rfl, trivial⟩

theorem lookupsInBounds_concat {msg : Packet} (h : t.lookups = s.lookups ++ [msg]) :
    t.LookupsInBounds ↔ s.LookupsInBounds ∧ 2 ≤ msg.length := by
  simp [LookupsInBounds, h, or_imp, forall_and]

theorem two_le_take_iff {d : Packet} (hd : d ≠ []) : 2 ≤ (d.take 256).length ↔ d.length ≠ 1 := by
  have hpos : 0 < d.length := List.length_pos_iff.mpr hd
  rw [List.length_take]
  omega

theorem lookupsInBounds_step_iff (hs : s.SerialPackets) (hstep : s.step l = some t) :
    t.LookupsInBounds ↔ s.LookupsInBounds ∧ ReadsDestination s l := by
  obtain ⟨hlook, hread⟩ | ⟨d, hd, hlook, hread⟩ | ⟨p, hp, hlook, hread⟩ :=
    (moves_of_step hstep).looksUp
  · rw [LookupsInBounds, hlook]
    exact (and_iff_left hread).symm
  · rw [lookupsInBounds_concat hlook, hread, two_le_take_iff hd]
  · have h2 : 2 ≤ p.length := by have := hs p hp; omega
    rw [lookupsInBounds_concat hlook, and_iff_left h2, and_iff_left hread]

end Runs

theorem serialPackets_run {serialRx linuxRx : Rx} {m : BcastMessenger} {path : String} {fd : ℕ}
    {ls : List Label} {s : MctpBridge}
    (hrun : exec step (start serialRx linuxRx m path fd) ls = some s) : s.SerialPackets :=
  invariant (fun _ s => s.SerialPackets) (fun _ hp => by cases hp)
    (fun _ _ _ _ h hstep => (moves_of_step hstep).serialPackets h) hrun

/-- The loop reads destinations within their messages exactly in the runs in which it
never reads a datagram of a single byte from a client. -/
theorem lookups_in_bounds_iff (serialRx linuxRx : Rx) (m : BcastMessenger) (path : String)
    (fd : ℕ) (ls : List Label) (s : MctpBridge)
    (hrun : exec step (start serialRx linuxRx m path fd) ls = some s) :
    s.LookupsInBounds ↔ Every step ReadsDestination (start serialRx linuxRx m path fd) ls :=
  iff_every (fun _ s => s.SerialPackets) (fun _ s => s.LookupsInBounds) (fun _ h => by cases h)
    serialPackets_run (fun _ _ _ _ hs hstep => lookupsInBounds_step_iff hs hstep) hrun

theorem lookups_in_bounds_hail : ∃ s,
    exec step (start Rx.init Rx.init .init "bcast" 3) hailRun = some s ∧
    Every step ReadsDestination (start Rx.init Rx.init .init "bcast" 3) hailRun := by
  have hout : (exec step (start Rx.init Rx.init .init "bcast" 3) hailRun).map
      (fun s => s.lookups) = some [hail, hail] := by
    decide +kernel
  obtain ⟨s, hrun, hs⟩ := Option.map_eq_some_iff.mp hout
  refine ⟨s, hrun, (lookups_in_bounds_iff Rx.init Rx.init .init "bcast" 3 hailRun s hrun).mp ?_⟩
  rw [LookupsInBounds, hs]
  decide

/-- A client is accepted and sends one byte. -/
def oneByteRun : List Label :=
  [.accept (.client 7) ⟨[], true⟩, .clientSend [0x01], .wait true (some ⟨true, false, false⟩),
    .serveBcast .datagram 0x55 []]

theorem lookup_beyond_one_byte : ∃ s,
    exec step (start Rx.init Rx.init .init "bcast" 3) oneByteRun = some s ∧
    s.lookups = [[0x01]] ∧ ¬ s.LookupsInBounds := by
  have hout : (exec step (start Rx.init Rx.init .init "bcast" 3) oneByteRun).map
      (fun s => s.lookups) = some [[0x01]] := by
    decide +kernel
  obtain ⟨s, hrun, hs⟩ := Option.map_eq_some_iff.mp hout
  refine ⟨s, hrun, hs, ?_⟩
  rw [LookupsInBounds, hs]
  decide

end MctpSerial.MctpBridge
