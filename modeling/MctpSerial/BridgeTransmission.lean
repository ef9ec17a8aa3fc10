import MctpSerial.BridgeDispatch

/-!
# What the bridge transmits

Whatever clients send and however reads turn out, a message of legal length on its way to
the serial line is a whole datagram or a whole packet of the kernel side. That the length
is legal depends on what the loop reads: `Transmittable` is the condition on one step
under which it passes on nothing else.
-/
namespace MctpSerial.MctpBridge
open MctpFramer StreamTransducers GuardedRuns

/-- A client datagram that is read and has a broadcast destination has a legal length, and
the kernel side yields a packet whenever it is served. -/
def Transmittable (s : MctpBridge) : Label → Prop
  | .serveBcast r beyond _ =>
    ∀ ready d, s.phase = .bcast ready → ready.bcast = true → r = .datagram →
      s.client.datagrams.head? = some d → s.bcast.isConnected = true → d ≠ [] →
      isBroadcastEid (destEid (d.take 256) beyond) = true → Sendable d
  | .serveLinux r _ => ∀ ready, s.phase = .linux ready → ready.linux = true → r = .packet
  | _ => True

/-- Where a message comes from: a datagram of a client or a packet of the kernel side. -/
def HasOrigin (linuxRx : Rx) (ls : List Label) (msg : Packet) : Prop :=
  msg ∈ ls.flatMap Label.clientDatagrams ∨ msg ∈ delivered linuxRx (ls.flatMap Label.linuxBytes)

instance (linuxRx : Rx) (ls : List Label) (msg : Packet) :
    Decidable (HasOrigin linuxRx ls msg) :=
  inferInstanceAs (Decidable (_ ∨ _))

/-- Everything queued has an origin, and so has everything of legal length that was sent. -/
structure Origins (linuxRx : Rx) (ls : List Label) (s : MctpBridge) : Prop where
  linux_rx : s.linuxEndpoint.rx = run updateRxFSM linuxRx (ls.flatMap Label.linuxBytes)
  packets : ∀ p ∈ s.linuxEndpoint.packets, p ∈ delivered linuxRx (ls.flatMap Label.linuxBytes)
  datagrams : ∀ d ∈ s.client.datagrams, d ∈ ls.flatMap Label.clientDatagrams
  sent : ∀ msg ∈ s.mctpSerial.sent, Sendable msg → HasOrigin linuxRx ls msg

section Runs

variable {linuxRx : Rx} {ls : List Label} {l : Label} {s t : MctpBridge}

theorem mem_clientDatagrams_concat {d : Packet} (h : d ∈ ls.flatMap Label.clientDatagrams) :
    d ∈ (ls ++ [l]).flatMap Label.clientDatagrams := by
  rw [List.flatMap_append]
  exact List.mem_append_left _ h

theorem mem_delivered_concat {p : Packet} (h : p ∈ delivered linuxRx (ls.flatMap Label.linuxBytes)) :
    p ∈ delivered linuxRx ((ls ++ [l]).flatMap Label.linuxBytes) := by
  rw [List.flatMap_append, delivered, emitted_append]
  exact List.mem_append_left _ h

theorem HasOrigin.concat {msg : Packet} (h : HasOrigin linuxRx ls msg) :
    HasOrigin linuxRx (ls ++ [l]) msg :=
  h.imp mem_clientDatagrams_concat mem_delivered_concat

theorem sendable_take_iff {d : Packet} : Sendable (d.take 256) ↔ Sendable d := by
  simp only [Sendable, List.length_take]
  omega

theorem not_sendable_nil : ¬ Sendable [] := by decide

theorem transmit_sent {p port : Port} {msg : Packet} {os : List WriteOutcome}
    (h : p.transmit msg os = some port) :
    port.rx = p.rx ∧ port.packets = p.packets ∧ port.sent = p.sent ++ [msg] := by
  obtain ⟨-, rfl⟩ := Port.transmit_spec h
  exact ⟨rfl, rfl, rfl⟩

/-- What is read from a packet socket: its head, or nothing. -/
theorem receive_cases {p source : Port} {r : Port.ReadResult} {msg : Packet}
    (h : p.receive r = some (msg, source)) :
    source.rx = p.rx ∧ source.sent = p.sent ∧ source.packets ⊆ p.packets ∧
      (r = .packet ∧ msg ∈ p.packets ∨ r = .failed ∧ msg = []) := by
  cases r with
  | failed =>
    simp only [Port.receive, Option.some.injEq, Prod.mk.injEq] at h
    obtain ⟨rfl, rfl⟩ := h
    exact ⟨rfl, rfl, List.Subset.refl _, Or.inr ⟨rfl, rfl⟩⟩
  | packet =>
    obtain ⟨rest, hq, rfl⟩ := Port.receive_packet h rfl
    exact ⟨rfl, rfl, by rw [hq]; exact List.subset_cons_self _ _, Or.inl ⟨rfl, by simp [hq]⟩⟩

/-- The queues after a step hold what they held before or what the label brought. -/
theorem Moves.queues (h : Moves s l t) :
    t.linuxEndpoint.rx = run updateRxFSM s.linuxEndpoint.rx l.linuxBytes ∧
      (∀ p ∈ t.linuxEndpoint.packets,
        p ∈ s.linuxEndpoint.packets ∨ p ∈ delivered s.linuxEndpoint.rx l.linuxBytes) ∧
      ∀ d ∈ t.client.datagrams, d ∈ s.client.datagrams ∨ d ∈ l.clientDatagrams := by
  cases h with
  | linuxByte b room =>
    refine ⟨rfl, fun p hp => ?_, fun d hd => Or.inl hd⟩
    rcases List.mem_append.mp hp with hp | hp
    · exact Or.inl hp
    · cases room with
      | false => cases hp
      | true =>
        rw [Label.linuxBytes, delivered, emitted_singleton]
        exact Or.inr hp
  | clientSend d hconn => exact ⟨rfl, fun p hp => Or.inl hp, fun x hx => List.mem_append.mp hx⟩
  | accepted fd c hp hconn => exact ⟨rfl, fun p hp => Or.inl hp, fun d hd => Or.inr hd⟩
  | bcastNothing ready r beyond os answer client hp hr hrecv hmsg =>
    exact ⟨rfl, fun p hp => Or.inl hp, fun d hd => Or.inl (Client.recv_subset hrecv hd)⟩
  | bcastIgnored ready beyond os d rest hp hr hq hconn hd hdest =>
    exact ⟨rfl, fun p hp => Or.inl hp, fun x hx => Or.inl (by rw [hq]; exact .tail d hx)⟩
  | bcastRelayed ready beyond os d rest port hp hr hq hconn hd hdest hsend =>
    exact ⟨rfl, fun p hp => Or.inl hp, fun x hx => Or.inl (by rw [hq]; exact .tail d hx)⟩
  | linuxRelayed ready r os msg source port hp hr hread hsend =>
    obtain ⟨hrx, -, hsub, -⟩ := receive_cases hread
    exact ⟨hrx, fun p hp => Or.inl (hsub hp), fun d hd => Or.inl hd⟩
  | ttyRelayed ready r beyond ok os msg source port hp hr hread hmsg hdest hsend =>
    obtain ⟨hrx, hpackets, -⟩ := transmit_sent hsend
    exact ⟨hrx, fun p hp => Or.inl (hpackets ▸ hp), fun d hd => Or.inl hd⟩
  | _ => exact ⟨rfl, fun p hp => Or.inl hp, fun d hd => Or.inl hd⟩

/-- A step sends nothing, a datagram of the client or what it read from the kernel side;
the condition on it is that this is a message of legal length. -/
theorem Moves.sends (h : Moves s l t) :
    (t.mctpSerial.sent = s.mctpSerial.sent ∧ Transmittable s l) ∨
    (∃ d ∈ s.client.datagrams, t.mctpSerial.sent = s.mctpSerial.sent ++ [d.take 256] ∧
      (Transmittable s l ↔ Sendable d)) ∨
    (∃ p ∈ s.linuxEndpoint.packets, t.mctpSerial.sent = s.mctpSerial.sent ++ [p] ∧
      Transmittable s l) ∨
    (t.mctpSerial.sent = s.mctpSerial.sent ++ [[]] ∧ ¬ Transmittable s l) := by
  cases h with
  | bcastSkip ready r beyond os hp hr =>
    refine Or.inl ⟨rfl, fun ready' d hp' hr' => ?_⟩
    obtain rfl : ready = ready' := Phase.bcast.inj (hp.symm.trans hp')
    rw [hr] at hr'
    cases hr'
  | bcastNothing ready r beyond os answer client hp hr hrecv hmsg =>
    refine Or.inl ⟨rfl, fun ready' d _ _ hdatagram hhead hconn hd _ => absurd hmsg ?_⟩
    rw [hdatagram] at hrecv
    exact Client.recv_answers hhead hd hconn hrecv
  | bcastIgnored ready beyond os d rest hp hr hq hconn hd hdest =>
    refine Or.inl ⟨rfl, fun ready' d' _ _ _ hhead _ _ hdest' => ?_⟩
    obtain rfl : d = d' := by simpa [hq] using hhead
    rw [hdest] at hdest'
    cases hdest'
  | bcastRelayed ready beyond os d rest port hp hr hq hconn hd hdest hsend =>
    refine Or.inr (Or.inl ⟨d, by simp [hq], (transmit_sent hsend).2.2, ?_, ?_⟩)
    · intro hok
      exact hok ready d hp hr rfl (by simp [hq]) hconn hd hdest
    · intro hlen ready' d' _ _ _ hhead _ _ _
      obtain rfl : d = d' := by simpa [hq] using hhead
      exact hlen
  | linuxSkip ready r os hp hr =>
    refine Or.inl ⟨rfl, fun ready' hp' hr' => ?_⟩
    obtain rfl : ready = ready' := Phase.linux.inj (hp.symm.trans hp')
    rw [hr] at hr'
    cases hr'
  | linuxRelayed ready r os msg source port hp hr hread hsend =>
    obtain ⟨-, -, -, ⟨rfl, hmem⟩ | ⟨rfl, rfl⟩⟩ := receive_cases hread
    · exact Or.inr (Or.inr (Or.inl ⟨msg, hmem, (transmit_sent hsend).2.2, fun _ _ _ => rfl⟩))
    · refine Or.inr (Or.inr (Or.inr ⟨(transmit_sent hsend).2.2, fun hok => ?_⟩))
      cases hok ready hp hr
  | ttyNothing ready r beyond ok os source hp hr hread =>
    exact Or.inl ⟨(receive_cases hread).2.1, trivial⟩
  | ttyDropped ready r beyond ok os msg source hp hr hread hmsg hdest hdrop =>
    exact Or.inl ⟨(receive_cases hread).2.1, trivial⟩
  | ttyKilled ready r beyond ok os msg source hp hr hread hmsg hdest hconn hpeer =>
    exact Or.inl ⟨(receive_cases hread).2.1, trivial⟩
  | ttySent ready r beyond os msg source hp hr hread hmsg hdest hconn hpeer =>
    exact Or.inl ⟨(receive_cases hread).2.1, trivial⟩
  | ttyRelayed ready r beyond ok os msg source port hp hr hread hmsg hdest hsend =>
    exact Or.inl ⟨(receive_cases hread).2.1, trivial⟩
  | _ => exact Or.inl ⟨rfl, trivial⟩

theorem origins_start (serialRx : Rx) (m : BcastMessenger) (path : String) (fd : ℕ) :
    Origins linuxRx [] (start serialRx linuxRx m path fd) where
  linux_rx := rfl
  packets := nofun
  datagrams := nofun
  sent := nofun

theorem origins_step (h : Origins linuxRx ls s) (hstep : s.step l = some t) :
    Origins linuxRx (ls ++ [l]) t := by
  have hmoves := moves_of_step hstep
  obtain ⟨hrx, hpackets, hdatagrams⟩ := hmoves.queues
  refine ⟨?_, ?_, ?_, ?_⟩
  · rw [hrx, h.linux_rx, List.flatMap_append, List.flatMap_singleton, run_append]
  · intro p hp
    rw [List.flatMap_append, List.flatMap_singleton, delivered, emitted_append, ← h.linux_rx]
    exact List.mem_append.mpr ((hpackets p hp).imp_left (h.packets p))
  · intro d hd
    rw [List.flatMap_append, List.flatMap_singleton]
    exact List.mem_append.mpr ((hdatagrams d hd).imp_left (h.datagrams d))
  · have old {msg : Packet} (hmsg : msg ∈ s.mctpSerial.sent) (hlen : Sendable msg) :
        HasOrigin linuxRx (ls ++ [l]) msg := (h.sent msg hmsg hlen).concat
    intro msg hmsg hlen
    obtain ⟨hsent, -⟩ | ⟨d, hd, hsent, -⟩ | ⟨p, hp, hsent, -⟩ | ⟨hsent, -⟩ := hmoves.sends <;>
      rw [hsent] at hmsg
    · exact old hmsg hlen
    · rcases List.mem_append.mp hmsg with hmsg | hmsg
      · exact old hmsg hlen
      · obtain rfl := List.mem_singleton.mp hmsg
        rw [take_of_sendable (sendable_take_iff.mp hlen)]
        exact Or.inl (mem_clientDatagrams_concat (h.datagrams d hd))
    · rcases List.mem_append.mp hmsg with hmsg | hmsg
      · exact old hmsg hlen
      · obtain rfl := List.mem_singleton.mp hmsg
        exact Or.inr (mem_delivered_concat (h.packets msg hp))
    · rcases List.mem_append.mp hmsg with hmsg | hmsg
      · exact old hmsg hlen
      · obtain rfl := List.mem_singleton.mp hmsg
        exact absurd hlen not_sendable_nil

/-- A step keeps all sent messages at a legal length exactly when it meets its condition. -/
theorem sendable_step_iff {noise : List Byte}
    (h : Origins (run updateRxFSM Rx.init noise) ls s) (hstep : s.step l = some t) :
    (∀ msg ∈ t.mctpSerial.sent, Sendable msg) ↔
      (∀ msg ∈ s.mctpSerial.sent, Sendable msg) ∧ Transmittable s l := by
  have split {msgs : List Packet} {msg : Packet} :
      (∀ x ∈ msgs ++ [msg], Sendable x) ↔ (∀ x ∈ msgs, Sendable x) ∧ Sendable msg := by
    rw [List.forall_mem_append, List.forall_mem_singleton]
  obtain ⟨hsent, hok⟩ | ⟨d, hd, hsent, hok⟩ | ⟨p, hp, hsent, hok⟩ | ⟨hsent, hok⟩ :=
    (moves_of_step hstep).sends <;> rw [hsent]
  · exact (and_iff_left hok).symm
  · rw [split, hok, sendable_take_iff]
  · rw [split, and_iff_left hok, and_iff_left (sendable_of_delivered (h.packets p hp))]
  · rw [split]
    exact and_congr_right fun _ => iff_of_false not_sendable_nil hok

end Runs

/-- The bridge transmits whole messages of legal length exactly in the runs in which
every datagram it reads for broadcasting has a legal length and every report of the
kernel side yields a packet. -/
theorem transmits_legal_iff (serialRx : Rx) (noise : List Byte) (m : BcastMessenger)
    (path : String) (fd : ℕ) (ls : List Label) (s : MctpBridge)
    (hrun : exec step (start serialRx (run updateRxFSM Rx.init noise) m path fd) ls = some s) :
    (∀ msg ∈ s.mctpSerial.sent,
      Sendable msg ∧ HasOrigin (run updateRxFSM Rx.init noise) ls msg) ↔
      Every step Transmittable (start serialRx (run updateRxFSM Rx.init noise) m path fd) ls := by
  have always {ls : List Label} {s : MctpBridge}
      (hrun : exec step (start serialRx (run updateRxFSM Rx.init noise) m path fd) ls = some s) :
      Origins (run updateRxFSM Rx.init noise) ls s :=
    invariant _ (origins_start serialRx m path fd)
      (fun _ _ _ _ h hstep => origins_step h hstep) hrun
  have hiff := iff_every (G := Transmittable) (Origins (run updateRxFSM Rx.init noise))
    (fun _ s => ∀ msg ∈ s.mctpSerial.sent, Sendable msg) (by intro msg hmsg; cases hmsg) always
    (fun _ _ _ _ h hstep => sendable_step_iff h hstep) hrun
  rw [← hiff]
  constructor
  · intro h msg hmsg
    exact (h msg hmsg).1
  · intro h msg hmsg
    exact ⟨h msg hmsg, (always hrun).sent msg hmsg (h msg hmsg)⟩

theorem transmits_legal_hail : ∃ s,
    exec step (start Rx.init Rx.init .init "bcast" 3) hailRun = some s ∧
    s.mctpSerial.sent = [hail] ∧
    Every step Transmittable (start Rx.init Rx.init .init "bcast" 3) hailRun := by
  have hout : (exec step (start Rx.init Rx.init .init "bcast" 3) hailRun).map
      (fun s => s.mctpSerial.sent) = some [hail] := by
    decide +kernel
  obtain ⟨s, hrun, hs⟩ := Option.map_eq_some_iff.mp hout
  refine ⟨s, hrun, hs, (transmits_legal_iff Rx.init [] .init "bcast" 3 hailRun s hrun).mp ?_⟩
  rw [hs]
  decide +kernel

/-- A client sends two bytes with destination 0xFF. -/
def shortRun : List Label :=
  [.accept (.client 7) ⟨[[1, 0xFF]], true⟩, .wait true (some ⟨true, false, false⟩),
    .serveBcast .datagram 0 [.accepted 7]]

/-- Two bytes from a client are transmitted as a message. -/
theorem short_datagram_transmitted :
    ¬ ∀ ls s, exec step (start Rx.init Rx.init .init "bcast" 3) ls = some s →
      ∀ msg ∈ s.mctpSerial.sent, Sendable msg ∧ HasOrigin Rx.init ls msg := by
  intro h
  have hout : (exec step (start Rx.init Rx.init .init "bcast" 3) shortRun).map
      (fun s => s.mctpSerial.sent) = some [[1, 0xFF]] := by
    decide +kernel
  obtain ⟨s, hrun, hs⟩ := Option.map_eq_some_iff.mp hout
  have hmem : ([1, 0xFF] : Packet) ∈ s.mctpSerial.sent := by
    rw [hs]
    exact List.mem_singleton_self _
  exact absurd (h shortRun s hrun _ hmem).1 (by decide)

end MctpSerial.MctpBridge
