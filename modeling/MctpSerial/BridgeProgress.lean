import MctpSerial.BridgePairs

/-!
# Two bridges never get stuck

Whatever two joined bridges have come to in a well-behaved run, as long as their dispatch
threads are running, and neither of them is about to serve its serial side without a client, who
would miss a broadcast, they can go on without anything new being sent until nothing is under way,
and then everything has come out. One turn of the loop serves every source that holds
something; a bridge that has nothing to send writes nothing, so that the line is empty once
both have sent what they had and the bytes have arrived.
-/
namespace MctpSerial.MctpBridge
open MctpFramer StreamTransducers GuardedRuns JoinedMachines

/-! ## One step -/

/-- The dispatch thread serves a source. -/
def Label.Serves : Label → Prop
  | .serveBcast _ _ _ | .serveLinux _ _ | .serveTty _ _ _ _ => True
  | _ => False

/-- The phases that are left in a turn. -/
def Phase.rank : Phase → ℕ
  | .bcast _ => 3
  | .linux _ => 2
  | .tty _ => 1
  | _ => 0

/-- How many sources a turn still has to serve. -/
def Phase.owed (ph : Phase) : ℕ :=
  ph.awaits.bcast.toNat + ph.awaits.linux.toNat + ph.awaits.tty.toNat

/-- What waits for the dispatch thread. -/
def pending (s : MctpBridge) : ℕ :=
  s.linuxEndpoint.packets.length + s.client.datagrams.length + s.mctpSerial.packets.length

/-- Some outcomes of the writes bring the whole frame out. -/
theorem exists_writes (msg : Packet) : ∃ os, WritesSucceed msg os ∧
    ∀ p : Port, ∃ port, p.transmit msg os = some port := by
  obtain ⟨os, hos⟩ := exists_send_written (List.prefix_rfl : buildWire msg <+: buildWire msg)
  obtain ⟨r, hret, hr⟩ := (send_ends msg os).ret_nonneg_iff.mp hos
  refine ⟨os, fun r' hr' => ?_, fun p => ⟨_, by rw [Port.transmit, hret]; rfl⟩⟩
  cases hret.symm.trans hr'
  exact hr

section Steps

variable {serialRx linuxRx : Rx} {ls : List Label} {l : Label} {s t : MctpBridge}

/-- What a step of a turn leaves. -/
structure Advances (s t : MctpBridge) : Prop where
  balance : t.pending + s.phase.owed = s.pending + t.phase.owed
  rank : t.phase.rank < s.phase.rank
  head : t.phase.rank = 0 → t.phase = .loop
  running : t.running = s.running
  connected : t.bcast.isConnected = s.bcast.isConnected
  tty : t.phase.awaits.tty = true → s.phase.awaits.tty = true

/-- Each source that is awaited loses one message when it is served. -/
theorem advances_step (h : Relays serialRx linuxRx ls s) (hG : WellBehaved s l) (hl : l.Serves)
    (hstep : s.step l = some t) : Advances s t := by
  obtain ⟨fromSerial, fromLinux, fromClient, toSerial, h⟩ := h
  cases moves_of_step hstep with
  | bcastSkip ready r beyond os hp hr =>
    constructor <;> simp [pending, hp, hr, Phase.awaits, Phase.owed, Phase.rank]
  | bcastNothing ready r beyond os answer client hp hr hrecv hmsg =>
    exact absurd hmsg (h.clientAnswers hp hr hG.1 hrecv)
  | bcastIgnored ready beyond os d rest hp hr hq hconn hd hdest =>
    constructor <;> simp [pending, hp, hr, hq, Phase.awaits, Phase.owed, Phase.rank]
    omega
  | bcastRelayed ready beyond os d rest port hp hr hq hconn hd hdest hsend =>
    obtain ⟨-, rfl⟩ := Port.transmit_spec hsend
    constructor <;> simp [pending, hp, hr, hq, Phase.awaits, Phase.owed, Phase.rank]
    omega
  | linuxSkip ready r os hp hr =>
    constructor <;> simp [pending, hp, hr, Phase.awaits, Phase.owed, Phase.rank]
  | linuxRelayed ready r os msg source port hp hr hread hsend =>
    have hne := h.linux_ready (by rw [hp]; exact hr)
    obtain ⟨rest, hq, rfl⟩ := Port.receive_packet hread (hG.1 hne)
    obtain ⟨-, rfl⟩ := Port.transmit_spec hsend
    constructor <;> simp [pending, hp, hr, hq, Phase.awaits, Phase.owed, Phase.rank]
    omega
  | ttySkip ready r beyond ok os hp hr =>
    constructor <;> simp [pending, hp, hr, Phase.awaits, Phase.owed, Phase.rank]
  | ttyNothing ready r beyond ok os source hp hr hread =>
    obtain ⟨rest, hq, -, hlen⟩ := h.ttyAnswers hp hr hG.1 hread
    simp at hlen
  | ttyDropped ready r beyond ok os msg source hp hr hread hmsg hdest hdrop =>
    obtain ⟨rest, hq, rfl, -⟩ := h.ttyAnswers hp hr hG.1 hread
    constructor <;> simp [pending, hp, hr, hq, Phase.awaits, Phase.owed, Phase.rank]
    omega
  | ttyKilled ready r beyond ok os msg source hp hr hread hmsg hdest hconn hpeer =>
    rw [h.client_stays hconn] at hpeer
    cases hpeer
  | ttySent ready r beyond os msg source hp hr hread hmsg hdest hconn hpeer =>
    obtain ⟨rest, hq, rfl, -⟩ := h.ttyAnswers hp hr hG.1 hread
    constructor <;> simp [pending, hp, hr, hq, Phase.awaits, Phase.owed, Phase.rank]
    omega
  | ttyRelayed ready r beyond ok os msg source port hp hr hread hmsg hdest hsend =>
    obtain ⟨rest, hq, rfl, -⟩ := h.ttyAnswers hp hr hG.1 hread
    obtain ⟨-, rfl⟩ := Port.transmit_spec hsend
    constructor <;> simp [pending, hp, hr, hq, Phase.awaits, Phase.owed, Phase.rank]
    omega
  | _ => exact absurd hl id

/-- Outcomes for the head of a queue. -/
theorem exists_writes_head (q : List Packet) : ∃ os, (∀ d ∈ q.head?, WritesSucceed d os) ∧
    ∀ d ∈ q.head?, ∀ p : Port, ∃ port, p.transmit d os = some port := by
  cases q with
  | nil => exact ⟨[], nofun, nofun⟩
  | cons d rest =>
    obtain ⟨os, hwrites, hsend⟩ := exists_writes d
    refine ⟨os, fun d' hd => ?_, fun d' hd => ?_⟩
    · cases hd
      exact hwrites
    · cases hd
      exact hsend

/-- A turn that has begun can go on. -/
theorem exists_serve (h : Relays serialRx linuxRx ls s) (hrank : 0 < s.phase.rank)
    (hserved : s.phase.awaits.tty = true → s.bcast.isConnected = true) :
    ∃ l, l.Serves ∧ WellBehaved s l ∧ (s.step l).isSome = true := by
  obtain ⟨fromSerial, fromLinux, fromClient, toSerial, h⟩ := h
  cases hp : s.phase with
  | bcast ready =>
    obtain ⟨os, hwrites, hsend⟩ := exists_writes_head s.client.datagrams
    have hwell : WellBehaved s (.serveBcast .datagram 0 os) := ⟨fun _ => rfl, hwrites⟩
    refine ⟨.serveBcast .datagram 0 os, ?_⟩
    cases hr : ready.bcast with
    | false => exact ⟨trivial, hwell, by simp only [step, hp, bcastPhase, hr]; rfl⟩
    | true =>
      have hne := h.bcast_ready (by rw [hp]; exact hr)
      obtain ⟨d, rest, hq⟩ := List.exists_cons_of_ne_nil hne
      have hd := h.client_sendable d (by rw [hq]; exact List.mem_cons_self)
      have hconn : s.bcast.isConnected = true := by
        by_contra hoff
        exact hne (h.client_fresh (by simpa using hoff))
      have hread : s.bcast.recvMessage (.datagram d) = (s.bcast, [], d) := by
        rw [BcastMessenger.recvMessage_datagram hconn
          (List.ne_nil_of_length_pos (by have := hd.1; omega)), take_of_sendable hd]
      have hlen : d.length > 0 := by have := hd.1; omega
      obtain ⟨port, hport⟩ := hsend d (by rw [hq]; rfl) s.mctpSerial
      cases hdest : isBroadcastEid (destEid d 0) with
      | false =>
        refine ⟨trivial, hwell, ?_⟩
        simp only [step, hp, bcastPhase, hr, Client.recv, hq, Option.bind_eq_bind, Option.bind_some,
          hread, hlen, hdest]
        rfl
      | true =>
        refine ⟨trivial, hwell, ?_⟩
        simp only [step, hp, bcastPhase, hr, Client.recv, hq, Option.bind_eq_bind, Option.bind_some,
          hread, hlen, hdest, hport]
        rfl
  | linux ready =>
    obtain ⟨os, hwrites, hsend⟩ := exists_writes_head s.linuxEndpoint.packets
    have hwell : WellBehaved s (.serveLinux .packet os) := ⟨fun _ => rfl, hwrites⟩
    refine ⟨.serveLinux .packet os, ?_⟩
    cases hr : ready.linux with
    | false => exact ⟨trivial, hwell, by simp only [step, hp, linuxPhase, hr]; rfl⟩
    | true =>
      obtain ⟨msg, rest, hq⟩ := List.exists_cons_of_ne_nil (h.linux_ready (by rw [hp]; exact hr))
      obtain ⟨port, hport⟩ := hsend msg (by rw [hq]; rfl) s.mctpSerial
      refine ⟨trivial, hwell, ?_⟩
      simp only [step, hp, linuxPhase, hr, Port.receive, hq, Option.bind_eq_bind, Option.bind_some,
        hport]
      rfl
  | tty ready =>
    obtain ⟨os, hwrites, hsend⟩ := exists_writes_head s.mctpSerial.packets
    have hwell : WellBehaved s (.serveTty .packet 0 true os) :=
      ⟨fun _ => rfl, hserved, rfl, hwrites⟩
    refine ⟨.serveTty .packet 0 true os, ?_⟩
    cases hr : ready.tty with
    | false => exact ⟨trivial, hwell, by simp only [step, hp, ttyPhase, hr]; rfl⟩
    | true =>
      have hconn := hserved (by rw [hp]; exact hr)
      obtain ⟨msg, rest, hq⟩ := List.exists_cons_of_ne_nil (h.tty_ready (by rw [hp]; exact hr))
      have hread : s.mctpSerial.receive .packet =
          some (msg, { s.mctpSerial with packets := rest }) := by
        simp only [Port.receive, hq]
      obtain ⟨rest', hq', -, hlen⟩ := h.ttyAnswers hp hr (fun _ => rfl) hread
      have hpos : msg.length > 0 := by omega
      obtain ⟨port, hport⟩ := hsend msg (by rw [hq]; rfl) s.linuxEndpoint
      cases hdest : isBroadcastEid (destEid msg 0) with
      | false =>
        refine ⟨trivial, hwell, ?_⟩
        simp only [step, hp, ttyPhase, hr, hread, Option.bind_eq_bind, Option.bind_some, hpos,
          hdest, hport]
        rfl
      | true =>
        refine ⟨trivial, hwell, ?_⟩
        simp only [step, hp, ttyPhase, hr, hread, Option.bind_eq_bind, Option.bind_some, hpos,
          hdest, BcastMessenger.sendMessage, hconn, h.client_stays hconn]
        rfl
  | _ =>
    rw [hp] at hrank
    exact absurd hrank (Nat.lt_irrefl 0)

end Steps

/-! ## One bridge -/

/-- Nothing new is sent; bytes on the line may arrive. -/
def Quietly (s : MctpBridge) (l : Label) : Prop :=
  WellBehaved s l ∧ l.linuxBytes = [] ∧ l.clientDatagrams = []

/-- Nothing comes in. -/
def Serving (s : MctpBridge) (l : Label) : Prop := Quietly s l ∧ serialPort.input s l = []

/-- A bridge in a well-behaved run that has not been stopped and has a client for what it is
about to take from the serial side. -/
structure Going (serialRx linuxRx : Rx) (s : MctpBridge) : Prop where
  relays : ∃ ls, Relays serialRx linuxRx ls s
  running : s.running = true
  served : s.phase.awaits.tty = true → s.bcast.isConnected = true

section Going

variable {serialRx linuxRx : Rx} {l : Label} {s t : MctpBridge}

theorem serving_of_serves (hl : l.Serves) (hG : WellBehaved s l) : Serving s l := by
  cases l with
  | serveBcast r beyond os => exact ⟨⟨hG, rfl, rfl⟩, rfl⟩
  | serveLinux r os => exact ⟨⟨hG, rfl, rfl⟩, rfl⟩
  | serveTty r beyond ok os => exact ⟨⟨hG, rfl, rfl⟩, rfl⟩
  | _ => exact absurd hl id

theorem Going.relays_step (h : Going serialRx linuxRx s) (hG : WellBehaved s l)
    (hstep : s.step l = some t) : ∃ ls, Relays serialRx linuxRx ls t := by
  obtain ⟨ls, hrel⟩ := h.relays
  exact ⟨_, MctpBridge.relays_step hrel hG hstep⟩

/-- A turn that was in `s` is in `u`. -/
structure Along (serialRx linuxRx : Rx) (s u : MctpBridge) : Prop where
  going : Going serialRx linuxRx u
  head : u.phase.rank = 0 → u.phase = .loop
  balance : u.pending + s.phase.owed = s.pending + u.phase.owed

theorem Along.step {u : MctpBridge} (h : Along serialRx linuxRx s u) (hrank : u.phase.rank ≠ 0) :
    ∃ ls v, Leads step Serving u ls v ∧ Along serialRx linuxRx s v ∧
      v.phase.rank < u.phase.rank := by
  obtain ⟨past, hrel⟩ := h.going.relays
  obtain ⟨l, hl, hG, hsome⟩ := exists_serve hrel (Nat.pos_of_ne_zero hrank) h.going.served
  obtain ⟨v, hstep⟩ := Option.isSome_iff_exists.mp hsome
  have hadv := advances_step hrel hG hl hstep
  refine ⟨[l], v, .single (serving_of_serves hl hG) hstep, ⟨⟨h.going.relays_step hG hstep, ?_, ?_⟩,
    hadv.head, ?_⟩, hadv.rank⟩
  · rw [hadv.running, h.going.running]
  · intro htty
    rw [hadv.connected]
    exact h.going.served (hadv.tty htty)
  · have hsofar := h.balance
    have hnext := hadv.balance
    omega

/-- The rest of a turn. -/
theorem Going.finish_turn (h : Going serialRx linuxRx s)
    (hhead : s.phase.rank = 0 → s.phase = .loop) :
    ∃ ls t, Leads step Serving s ls t ∧ Going serialRx linuxRx t ∧ t.phase = .loop ∧
      t.pending + s.phase.owed = s.pending := by
  obtain ⟨ls, t, hlead, ht, hrank⟩ := leads_to_zero (Along serialRx linuxRx s)
    (fun u => u.phase.rank) (fun _ hu hrank => hu.step hrank) ⟨h, hhead, rfl⟩
  have hloop := ht.head hrank
  have hbalance := ht.balance
  rw [hloop] at hbalance
  exact ⟨ls, t, hlead, ht.going, hloop, hbalance⟩

/-- A client is there once the loop waits. -/
theorem Going.begin_turn (h : Going serialRx linuxRx s) (hloop : s.phase = .loop) :
    ∃ l t, Serving s l ∧ s.step l = some t ∧ Going serialRx linuxRx t ∧ t.phase = .epoll ∧
      t.bcast.isConnected = true ∧ t.pending = s.pending := by
  obtain ⟨past, fromSerial, fromLinux, fromClient, toSerial, hrel⟩ := h.relays
  cases hconn : s.bcast.isConnected with
  | true =>
    have hstep : s.step .check = some { s with phase := .epoll } := by
      simp only [step, hloop, checkPhase, h.running, hconn]
      rfl
    have hG : WellBehaved s .check := trivial
    exact ⟨.check, _, ⟨⟨hG, rfl, rfl⟩, rfl⟩, hstep, ⟨h.relays_step hG hstep, h.running, fun htty =>
      absurd htty Bool.false_ne_true⟩, rfl, hconn, rfl⟩
  | false =>
    have hG : WellBehaved s (.accept (.client 0) ⟨[], true⟩) :=
      ⟨rfl, List.forall_mem_nil _⟩
    have hstep : s.step (.accept (.client 0) ⟨[], true⟩) =
        some { s with
          bcast := { s.bcast with connFd := 0, state := .connected }
          client := ⟨[], true⟩
          phase := .epoll } := by
      simp only [step, hloop, acceptPhase, h.running, hconn]
      rfl
    refine ⟨_, _, ⟨⟨hG, rfl, rfl⟩, rfl⟩, hstep, ⟨h.relays_step hG hstep, h.running, fun htty =>
      absurd htty Bool.false_ne_true⟩, rfl, rfl, ?_⟩
    rw [pending, pending, hrel.client_fresh hconn]

/-- All sources that hold something. -/
def holding (s : MctpBridge) : Ready :=
  ⟨!s.client.datagrams.isEmpty, !s.linuxEndpoint.packets.isEmpty, !s.mctpSerial.packets.isEmpty⟩

/-- A whole turn serves something if anything waits. -/
theorem Going.turn (h : Going serialRx linuxRx s) (hloop : s.phase = .loop)
    (hpending : s.pending ≠ 0) :
    ∃ ls t, Leads step Serving s ls t ∧ (Going serialRx linuxRx t ∧ t.phase = .loop) ∧
      t.pending < s.pending := by
  obtain ⟨l, e, hserving, hbegin, he, hepoll, hconn, hsame⟩ := h.begin_turn hloop
  have hG : WellBehaved e (.wait true (some e.holding)) := by
    refine ⟨?_, ?_, ?_⟩ <;> intro hr <;> simpa [holding] using hr
  have hwait : e.step (.wait true (some e.holding)) =
      some { e with phase := .bcast e.holding } := by
    simp only [step, hepoll, waitPhase, hconn, Bool.and_true]
    rfl
  obtain ⟨ls, t, hlead, ht, hend, hbalance⟩ :=
    Going.finish_turn ⟨he.relays_step hG hwait, he.running, fun _ => hconn⟩
      fun hzero => absurd hzero (Nat.succ_ne_zero 2)
  refine ⟨_, t, .cons hserving hbegin (.cons ⟨⟨hG, rfl, rfl⟩, rfl⟩ hwait hlead), ⟨ht, hend⟩, ?_⟩
  have howed : 0 < (Phase.bcast e.holding).owed := by
    rw [← hsame] at hpending
    by_contra hnone
    refine hpending ?_
    simp only [Phase.owed, Phase.awaits, holding, Nat.not_lt, Nat.le_zero, Nat.add_eq_zero_iff,
      Bool.toNat_eq_zero, Bool.not_eq_false', List.isEmpty_iff] at hnone
    simp [pending, hnone]
  change t.pending + (Phase.bcast e.holding).owed = e.pending at hbalance
  omega

theorem Going.drain (h : Going serialRx linuxRx s) (hloop : s.phase = .loop) :
    ∃ ls t, Leads step Serving s ls t ∧ (Going serialRx linuxRx t ∧ t.phase = .loop) ∧
      t.pending = 0 :=
  leads_to_zero _ _ (fun _ hu hpending => hu.1.turn hu.2 hpending) ⟨h, hloop⟩

/-- The dispatch thread is running, and has a client if it is about to serve the serial side. -/
structure Alive (s : MctpBridge) : Prop where
  running : s.running = true
  phase : s.phase = .loop ∨ s.phase = .epoll ∨ 0 < s.phase.rank
  served : s.phase.awaits.tty = true → s.bcast.isConnected = true

/-- A dispatch thread that is running can serve all there is. -/
theorem Alive.settle (halive : s.Alive) (hrel : ∃ ls, Relays serialRx linuxRx ls s) :
    ∃ ls t, Leads step Serving s ls t ∧ (Going serialRx linuxRx t ∧ t.phase = .loop) ∧
      t.pending = 0 := by
  have h : Going serialRx linuxRx s := ⟨hrel, halive.running, halive.served⟩
  obtain ⟨ls, t, hlead, ht, hloop⟩ : ∃ ls t, Leads step Serving s ls t ∧
      Going serialRx linuxRx t ∧ t.phase = .loop := by
    rcases halive.phase with hloop | hepoll | hrank
    · exact ⟨[], s, .refl s, h, hloop⟩
    · have hG : WellBehaved s (.wait false none) := trivial
      have hstep : s.step (.wait false none) = some { s with phase := .loop } := by
        simp only [step, hepoll, waitPhase]
        rfl
      exact ⟨_, _, .single ⟨⟨hG, rfl, rfl⟩, rfl⟩ hstep,
        ⟨h.relays_step hG hstep, halive.running, fun htty => absurd htty Bool.false_ne_true⟩, rfl⟩
    · obtain ⟨ls, t, hlead, ht, hloop, -⟩ :=
        h.finish_turn fun hzero => absurd hrank (hzero ▸ Nat.lt_irrefl 0)
      exact ⟨ls, t, hlead, ht, hloop⟩
  obtain ⟨ls', u, hlead', hu⟩ := ht.drain hloop
  exact ⟨ls ++ ls', u, hlead.trans hlead', hu⟩

/-- Nothing to send, and these bytes written so far. -/
structure Mute (wire : List Byte) (s : MctpBridge) : Prop where
  kernel : s.linuxEndpoint.packets = []
  client : s.client.datagrams = []
  wire : s.mctpSerial.wire = wire

theorem mute_of_pending (h : s.pending = 0) : Mute s.mctpSerial.wire s := by
  simp only [pending, Nat.add_eq_zero_iff, List.length_eq_zero_iff] at h
  exact ⟨h.1.1, h.1.2, rfl⟩

/-- A bridge that has nothing to send writes nothing. -/
theorem mute_step {ls : List Label} {wire : List Byte} (hrel : Relays serialRx linuxRx ls s)
    (h : Mute wire s) (hG : Quietly s l) (hstep : s.step l = some t) : Mute wire t := by
  obtain ⟨hwell, hlinux, hclient⟩ := hG
  obtain ⟨fromSerial, fromLinux, fromClient, toSerial, hrel⟩ := hrel
  have hreceive {source : Port} {r : Port.ReadResult} {msg : Packet}
      (hread : s.mctpSerial.receive r = some (msg, source)) : source.wire = wire := by
    rw [← h.wire]
    cases r with
    | failed =>
      cases hread
      rfl
    | packet =>
      obtain ⟨rest, -, rfl⟩ := Port.receive_packet hread rfl
      rfl
  cases moves_of_step hstep with
  | linuxByte b room => cases hlinux
  | clientSend d hconn => cases hclient
  | accepted fd c hp hconn => exact ⟨h.kernel, hclient, h.wire⟩
  | bcastNothing ready r beyond os answer client hp hr hrecv hmsg =>
    exact absurd h.client (hrel.bcast_ready (by rw [hp]; exact hr))
  | bcastIgnored ready beyond os d rest hp hr hq hconn hd hdest =>
    rw [h.client] at hq
    cases hq
  | bcastRelayed ready beyond os d rest port hp hr hq hconn hd hdest hsend =>
    rw [h.client] at hq
    cases hq
  | linuxRelayed ready r os msg source port hp hr hread hsend =>
    exact absurd h.kernel (hrel.linux_ready (by rw [hp]; exact hr))
  | ttyNothing ready r beyond ok os source hp hr hread =>
    exact ⟨h.kernel, h.client, hreceive hread⟩
  | ttyDropped ready r beyond ok os msg source hp hr hread hmsg hdest hdrop =>
    exact ⟨h.kernel, h.client, hreceive hread⟩
  | ttyKilled ready r beyond ok os msg source hp hr hread hmsg hdest hconn hpeer =>
    exact ⟨h.kernel, h.client, hreceive hread⟩
  | ttySent ready r beyond os msg source hp hr hread hmsg hdest hconn hpeer =>
    exact ⟨h.kernel, h.client, hreceive hread⟩
  | ttyRelayed ready r beyond ok os msg source port hp hr hread hmsg hdest hsend =>
    obtain ⟨-, rfl⟩ := Port.transmit_spec hsend
    exact ⟨h.kernel, h.client, hreceive hread⟩
  | _ => exact ⟨h.kernel, h.client, h.wire⟩

theorem mute_leads {ks : List Label} {wire : List Byte} (hrel : ∃ ls, Relays serialRx linuxRx ls s)
    (h : Mute wire s) (hlead : Leads step Serving s ks t) : Mute wire t := by
  have hkept := hlead.keeps (fun u => (∃ ls, Relays serialRx linuxRx ls u) ∧ Mute wire u)
    (fun u k v hu hG hstep => by
      obtain ⟨⟨ls, hrel⟩, hmute⟩ := hu
      exact ⟨⟨_, relays_step hrel hG.1.1 hstep⟩, mute_step hrel hmute hG.1 hstep⟩) ⟨hrel, h⟩
  exact hkept.2

/-- A bridge at the head of its loop takes any byte from the line. -/
theorem going_takes (wire : List Byte) (u : MctpBridge) (b : Byte)
    (h : Going serialRx linuxRx u ∧ u.phase = .loop ∧ Mute wire u) :
    Quietly u (.serialByte b true) ∧ serialPort.input u (.serialByte b true) = [b] ∧
      ∃ v, serialPort.step u (.serialByte b true) = some v ∧
        Going serialRx linuxRx v ∧ v.phase = .loop ∧ Mute wire v := by
  obtain ⟨hgoing, hloop, hmute⟩ := h
  have hG : WellBehaved u (.serialByte b true) := rfl
  have hstep : u.step (.serialByte b true) =
      some { u with mctpSerial := u.mctpSerial.receiveByte b true } := rfl
  refine ⟨⟨hG, rfl, rfl⟩, rfl, _, hstep, ⟨hgoing.relays_step hG hstep, hgoing.running, ?_⟩, hloop,
    hmute.kernel, hmute.client, hmute.wire⟩
  intro htty
  exact hgoing.served htty

end Going

/-! ## Both bridges -/

section Pair

variable {p : Joint MctpBridge MctpBridge} {serialRx linuxRx serialRx' linuxRx' : Rx}

theorem length_wire_le {ks : List Label} {n : ℕ} {s t : MctpBridge}
    (h : n ≤ s.mctpSerial.wire.length) (hlead : Leads step Serving s ks t) :
    n ≤ t.mctpSerial.wire.length :=
  hlead.keeps (fun u => n ≤ u.mctpSerial.wire.length)
    (fun u l v hu _ hstep => hu.trans (wire_grows u l v hstep).length_le) h

theorem drained_of_mute {s t : MctpBridge} {wire : List Byte} (hs : Mute wire s)
    (ht : t.pending = 0) : Drained s t wire.length := by
  simp only [pending, Nat.add_eq_zero_iff, List.length_eq_zero_iff] at ht
  exact ⟨hs.kernel, hs.client, by rw [hs.wire], ht.2⟩

/-- Both serve what they hold, then the bytes arrive, then both serve what has come. -/
theorem pair_settles (hl : p.left.Alive) (hr : p.right.Alive)
    (hrelL : ∃ ls, Relays serialRx linuxRx ls p.left)
    (hrelR : ∃ ls, Relays serialRx' linuxRx' ls p.right)
    (hle : p.rightward ≤ p.left.mctpSerial.wire.length)
    (hle' : p.leftward ≤ p.right.mctpSerial.wire.length) :
    ∃ more q, Leads pairStep (jointGuard Quietly Quietly) p more q ∧
      Drained q.left q.right q.rightward ∧ Drained q.right q.left q.leftward := by
  obtain ⟨ks₁, a, h₁, ⟨ha, haloop⟩, hpa⟩ := hl.settle hrelL
  obtain ⟨ks₂, b, h₂, ⟨hb, hbloop⟩, hpb⟩ := hr.settle hrelR
  have lead₁ : Leads pairStep (jointGuard Quietly Quietly) p (ks₁.map .inl)
      { p with left := a } := leads_left h₁
  have lead₂ : Leads pairStep (jointGuard Quietly Quietly) { p with left := a } (ks₂.map .inr)
      { p with left := a, right := b } := leads_right h₂
  obtain ⟨ks₃, b₁, lead₃, hb₁, hbloop₁, hmuteB⟩ :=
    leads_arrived (M := serialPort) (N := serialPort) (G := Quietly) (H := Quietly)
      (s := { p with left := a, right := b }) (Label.serialByte · true) _
      (fun u x hu => going_takes b.mctpSerial.wire u x hu) ⟨hb, hbloop, mute_of_pending hpb⟩
      (length_wire_le hle h₁)
  have harrived : p.leftward ≤ b₁.mctpSerial.wire.length := by
    rw [hmuteB.wire]
    exact length_wire_le hle' h₂
  obtain ⟨ks₄, a₁, lead₄, ha₁, haloop₁, hmuteA⟩ :=
    leads_arrived_left (M := serialPort) (N := serialPort) (G := Quietly) (H := Quietly)
      (s := ⟨a, b₁, a.mctpSerial.wire.length, p.leftward⟩) (Label.serialByte · true) _
      (fun u x hu => going_takes a.mctpSerial.wire u x hu) ⟨ha, haloop, mute_of_pending hpa⟩
      harrived
  obtain ⟨ks₅, a₂, h₅, -, hpa₂⟩ := ha₁.drain haloop₁
  obtain ⟨ks₆, b₂, h₆, -, hpb₂⟩ := hb₁.drain hbloop₁
  have lead₅ : Leads pairStep (jointGuard Quietly Quietly)
      ⟨a₁, b₁, a.mctpSerial.wire.length, b₁.mctpSerial.wire.length⟩ (ks₅.map .inl)
      ⟨a₂, b₁, a.mctpSerial.wire.length, b₁.mctpSerial.wire.length⟩ := leads_left h₅
  have lead₆ : Leads pairStep (jointGuard Quietly Quietly)
      ⟨a₂, b₁, a.mctpSerial.wire.length, b₁.mctpSerial.wire.length⟩ (ks₆.map .inr)
      ⟨a₂, b₂, a.mctpSerial.wire.length, b₁.mctpSerial.wire.length⟩ := leads_right h₆
  refine ⟨_, _, lead₁.trans (lead₂.trans (lead₃.trans (lead₄.trans (lead₅.trans lead₆)))), ?_, ?_⟩
  · exact drained_of_mute (mute_leads ha₁.relays hmuteA h₅) hpb₂
  · dsimp only
    rw [hmuteB.wire]
    exact drained_of_mute (mute_leads hb₁.relays hmuteB h₆) hpa₂

end Pair

theorem quiet_inputs {s t : MctpBridge} {ks : List Label} (hrun : exec step s ks = some t)
    (h : Every step Quietly s ks) :
    ks.flatMap Label.linuxBytes = [] ∧ ks.flatMap Label.clientDatagrams = [] := by
  induction ks generalizing s with
  | nil => exact ⟨rfl, rfl⟩
  | cons k ks ih =>
    obtain ⟨u, hu, hrun⟩ := Option.bind_eq_some_iff.mp hrun
    obtain ⟨⟨-, hlinux, hclient⟩, hrest⟩ := h
    obtain ⟨ihLinux, ihClient⟩ := ih hrun (hrest u hu)
    rw [List.flatMap_cons, List.flatMap_cons, hlinux, hclient, ihLinux, ihClient]
    exact ⟨rfl, rfl⟩

/-- A quiet run goes on with the inputs that there were. -/
theorem End.same_inputs (e : End) {ls ks : List Label} {s t : MctpBridge}
    (hrun : exec step e.start ls = some s) (hall : exec step e.start (ls ++ ks) = some t)
    (h : Every step Quietly s ks) : e.fromKernel (ls ++ ks) = e.fromKernel ls ∧
      (ls ++ ks).flatMap Label.clientDatagrams = ls.flatMap Label.clientDatagrams := by
  rw [exec_append, hrun] at hall
  obtain ⟨hlinux, hclient⟩ := quiet_inputs hall h
  rw [End.fromKernel, End.fromKernel, List.flatMap_append, List.flatMap_append, hlinux, hclient,
    List.append_nil, List.append_nil]
  exact ⟨rfl, rfl⟩

theorem End.relays (e : End) {ls : List Label} {s : MctpBridge}
    (hrun : exec step e.start ls = some s) (hwell : Every step WellBehaved e.start ls) :
    Relays e.serialRx e.linuxRx ls s :=
  guarded_invariant (Relays e.serialRx e.linuxRx) (relays_start e.messenger e.path e.fd)
    (fun _ _ _ _ h hG hstep => relays_step h hG hstep) hrun hwell

/-- A frame for every unicast that the near kernel has sent, and every broadcast of the near
kernel and the near clients, each source in its order. -/
structure Completes (kernelIn clientsIn : List Packet) (receiver : MctpBridge) : Prop where
  kernel : receiver.linuxEndpoint.wire =
    (kernelIn.filter fun p => !isBroadcast p).flatMap buildWire
  client : Interleaving (kernelIn.filter isBroadcast) (clientsIn.filter isBroadcast)
    receiver.clientOut

/-- From every state of every well-behaved run in which both dispatch threads are running and
neither is about to serve its serial side without a client, the bridges can go on by themselves
until all that was ever sent to them has come out. -/
theorem pair_never_stuck (l r : End) (ls : List (Label ⊕ Label)) (p : Joint MctpBridge MctpBridge)
    (hrun : exec pairStep ⟨l.start, r.start, 0, 0⟩ ls = some p)
    (hwell : Every pairStep (jointGuard WellBehaved WellBehaved) ⟨l.start, r.start, 0, 0⟩ ls)
    (hl : p.left.Alive) (hr : p.right.Alive) :
    ∃ more q, exec pairStep p more = some q ∧
      Every pairStep (jointGuard Quietly Quietly) p more ∧
      Completes (l.fromKernel (lefts ls)) ((lefts ls).flatMap Label.clientDatagrams) q.right ∧
      Completes (r.fromKernel (rights ls)) ((rights ls).flatMap Label.clientDatagrams) q.left := by
  obtain ⟨⟨hrunL, hrunR⟩, ⟨hwellL, hwellR⟩, -, -⟩ := pair_parts l r hrun hwell
  have hproj := projects hrun
  obtain ⟨more, q, ⟨hmore, hquiet⟩, hright, hleft⟩ := pair_settles hl hr
    ⟨_, l.relays hrunL hwellL⟩ ⟨_, r.relays hrunR hwellR⟩ hproj.rightward_le hproj.leftward_le
  refine ⟨more, q, hmore, hquiet, ?_⟩
  have hall : exec pairStep ⟨l.start, r.start, 0, 0⟩ (ls ++ more) = some q := by
    rw [exec_append, hrun]
    exact hmore
  have hwellAll : Every pairStep (jointGuard WellBehaved WellBehaved) ⟨l.start, r.start, 0, 0⟩
      (ls ++ more) := by
    refine (every_append _ _ _ _ _).mpr ⟨hwell, fun t ht => ?_⟩
    cases hrun.symm.trans ht
    refine every_imp (fun _ => True) (fun _ _ _ _ _ _ => trivial) (fun s k _ hk => ?_) trivial
      hquiet
    cases k with
    | inl k => exact hk.1
    | inr k => exact hk.1
  obtain ⟨⟨hallL, hallR⟩, ⟨hwellL', hwellR'⟩, hbytesR, hbytesL⟩ := pair_parts l r hall hwellAll
  obtain ⟨hdeliversR, hdeliversL⟩ :=
    delivers_of_runs l r hallL hallR hwellL' hwellR' hbytesR hbytesL
  obtain ⟨hquietL, hquietR⟩ := every_parts hmore hquiet
  rw [lefts_append] at hallL hdeliversR
  rw [rights_append] at hallR hdeliversL
  obtain ⟨hkernelL, hclientsL⟩ := l.same_inputs hrunL hallL hquietL
  obtain ⟨hkernelR, hclientsR⟩ := r.same_inputs hrunR hallR hquietR
  rw [hkernelL, hclientsL] at hdeliversR
  rw [hkernelR, hclientsR] at hdeliversL
  obtain ⟨houtR, hcastR⟩ := hdeliversR.drained hright
  obtain ⟨houtL, hcastL⟩ := hdeliversL.drained hleft
  exact ⟨⟨houtR, hcastR⟩, ⟨houtL, hcastL⟩⟩

/-- The messages of the speaker are on the line, and the far bridge has not begun. -/
def spoken : List (Label ⊕ Label) := speaker.map .inl

theorem pair_never_stuck_exchange : ∃ p more q,
    exec pairStep ⟨freshEnd.start, freshEnd.start, 0, 0⟩ spoken = some p ∧
    exec pairStep p more = some q ∧ q.right.linuxEndpoint.wire = buildWire note ∧
    Interleaving [] [hail] q.right.clientOut := by
  have hout : (exec pairStep ⟨freshEnd.start, freshEnd.start, 0, 0⟩ spoken).map
      (fun p => decide (p.left.running = true ∧ p.left.phase = .loop ∧ p.right.running = true ∧
        p.right.phase = .loop)) = some true := by
    decide +kernel
  have hwell : Every pairStep (jointGuard WellBehaved WellBehaved)
      ⟨freshEnd.start, freshEnd.start, 0, 0⟩ spoken := by
    decide +kernel
  obtain ⟨p, hrun, hp⟩ := Option.map_eq_some_iff.mp hout
  obtain ⟨hrunning, hloop, hrunning', hloop'⟩ := of_decide_eq_true hp
  obtain ⟨more, q, hmore, -, hcompletes, -⟩ := pair_never_stuck freshEnd freshEnd _ p hrun hwell
    ⟨hrunning, Or.inl hloop, by rw [hloop]; nofun⟩ ⟨hrunning', Or.inl hloop', by rw [hloop']; nofun⟩
  refine ⟨p, more, q, hrun, hmore, hcompletes.kernel.trans (by decide +kernel), ?_⟩
  have hkernel : (freshEnd.fromKernel (lefts spoken)).filter isBroadcast = [] := by
    decide +kernel
  have hclients : ((lefts spoken).flatMap Label.clientDatagrams).filter isBroadcast = [hail] := by
    decide +kernel
  have hcast := hcompletes.client
  rw [hkernel, hclients] at hcast
  exact hcast

end MctpSerial.MctpBridge
