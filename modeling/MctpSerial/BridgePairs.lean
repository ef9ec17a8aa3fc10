import MctpSerial.BridgeRelay
import MctpSerial.JoinedMachines

/-!
# Two bridges on one serial line

The serial sides of two bridges are joined by a lossless line. Whatever the order in which
the threads of both bridges, their kernels and their clients move and the bytes arrive, the
messages that one bridge puts on the line come out at the other one in that order, each once:
a unicast as a frame for the kernel, a broadcast as a datagram for the client.
-/
namespace MctpSerial.MctpBridge
open MctpFramer StreamTransducers GuardedRuns JoinedMachines

/-- The bytes on the serial side only grow. -/
theorem wire_grows (s : MctpBridge) (l : Label) (t : MctpBridge) (h : s.step l = some t) :
    s.mctpSerial.wire <+: t.mctpSerial.wire := by
  have htransmit {p port : Port} {msg : Packet} {os : List WriteOutcome}
      (hsend : p.transmit msg os = some port) : p.wire <+: port.wire := by
    obtain ⟨-, rfl⟩ := Port.transmit_spec hsend
    exact List.prefix_append _ _
  have hreceive {p source : Port} {r : Port.ReadResult} {msg : Packet}
      (hread : p.receive r = some (msg, source)) : p.wire <+: source.wire := by
    cases r with
    | failed =>
      cases hread
      exact List.prefix_rfl
    | packet =>
      obtain ⟨rest, -, rfl⟩ := Port.receive_packet hread rfl
      exact List.prefix_rfl
  cases moves_of_step h with
  | bcastRelayed ready beyond os d rest port hp hr hq hconn hd hdest hsend => exact htransmit hsend
  | linuxRelayed ready r os msg source port hp hr hread hsend => exact htransmit hsend
  | ttyNothing ready r beyond ok os source hp hr hread => exact hreceive hread
  | ttyDropped ready r beyond ok os msg source hp hr hread hmsg hdest hdrop => exact hreceive hread
  | ttyKilled ready r beyond ok os msg source hp hr hread hmsg hdest hconn hpeer =>
    exact hreceive hread
  | ttySent ready r beyond os msg source hp hr hread hmsg hdest hconn hpeer => exact hreceive hread
  | ttyRelayed ready r beyond ok os msg source port hp hr hread hmsg hdest hsend =>
    exact hreceive hread
  | _ => exact List.prefix_rfl

/-- The serial side. -/
def serialPort : Ported MctpBridge Label Byte Byte where
  step := step
  out s := s.mctpSerial.wire
  input _ l := l.serialBytes
  grows := wire_grows

/-- Two bridges joined at their serial sides. -/
abbrev pairStep : Joint MctpBridge MctpBridge → Label ⊕ Label →
    Option (Joint MctpBridge MctpBridge) :=
  jointStep serialPort serialPort

/-- From one bridge to the other: `relayed` is on the line, merged from what was taken of
`kernelIn` and of `clientsIn`; `n` messages of it have arrived and `j` were served. -/
structure Conveys (kernelIn clientsIn : List Packet) (sender receiver : MctpBridge) (arrived : ℕ)
    (i k n j : ℕ) (relayed : List Packet) : Prop where
  served_le : j ≤ n
  merged : Interleaving (kernelIn.take i) ((clientsIn.take k).filter isBroadcast) relayed
  kernel_queue : sender.linuxEndpoint.packets = kernelIn.drop i
  client_queue : sender.client.datagrams = clientsIn.drop k
  to_kernel : receiver.linuxEndpoint.wire =
    ((relayed.take j).filter fun p => !isBroadcast p).flatMap buildWire
  to_client : receiver.clientOut = (relayed.take j).filter isBroadcast
  queue : receiver.mctpSerial.packets = (relayed.take n).drop j
  drained : arrived = sender.mctpSerial.wire.length → n = relayed.length

/-- Nothing is left at the sender, on the line or at the receiver. -/
def Drained (sender receiver : MctpBridge) (arrived : ℕ) : Prop :=
  sender.linuxEndpoint.packets = [] ∧ sender.client.datagrams = [] ∧
    arrived = sender.mctpSerial.wire.length ∧ receiver.mctpSerial.packets = []

theorem sendable_of_wellBehaved {s u : MctpBridge} {ls : List Label}
    (hrun : exec step s ls = some u) (h : Every step WellBehaved s ls) :
    ∀ d ∈ ls.flatMap Label.clientDatagrams, Sendable d := by
  induction ls generalizing s with
  | nil =>
    intro d hd
    cases hd
  | cons l ls ih =>
    obtain ⟨t, hstep, hrun⟩ := Option.bind_eq_some_iff.mp hrun
    intro d hd
    rw [List.flatMap_cons, List.mem_append] at hd
    rcases hd with hd | hd
    · cases l with
      | clientSend x =>
        obtain rfl := List.mem_singleton.mp hd
        exact h.1
      | accept r c =>
        cases r with
        | client fd => exact h.1.2 d hd
        | _ => cases hd
      | _ => cases hd
    · exact ih hrun (h.2 t hstep) d hd

section Direction

variable {serialRx serialRx' linuxRx' : Rx} {noise serialIn linuxIn linuxIn' : List Byte}
variable {clientsIn clientsIn' : List Packet} {sender receiver : MctpBridge} {arrived : ℕ}
variable {fromSerial fromLinux fromClient toSerial : List Packet}
variable {fromSerial' fromLinux' fromClient' toSerial' : List Packet}

/-- Everything that a bridge puts on the line has a legal length. -/
theorem Accounts.sendable
    (h : Accounts serialRx (run updateRxFSM Rx.init noise) serialIn linuxIn clientsIn sender
      fromSerial fromLinux fromClient toSerial)
    (hclients : ∀ d ∈ clientsIn, Sendable d) : ∀ msg ∈ toSerial, Sendable msg := by
  intro msg hmsg
  rcases h.merged.mem hmsg with hlinux | hclient
  · have hfrom : msg ∈ delivered (run updateRxFSM Rx.init noise) linuxIn := by
      rw [h.linux_taken]
      exact List.mem_append_left _ hlinux
    exact sendable_of_delivered hfrom
  · refine hclients msg ?_
    rw [h.client_taken]
    exact List.mem_append_left _ (List.mem_of_mem_filter hclient)

/-- The messages whose frames have arrived are the first ones sent. -/
theorem delivered_take_prefix {s : Rx} (hs : s.InStep) {wire : List Byte} {ms : List Packet}
    (hwire : wire = ms.flatMap buildWire) (hms : ∀ m ∈ ms, Sendable m) (n : ℕ) :
    delivered s (wire.take n) <+: ms := by
  have hall : delivered s wire = ms := by
    rw [hwire]
    exact buildWires_run hs ms hms
  rw [← hall]
  nth_rewrite 2 [← List.take_append_drop n wire]
  rw [delivered, delivered, emitted_append]
  exact List.prefix_append _ _

/-- The accounts of both bridges, and the line between them. -/
theorem Accounts.conveys
    (h : Accounts serialRx (run updateRxFSM Rx.init noise) serialIn linuxIn clientsIn sender
      fromSerial fromLinux fromClient toSerial)
    (h' : Accounts serialRx' linuxRx' (sender.mctpSerial.wire.take arrived) linuxIn' clientsIn'
      receiver fromSerial' fromLinux' fromClient' toSerial')
    (hstep : serialRx'.InStep) (hclients : ∀ d ∈ clientsIn, Sendable d) :
    ∃ i k n j relayed, Conveys (delivered (run updateRxFSM Rx.init noise) linuxIn) clientsIn
      sender receiver arrived i k n j relayed := by
  have hline : delivered serialRx' sender.mctpSerial.wire = toSerial := by
    rw [h.to_serial]
    exact buildWires_run hstep toSerial (h.sendable hclients)
  have hpart := delivered_take_prefix hstep h.to_serial (h.sendable hclients) arrived
  have hcame := List.prefix_iff_eq_take.mp hpart
  have htaken := h'.serial_taken
  refine ⟨fromLinux.length, fromClient.length,
    (delivered serialRx' (sender.mctpSerial.wire.take arrived)).length, fromSerial'.length,
    toSerial, ?_⟩
  have hserved : toSerial.take fromSerial'.length = fromSerial' := by
    have hpre : fromSerial' <+: toSerial :=
      (htaken ▸ List.prefix_append _ _ : fromSerial' <+: _).trans hpart
    exact (List.prefix_iff_eq_take.mp hpre).symm
  refine ⟨?_, ?_, ?_, ?_, ?_, ?_, ?_, fun hall => ?_⟩
  · rw [htaken, List.length_append]
    exact Nat.le_add_right _ _
  · rw [h.linux_taken, h.client_taken, List.take_left, List.take_left]
    exact h.merged
  · rw [h.linux_taken, List.drop_left]
  · rw [h.client_taken, List.drop_left]
  · rw [hserved]
    exact h'.to_linux
  · rw [hserved]
    exact h'.to_client
  · rw [← hcame, htaken, List.drop_left]
  · rw [hall, List.take_length, hline]

end Direction

/-- Once everything is drained, the kernel at the far end has got a frame for every unicast
that the near kernel sent, and the far client every broadcast of the near kernel and the near
clients, each source in its order. -/
theorem Conveys.all {kernelIn clientsIn : List Packet} {sender receiver : MctpBridge}
    {arrived i k n j : ℕ} {relayed : List Packet}
    (h : Conveys kernelIn clientsIn sender receiver arrived i k n j relayed)
    (hdrained : Drained sender receiver arrived) :
    receiver.linuxEndpoint.wire =
        (kernelIn.filter fun p => !isBroadcast p).flatMap buildWire ∧
      Interleaving (kernelIn.filter isBroadcast) (clientsIn.filter isBroadcast)
        receiver.clientOut := by
  obtain ⟨hkernel, hclient, harrived, hqueue⟩ := hdrained
  have hn := h.drained harrived
  have hrest : relayed.drop j = [] := by
    have hq := h.queue
    rw [hqueue, hn, List.take_length] at hq
    exact hq.symm
  have hserved : relayed.take j = relayed :=
    List.take_of_length_le (List.drop_eq_nil_iff.mp hrest)
  have hmerged := h.merged
  rw [List.take_of_length_le (List.drop_eq_nil_iff.mp (h.kernel_queue.symm.trans hkernel)),
    List.take_of_length_le (List.drop_eq_nil_iff.mp (h.client_queue.symm.trans hclient))] at hmerged
  constructor
  · have hunicasts := (hmerged.filter fun p => !isBroadcast p).eq_left (by simp)
    rw [h.to_kernel, hserved, hunicasts]
  · have hbroadcasts := hmerged.filter isBroadcast
    rw [h.to_client, hserved]
    simpa using hbroadcasts

/-- One end of the line as it is when its dispatch thread starts. The receive state of a
framer comes from earlier sessions; on the serial side a flag has to start a frame. -/
structure End where
  serialRx : Rx
  noise : List Byte
  messenger : BcastMessenger
  path : String
  fd : ℕ
  inStep : serialRx.InStep

def End.linuxRx (e : End) : Rx := run updateRxFSM Rx.init e.noise

def End.start (e : End) : MctpBridge :=
  MctpBridge.start e.serialRx e.linuxRx e.messenger e.path e.fd

/-- What the kernel of a bridge has sent to it. -/
def End.fromKernel (e : End) (ls : List Label) : List Packet :=
  delivered e.linuxRx (ls.flatMap Label.linuxBytes)

/-- What comes out at the far end: at any time the first of what is on the line, and all that
was sent once nothing is under way. -/
structure Delivers (kernelIn clientsIn : List Packet) (sender receiver : MctpBridge)
    (arrived : ℕ) : Prop where
  always : ∃ i k n j relayed, Conveys kernelIn clientsIn sender receiver arrived i k n j relayed
  drained : Drained sender receiver arrived →
    receiver.linuxEndpoint.wire =
        (kernelIn.filter fun p => !isBroadcast p).flatMap buildWire ∧
      Interleaving (kernelIn.filter isBroadcast) (clientsIn.filter isBroadcast)
        receiver.clientOut

theorem Delivers.of_conveys {kernelIn clientsIn : List Packet} {sender receiver : MctpBridge}
    {arrived : ℕ}
    (h : ∃ i k n j relayed, Conveys kernelIn clientsIn sender receiver arrived i k n j relayed) :
    Delivers kernelIn clientsIn sender receiver arrived := by
  refine ⟨h, fun hdrained => ?_⟩
  obtain ⟨i, k, n, j, relayed, hconveys⟩ := h
  exact hconveys.all hdrained

/-- Two bridges that have taken no more from the serial side than the beginning of what the
other one has written. -/
theorem delivers_of_runs (l r : End) {ls ls' : List Label} {s t : MctpBridge} {n m : ℕ}
    (hl : exec step l.start ls = some s) (hr : exec step r.start ls' = some t)
    (hwell : Every step WellBehaved l.start ls) (hwell' : Every step WellBehaved r.start ls')
    (hright : ls'.flatMap Label.serialBytes = s.mctpSerial.wire.take n)
    (hleft : ls.flatMap Label.serialBytes = t.mctpSerial.wire.take m) :
    Delivers (l.fromKernel ls) (ls.flatMap Label.clientDatagrams) s t n ∧
      Delivers (r.fromKernel ls') (ls'.flatMap Label.clientDatagrams) t s m := by
  have hclients := sendable_of_wellBehaved hl hwell
  have hclients' := sendable_of_wellBehaved hr hwell'
  obtain ⟨fromSerial, fromLinux, fromClient, toSerial, h⟩ :=
    guarded_invariant (Relays l.serialRx l.linuxRx) (relays_start l.messenger l.path l.fd)
      (fun _ _ _ _ h hG hstep => relays_step h hG hstep) hl hwell
  obtain ⟨fromSerial', fromLinux', fromClient', toSerial', h'⟩ :=
    guarded_invariant (Relays r.serialRx r.linuxRx) (relays_start r.messenger r.path r.fd)
      (fun _ _ _ _ h hG hstep => relays_step h hG hstep) hr hwell'
  constructor
  · have hfar := h'
    rw [hright] at hfar
    exact .of_conveys (h.conveys hfar r.inStep hclients)
  · have hfar := h
    rw [hleft] at hfar
    exact .of_conveys (h'.conveys hfar l.inStep hclients')

/-- A well-behaved run of both is one of each, and each has taken from the line the beginning
of what the other one has written. -/
theorem pair_parts (l r : End) {ls : List (Label ⊕ Label)} {p : Joint MctpBridge MctpBridge}
    (hrun : exec pairStep ⟨l.start, r.start, 0, 0⟩ ls = some p)
    (hwell : Every pairStep (jointGuard WellBehaved WellBehaved) ⟨l.start, r.start, 0, 0⟩ ls) :
    (exec step l.start (lefts ls) = some p.left ∧ exec step r.start (rights ls) = some p.right) ∧
      (Every step WellBehaved l.start (lefts ls) ∧ Every step WellBehaved r.start (rights ls)) ∧
      (rights ls).flatMap Label.serialBytes = p.left.mctpSerial.wire.take p.rightward ∧
      (lefts ls).flatMap Label.serialBytes = p.right.mctpSerial.wire.take p.leftward := by
  have hproj := projects hrun
  refine ⟨⟨hproj.left, hproj.right⟩, every_parts hrun hwell, ?_, ?_⟩
  · exact (serialPort.consumed_eq_flatMap (fun _ _ => rfl) hproj.right).symm.trans hproj.to_right
  · exact (serialPort.consumed_eq_flatMap (fun _ _ => rfl) hproj.left).symm.trans hproj.to_left

/-- End to end, in both directions and in every state of every well-behaved run, nothing is
lost, doubled, reordered or made up between two bridges, and what went in has come out once
nothing is under way. -/
theorem pair_delivers (l r : End) (ls : List (Label ⊕ Label)) (p : Joint MctpBridge MctpBridge)
    (hrun : exec pairStep ⟨l.start, r.start, 0, 0⟩ ls = some p)
    (hwell : Every pairStep (jointGuard WellBehaved WellBehaved) ⟨l.start, r.start, 0, 0⟩ ls) :
    Delivers (l.fromKernel (lefts ls)) ((lefts ls).flatMap Label.clientDatagrams)
        p.left p.right p.rightward ∧
      Delivers (r.fromKernel (rights ls)) ((rights ls).flatMap Label.clientDatagrams)
        p.right p.left p.leftward := by
  obtain ⟨⟨hrunL, hrunR⟩, ⟨hwellL, hwellR⟩, hright, hleft⟩ := pair_parts l r hrun hwell
  exact delivers_of_runs l r hrunL hrunR hwellL hwellR hright hleft

/-- A message to endpoint 9. -/
def note : Packet := [1, 9, 8, 0x7E, 7]

/-- An end that has never been used. -/
def freshEnd : End := ⟨.init, [], .init, "bcast", 3, Or.inl rfl⟩

/-- A note of the kernel and a broadcast of the client are sent in one iteration. -/
def speaker : List Label :=
  (buildWire note).map (Label.linuxByte · true) ++
    [.accept (.client 7) ⟨[hail], true⟩, .wait true (some ⟨true, true, false⟩),
      .serveBcast .datagram 0 [.accepted 12], .serveLinux .packet [.accepted 12],
      .serveTty .failed 0 true []]

/-- The bytes of both arrive and are served in two iterations. -/
def listener : List Label :=
  (buildWire hail ++ buildWire note).map (Label.serialByte · true) ++
    [.accept (.client 7) ⟨[], true⟩, .wait true (some ⟨false, false, true⟩),
      .serveBcast .wouldBlock 0 [], .serveLinux .failed [], .serveTty .packet 0 true [],
      .check, .wait true (some ⟨false, false, true⟩), .serveBcast .wouldBlock 0 [],
      .serveLinux .failed [], .serveTty .packet 0 true [.accepted 12]]

def exchange : List (Label ⊕ Label) := speaker.map .inl ++ listener.map .inr

theorem pair_delivers_exchange : ∃ p,
    exec pairStep ⟨freshEnd.start, freshEnd.start, 0, 0⟩ exchange = some p ∧
    p.right.linuxEndpoint.wire = buildWire note ∧ p.right.clientOut = [hail] ∧
    Delivers (freshEnd.fromKernel (lefts exchange))
      ((lefts exchange).flatMap Label.clientDatagrams) p.left p.right p.rightward := by
  have hout : (exec pairStep ⟨freshEnd.start, freshEnd.start, 0, 0⟩ exchange).map
      (fun p => (p.right.linuxEndpoint.wire, p.right.clientOut)) =
        some (buildWire note, [hail]) := by
    decide +kernel
  have hwell : Every pairStep (jointGuard WellBehaved WellBehaved)
      ⟨freshEnd.start, freshEnd.start, 0, 0⟩ exchange := by
    decide +kernel
  obtain ⟨p, hrun, hp⟩ := Option.map_eq_some_iff.mp hout
  have hends := pair_delivers freshEnd freshEnd exchange p hrun hwell
  exact ⟨p, hrun, congrArg Prod.fst hp, congrArg Prod.snd hp, hends.1⟩

end MctpSerial.MctpBridge
