import MctpSerial.BridgeObject

/-!
# Descriptors of the whole bridge

The main thread calls `open` and `close` in any order and is cut at the boundaries of the
parts of `open`; the worker of the forwarder and the dispatch thread move in between. The
books of all descriptors agree with the fields at every point, and when the bridge is neither
running nor being opened nothing is open. The only closes that miss are those that `close`
of the messenger repeats.
-/
namespace MctpSerial.MctpBridge
open MctpFramer DescriptorLedgers ManagedUsbTty LinuxMctpSerial GuardedRuns

/-- A step of the main thread, of the worker, or of the dispatch thread. -/
inductive Move where
  | openBegins (ttyPath : String) (useIdPathTag : Bool) (cs : CloseCalls)
      (usb : Forwarder.OpenCalls) (again : CloseCalls)
  | initEndpoint (localEid : Byte) (peerEids : List Byte) (os : SetupCalls) (again : CloseCalls)
  | openBroadcast (os : BcastMessenger.SetupCalls) (again : CloseCalls)
  | openTty (os : TtyCalls) (again : CloseCalls)
  | startDispatch (thread : Bool)
  | close (cs : CloseCalls)
  | destroy (cs again : CloseCalls)
  | workerBegins (udev epoll : Option ℕ)
  | workerEvent (fd : ℤ) (io : EventCalls)
  | workerWaitFails
  | accept (r : BcastMessenger.AcceptResult)
  | recv (r : BcastMessenger.RecvResult)

/-- The bridge, the place of the main thread, and what has been written down: the books, and
the entries that have closed what nobody held. -/
structure Life where
  object : Object
  stage : Stage
  ledger : Ledger ℤ Origin
  strays : List Entry
  destroyed : Bool

namespace Life

def start : Life := ⟨.init, .idle, .empty, [], false⟩

/-- The object, the stage and the entries after a step that is possible. The dispatch loop
accepts only while no client is connected. -/
def result (s : Life) : Move → Option (Object × Stage × List Entry)
  | .openBegins ttyPath useIdPathTag cs usb again =>
    if s.stage = .idle then some (openBegins s.object ttyPath useIdPathTag cs usb again) else none
  | .initEndpoint localEid peerEids os again =>
    match s.stage with
    | .endpoint slaveDup => some (initEndpoint s.object slaveDup localEid peerEids os again)
    | _ => none
  | .openBroadcast os again =>
    match s.stage with
    | .broadcast slaveDup => some (openBroadcast s.object slaveDup os again)
    | _ => none
  | .openTty os again =>
    match s.stage with
    | .tty slaveDup => some (openTty s.object slaveDup os again)
    | _ => none
  | .startDispatch thread =>
    if s.stage = .dispatch then some (startDispatch s.object thread, .idle, []) else none
  | .close cs =>
    if s.stage = .idle then
      let (b, log) := s.object.close cs
      some (b, .idle, log)
    else none
  | .destroy cs again =>
    if s.stage = .idle then
      let (b, log) := destroy s.object cs again
      some (b, .idle, log)
    else none
  | .workerBegins udev epoll =>
    match s.object.managedUsb with
    | some f =>
      if f.tty.worker && !f.begun then
        let (f, es) := f.begin udev epoll
        some ({ s.object with managedUsb := some f }, s.stage, entries es)
      else none
    | none => none
  | .workerEvent fd io =>
    match s.object.managedUsb with
    | some f =>
      if f.tty.worker && f.begun then
        (f.tty.handleEvent fd io).map fun tty =>
          ({ s.object with managedUsb := some { f with tty := tty } }, s.stage,
            entries (f.tty.eventLog fd io))
      else none
    | none => none
  | .workerWaitFails =>
    match s.object.managedUsb with
    | some f =>
      if f.tty.worker && f.begun then
        let (f, es) := f.waitFails
        some ({ s.object with managedUsb := some f }, s.stage, entries es)
      else none
    | none => none
  | .accept r =>
    if s.object.dispatching && !s.object.bcast.isConnected then
      let (bcast, calls, _) := s.object.bcast.acceptConnection r
      some ({ s.object with bcast := bcast, connStale := false }, s.stage,
        entries (sysCallEvents calls))
    else none
  | .recv r =>
    if s.object.dispatching then
      let (bcast, calls, _) := s.object.bcast.recvMessage r
      some ({ s.object with bcast := bcast }, s.stage, entries (sysCallEvents calls))
    else none

/-- A step, on a system that hands out no number that is held. -/
def step (s : Life) (m : Move) : Option Life :=
  if s.destroyed then none
  else
    (s.result m).bind fun (b, stage, log) =>
      if s.ledger.Fresh (log.map Entry.event) then
        some ⟨b, stage, s.ledger.postAll (log.map Entry.event),
          s.strays ++ Ledger.misses Entry.event s.ledger log,
          match m with | .destroy _ _ => true | _ => false⟩
      else none

/-- What holds of the object and the stage after each part of a call, and is left alone by the
other threads, holds after every move. -/
theorem result_keeps {P : Object → Stage → Prop} {s : Life} {m : Move}
    {r : Object × Stage × List Entry} (hr : s.result m = some r)
    (hopen : ∀ ttyPath useIdPathTag cs usb again, s.stage = .idle →
      P (openBegins s.object ttyPath useIdPathTag cs usb again).1
        (openBegins s.object ttyPath useIdPathTag cs usb again).2.1)
    (hinit : ∀ slaveDup localEid peerEids os again,
      m = .initEndpoint localEid peerEids os again → s.stage = .endpoint slaveDup →
      P (initEndpoint s.object slaveDup localEid peerEids os again).1
        (initEndpoint s.object slaveDup localEid peerEids os again).2.1)
    (hbroadcast : ∀ slaveDup os again, s.stage = .broadcast slaveDup →
      P (openBroadcast s.object slaveDup os again).1
        (openBroadcast s.object slaveDup os again).2.1)
    (htty : ∀ slaveDup os again, m = .openTty os again → s.stage = .tty slaveDup →
      P (openTty s.object slaveDup os again).1 (openTty s.object slaveDup os again).2.1)
    (hstart : ∀ thread, s.stage = .dispatch → P (startDispatch s.object thread) .idle)
    (hclose : ∀ cs, P (s.object.close cs).1 .idle)
    (hdestroy : ∀ cs again, P (MctpBridge.destroy s.object cs again).1 .idle)
    (hothers : ∀ bcast connStale managedUsb, P { s.object with
      bcast := bcast, connStale := connStale, managedUsb := managedUsb } s.stage) :
    P r.1 r.2.1 := by
  cases m with
  | openBegins ttyPath useIdPathTag cs usb again =>
    rw [result, Option.ite_none_right_eq_some] at hr
    obtain ⟨hstage, hr⟩ := hr
    cases hr
    exact hopen ttyPath useIdPathTag cs usb again hstage
  | initEndpoint localEid peerEids os again =>
    rw [result] at hr
    split at hr
    next slaveDup hstage =>
      cases hr
      exact hinit slaveDup localEid peerEids os again rfl hstage
    next => cases hr
  | openBroadcast os again =>
    rw [result] at hr
    split at hr
    next slaveDup hstage =>
      cases hr
      exact hbroadcast slaveDup os again hstage
    next => cases hr
  | openTty os again =>
    rw [result] at hr
    split at hr
    next slaveDup hstage =>
      cases hr
      exact htty slaveDup os again rfl hstage
    next => cases hr
  | startDispatch thread =>
    rw [result, Option.ite_none_right_eq_some] at hr
    obtain ⟨hstage, hr⟩ := hr
    cases hr
    exact hstart thread hstage
  | close cs =>
    rw [result, Option.ite_none_right_eq_some] at hr
    obtain ⟨-, hr⟩ := hr
    cases hr
    exact hclose cs
  | destroy cs again =>
    rw [result, Option.ite_none_right_eq_some] at hr
    obtain ⟨-, hr⟩ := hr
    cases hr
    exact hdestroy cs again
  | workerBegins udev epoll =>
    rw [result] at hr
    split at hr
    next f hf =>
      rw [Option.ite_none_right_eq_some] at hr
      obtain ⟨-, hr⟩ := hr
      cases hr
      exact hothers s.object.bcast s.object.connStale _
    next => cases hr
  | workerEvent fd io =>
    rw [result] at hr
    split at hr
    next f hf =>
      rw [Option.ite_none_right_eq_some] at hr
      obtain ⟨tty, -, rfl⟩ := Option.map_eq_some_iff.mp hr.2
      exact hothers s.object.bcast s.object.connStale _
    next => cases hr
  | workerWaitFails =>
    rw [result] at hr
    split at hr
    next f hf =>
      rw [Option.ite_none_right_eq_some] at hr
      obtain ⟨-, hr⟩ := hr
      cases hr
      exact hothers s.object.bcast s.object.connStale _
    next => cases hr
  | accept r =>
    rw [result, Option.ite_none_right_eq_some] at hr
    obtain ⟨-, hr⟩ := hr
    cases hr
    exact hothers _ false s.object.managedUsb
  | recv r =>
    rw [result, Option.ite_none_right_eq_some] at hr
    obtain ⟨-, hr⟩ := hr
    cases hr
    exact hothers _ s.object.connStale s.object.managedUsb

/-- A step leaves the object and the stage of its result. -/
theorem result_of_step {s t : Life} {m : Move} (h : s.step m = some t) :
    ∃ r, s.result m = some r ∧ t.object = r.1 ∧ t.stage = r.2.1 := by
  unfold step at h
  split at h
  next => cases h
  next =>
    obtain ⟨⟨b, stage, log⟩, hr, h⟩ := Option.bind_eq_some_iff.mp h
    dsimp only at h
    split at h
    next =>
      cases h
      exact ⟨_, hr, rfl, rfl⟩
    next => cases h

/-- A device is attached only while none is, and the framer's thread can be created. -/
def Tidy (s : Life) : Move → Prop
  | .workerEvent fd io => ∀ f ∈ s.object.managedUsb, Undisturbed f.tty (.event fd io)
  | .openTty os _ => os.thread = true
  | _ => True

/-- What is open according to the fields and the local variable of `open`. -/
def descriptors (s : Life) : Multiset (ℤ × Origin) := s.object.descriptors + s.stage.descriptors

end Life

/-! ## The books of a step -/

/-- The log leads from what was held to what is, and all that it closes beside is closed by
the messenger. -/
def Settles (xs : Multiset (ℤ × Origin)) (log : List Entry) (ys : Multiset (ℤ × Origin)) : Prop :=
  ∀ L : Ledger ℤ Origin, L.Holds xs → L.Fresh (log.map Entry.event) →
    (L.postAll (log.map Entry.event)).Holds ys ∧
      ∀ e ∈ Ledger.misses Entry.event L log, e.byMessenger = true

section Books

variable {xs ys zs : Multiset (ℤ × Origin)} {log log' : List Entry}

theorem events_entries (es : List (Event ℤ Origin)) : (entries es).map Entry.event = es := by
  simp [entries, Function.comp_def]

theorem Settles.of_turns {es : List (Event ℤ Origin)} (h : Turns xs es ys) :
    Settles xs (entries es) ys := by
  intro L hholds hfresh
  rw [events_entries] at hfresh
  obtain ⟨hholds', hstrays⟩ := h.holds hholds hfresh
  have hnone : Ledger.misses Entry.event L (entries es) = [] :=
    Ledger.misses_eq_nil (by rw [events_entries, hstrays])
  rw [events_entries, hnone]
  exact ⟨hholds', List.forall_mem_nil _⟩

theorem Settles.trans (h : Settles xs log ys) (h' : Settles ys log' zs) :
    Settles xs (log ++ log') zs := by
  intro L hholds hfresh
  rw [List.map_append] at hfresh ⊢
  rw [Ledger.fresh_append] at hfresh
  obtain ⟨hmid, hmisses⟩ := h L hholds hfresh.1
  obtain ⟨hend, hmisses'⟩ := h' _ hmid hfresh.2
  rw [Ledger.postAll_append, Ledger.misses_append]
  exact ⟨hend, List.forall_mem_append.mpr ⟨hmisses, hmisses'⟩⟩

theorem Settles.nil (xs : Multiset (ℤ × Origin)) : Settles xs [] xs :=
  fun _ hholds _ => ⟨hholds, List.forall_mem_nil _⟩

theorem Settles.of_eq (h : Settles xs log ys) {xs' ys' : Multiset (ℤ × Origin)} (hx : xs = xs')
    (hy : ys = ys') : Settles xs' log ys' := by
  rw [← hx, ← hy]
  exact h

/-- The close of a field that is set, whether it is held or not. -/
theorem holds_closing (fd : ℤ) (hxs : ∀ p ∈ xs, p.1 = fd → 0 ≤ fd) {L : Ledger ℤ Origin}
    (hholds : L.Holds xs) : ∃ ys, (L.postAll (closing fd)).Holds ys ∧
      ∀ p, p ∈ ys ↔ p ∈ xs ∧ p.1 ≠ fd := by
  rw [closing]
  split
  next => exact hholds.close_any fd
  next hneg =>
    exact ⟨xs, hholds, fun p => (and_iff_left_of_imp fun hp heq => hneg (hxs p hp heq)).symm⟩

end Books

section Parts

variable {b : Object}

theorem sysCallEvents_close (m : BcastMessenger) :
    sysCallEvents m.close.2 = closing m.connFd ++ closing m.listenFd := by
  simp only [BcastMessenger.close, sysCallEvents, closing]
  split <;> split <;> rfl

theorem mem_named {fd : ℤ} {t : Origin} {p : ℤ × Origin} (h : p ∈ named fd t) :
    p.1 = fd ∧ 0 ≤ fd := by
  unfold named at h
  split at h
  next h0 =>
    rw [Multiset.mem_singleton.mp h]
    exact ⟨rfl, h0⟩
  next => exact absurd h (Multiset.notMem_zero p)

theorem mem_sockets {p : ℤ × Origin} (h : p ∈ b.sockets) :
    (p.1 = b.bcast.connFd ∧ 0 ≤ b.bcast.connFd) ∨
      (p.1 = b.bcast.listenFd ∧ 0 ≤ b.bcast.listenFd) := by
  rcases Multiset.mem_add.mp h with h | h
  · split at h
    next => exact absurd h (Multiset.notMem_zero p)
    next => exact Or.inl (mem_named h)
  · split at h
    next => exact absurd h (Multiset.notMem_zero p)
    next => exact Or.inr (mem_named h)

/-- The messenger closes its sockets, and once more those that it has closed before. -/
theorem closeBroadcast_settles (b : Object) :
    Settles b.sockets (closeBroadcast b).2 0 ∧ (closeBroadcast b).1.sockets = 0 := by
  refine ⟨fun L hholds _ => ⟨?_, fun e he => ?_⟩, rfl⟩
  · have hevents : (closeBroadcast b).2.map Entry.event =
        closing b.bcast.connFd ++ closing b.bcast.listenFd := by
      rw [← sysCallEvents_close]
      simp [closeBroadcast, Function.comp_def]
    obtain ⟨ys, hys, hmem⟩ := holds_closing b.bcast.connFd
      (fun p hp heq => (mem_sockets hp).elim And.right fun h => heq ▸ h.1 ▸ h.2) hholds
    obtain ⟨zs, hzs, hmem'⟩ := holds_closing b.bcast.listenFd
      (fun p hp heq => ((mem_sockets ((hmem p).mp hp).1).elim
        (fun h => absurd h.1 ((hmem p).mp hp).2) And.right)) hys
    have hzero : zs = 0 := by
      refine Multiset.eq_zero_of_forall_notMem fun p hp => ?_
      obtain ⟨hp', hlisten⟩ := (hmem' p).mp hp
      obtain ⟨hsock, hconn⟩ := (hmem p).mp hp'
      exact (mem_sockets hsock).elim (fun h => hconn h.1) fun h => hlisten h.1
    rw [hevents, Ledger.postAll_append, ← hzero]
    exact hzs
  · obtain ⟨ev, -, rfl⟩ := List.mem_map.mp (Ledger.mem_misses he).1
    rfl

/-- What holds of the parts at all times. -/
structure Object.Sound (b : Object) : Prop where
  endpoint : ∃ k, LinuxMctpSerial.Phase b.linuxEndpoint k
  serial : b.mctpSerial.Closable
  usb : ∀ f ∈ b.managedUsb, f.Coherent ∧ f.tty.running = true
  client : b.connStale = false → 0 ≤ b.bcast.connFd → b.bcast.state = .connected

/-- Nothing is open, and no thread is there. -/
structure Object.Down (b : Object) : Prop where
  endpoint : LinuxMctpSerial.Phase b.linuxEndpoint Link.none
  serial : b.mctpSerial.Resting
  usb : b.managedUsb = none
  ttyRawFd : b.ttyRawFd < 0
  sockets : b.sockets = 0
  running : b.running = false
  dispatching : b.dispatching = false

theorem endpoint_descriptors {e : LinuxMctpSerial} (h : LinuxMctpSerial.Phase e Link.none) :
    e.descriptors = 0 := by
  cases h with
  | down hm hs hr hf => simp [LinuxMctpSerial.descriptors, hf.descriptors, hm, hs]

theorem Object.Down.descriptors (h : b.Down) : b.descriptors = 0 := by
  rw [Object.descriptors, endpoint_descriptors h.endpoint, h.serial.descriptors, h.usb,
    named_of_neg h.ttyRawFd, h.sockets]
  rfl

theorem closeForwarder_turns {f : Forwarder} (h : f.Coherent) (late : Option ℕ) :
    Turns f.descriptors (closeForwarder f late) 0 := by
  obtain ⟨hcoherent, hstop, hturns⟩ := Forwarder.close_turns h late
  obtain ⟨-, -, hagain⟩ := Forwarder.close_turns hcoherent none
  rw [hcoherent.descriptors_of_stopped hstop] at hagain
  exact hturns.trans hagain

/-- `close` closes everything. -/
theorem Object.Sound.close (h : b.Sound) (cs : CloseCalls) :
    Settles b.descriptors (b.close cs).2 0 ∧ (b.close cs).1.Down ∧ (b.close cs).1.Sound := by
  obtain ⟨k, hphase⟩ := h.endpoint
  obtain ⟨hleads, hdown⟩ := hphase.close cs.endpoint
  have husb : Turns (b.managedUsb.elim 0 fun f => f.descriptors)
      (b.managedUsb.elim [] fun f => closeForwarder f cs.late) 0 := by
    cases hf : b.managedUsb with
    | none => exact .nil 0
    | some f => exact closeForwarder_turns (h.usb f hf).1 cs.late
  have hendpoint := hleads.turns
  rw [endpoint_descriptors hdown] at hendpoint
  have hparts := ((hendpoint.append (MctpFramer.close_turns b.mctpSerial)).append husb).append
    (.closing b.ttyRawFd .tty)
  have hfirst : Settles b.descriptors (entries ((b.linuxEndpoint.close cs.endpoint).2.flatMap
      Effect.events ++ b.mctpSerial.closeLog ++
      (b.managedUsb.elim [] fun f => closeForwarder f cs.late) ++ closing b.ttyRawFd)) b.sockets :=
    (Settles.of_turns (hparts.frame b.sockets)).of_eq rfl (zero_add _)
  obtain ⟨hmessenger, hsockets⟩ := closeBroadcast_settles { b with
    linuxEndpoint := (b.linuxEndpoint.close cs.endpoint).1
    mctpSerial := b.mctpSerial.close
    managedUsb := none
    ttyFd := -1
    ttyRawFd := if 0 ≤ b.ttyRawFd then -1 else b.ttyRawFd
    ifname := ""
    broadcastName := ""
    running := false
    dispatching := false }
  have htty : (if 0 ≤ b.ttyRawFd then -1 else b.ttyRawFd) < 0 := by
    split
    next => decide
    next hneg => exact not_le.mp hneg
  refine ⟨hfirst.trans hmessenger, ?_, ?_⟩
  · exact ⟨hdown, h.serial.close, rfl, htty, hsockets, rfl, rfl⟩
  · refine ⟨⟨_, hdown⟩, h.serial.close.closable, fun f hf => ?_, fun hcon => ?_⟩
    · cases hf
    · cases hcon

/-- The bridge while it is brought up: a forwarder is there if its slave is. -/
structure Preparing (b : Object) (slaveDup : Option ℕ) : Prop where
  sound : b.Sound
  serial : b.mctpSerial.Resting
  usb : b.managedUsb.isSome = slaveDup.isSome
  ttyRawFd : b.ttyRawFd < 0
  running : b.running = false
  dispatching : b.dispatching = false

/-- The object in each stage. -/
def Fits (b : Object) : Stage → Prop
  | .idle => b.Sound ∧ (b.running = false → b.Down) ∧
      (b.dispatching = true → b.connStale = true → b.bcast.state ≠ .connected)
  | .endpoint slaveDup => Preparing b slaveDup ∧ b.sockets = 0
  | .broadcast slaveDup => Preparing b slaveDup ∧ b.sockets = 0
  | .tty slaveDup => Preparing b slaveDup ∧ b.bcast.state ≠ .connected
  | .dispatch => b.Sound ∧ b.running = false ∧ b.dispatching = false ∧ b.bcast.state ≠ .connected

/-- A part of a call, from what is open to what is open then. -/
def Reaches (xs : Multiset (ℤ × Origin)) (r : Object × Stage × List Entry) : Prop :=
  Settles xs r.2.2 (r.1.descriptors + r.2.1.descriptors) ∧ Fits r.1 r.2.1

theorem Reaches.prepend {xs ys : Multiset (ℤ × Origin)} {log : List Entry}
    {r : Object × Stage × List Entry} (h : Settles xs log ys) (hr : Reaches ys r) :
    Reaches xs (r.1, r.2.1, log ++ r.2.2) :=
  ⟨h.trans hr.1, hr.2⟩

theorem Object.Down.fits (h : b.Down) (hsound : b.Sound) : Fits b .idle :=
  ⟨hsound, fun _ => h,
    fun hd => absurd (h.dispatching.symm.trans hd) (by decide)⟩

/-- After `close` the main thread is where it started. -/
theorem Object.Sound.close_reaches (h : b.Sound) (cs : CloseCalls) :
    Reaches b.descriptors ((b.close cs).1, .idle, (b.close cs).2) := by
  obtain ⟨hsettles, hdown, hsound⟩ := h.close cs
  refine ⟨hsettles.of_eq rfl ?_, hdown.fits hsound⟩
  rw [hdown.descriptors]
  rfl

/-- Without its forwarder a bridge is as sound as before. -/
theorem Object.Sound.dropUsb (h : b.Sound) : Object.Sound { b with managedUsb := none } :=
  ⟨h.endpoint, h.serial, (fun f hf => by cases hf), h.client⟩

/-- A failed `open` takes everything down. -/
theorem giveUp_reaches (h : b.Sound) {slaveDup : Option ℕ}
    (husb : b.managedUsb.isSome = slaveDup.isSome) (cs : CloseCalls) :
    Reaches (b.descriptors + slaveNamed slaveDup) (giveUp b slaveDup cs) := by
  cases slaveDup with
  | none =>
    have hclose := h.close_reaches cs
    exact ⟨hclose.1.of_eq (add_zero _).symm rfl, hclose.2⟩
  | some fd =>
    obtain ⟨f, hf⟩ := Option.isSome_iff_exists.mp husb
    obtain ⟨hcoherent, -⟩ := h.usb f hf
    obtain ⟨hcoherent', hstop, hturns⟩ := Forwarder.close_turns hcoherent cs.late
    obtain ⟨-, -, hagain⟩ := Forwarder.close_turns hcoherent' none
    rw [hcoherent'.descriptors_of_stopped hstop] at hagain
    have hes : Turns (f.descriptors + {((fd : ℤ), Origin.tty)})
        ((f.close cs.late).2 ++ .closed (fd : ℤ) :: ((f.close cs.late).1.close none).2) 0 := by
      have hfirst := hturns.frame {((fd : ℤ), Origin.tty)}
      refine (hfirst.of_eq rfl (zero_add _)).trans ?_
      exact (Turns.close_one (fd : ℤ) Origin.tty).trans hagain
    have hrest := h.dropUsb.close_reaches cs
    have hall := (Settles.of_turns (hes.frame
      (Object.descriptors { b with managedUsb := none }))).of_eq rfl (zero_add _)
    have hreaches := hrest.prepend hall
    simp only [giveUp, hf]
    refine ⟨hreaches.1.of_eq ?_ rfl, hreaches.2⟩
    simp only [Object.descriptors, Object.sockets, slaveNamed, hf, Option.elim_some,
      Option.elim_none, add_zero]
    abel

theorem openBegins_reaches (h : b.Sound) (ttyPath : String) (useIdPathTag : Bool)
    (cs : CloseCalls) (usb : Forwarder.OpenCalls) (again : CloseCalls) :
    Reaches b.descriptors (openBegins b ttyPath useIdPathTag cs usb again) := by
  obtain ⟨hsettles, hdown, hsound⟩ := h.close cs
  have husb : (b.close cs).1.managedUsb.isSome = (none : Option ℕ).isSome := by
    rw [hdown.usb]
    rfl
  have hprep : Preparing (b.close cs).1 none :=
    ⟨hsound, hdown.serial, husb, hdown.ttyRawFd, hdown.running, hdown.dispatching⟩
  have hinit : Forwarder.init.descriptors = 0 :=
    Forwarder.coherent_init.descriptors_of_stopped rfl
  unfold openBegins
  dsimp only
  split
  next =>
    refine ⟨hsettles.of_eq rfl ?_, hprep, hdown.sockets⟩
    rw [hdown.descriptors]
    rfl
  next =>
    obtain ⟨hcoherent, ⟨hneg, hturns⟩ | ⟨n, hret, hrun, hturns⟩⟩ :=
      Forwarder.openPty_turns Forwarder.coherent_init ttyPath usb
    · rw [if_pos hneg]
      obtain ⟨-, -, hreset⟩ := Forwarder.close_turns hcoherent none
      rw [hinit] at hturns
      have hes := Settles.of_turns (hturns.trans hreset)
      have hagain := (hsound.close_reaches again).prepend
        (hes.of_eq rfl hdown.descriptors.symm)
      have hall := hagain.prepend hsettles
      rw [List.append_assoc]
      exact hall
    · rw [if_neg (by rw [hret]; exact not_lt.mpr (Int.natCast_nonneg n))]
      rw [hinit] at hturns
      have hall := hsettles.trans (Settles.of_turns hturns)
      refine ⟨hall.of_eq rfl ?_, ?_, hdown.sockets⟩
      · rw [Object.descriptors, endpoint_descriptors hdown.endpoint, hdown.serial.descriptors,
          named_of_neg hdown.ttyRawFd]
        have hsock : (Object.sockets { (b.close cs).1 with
            managedUsb := some (Forwarder.init.openPty ttyPath usb).1 }) = 0 := hdown.sockets
        rw [hsock, hret]
        simp [Stage.descriptors, slaveNamed]
      · refine ⟨⟨hsound.endpoint, hsound.serial, fun f hf => ?_, hsound.client⟩, hdown.serial, rfl,
          hdown.ttyRawFd, hdown.running, hdown.dispatching⟩
        cases hf
        exact ⟨hcoherent, hrun⟩

theorem initEndpoint_reaches {slaveDup : Option ℕ} (h : Preparing b slaveDup)
    (hsockets : b.sockets = 0) (localEid : Byte) (peerEids : List Byte) (os : SetupCalls)
    (again : CloseCalls) :
    Reaches (b.descriptors + slaveNamed slaveDup)
      (initEndpoint b slaveDup localEid peerEids os again) := by
  obtain ⟨k, hphase⟩ := h.sound.endpoint
  obtain ⟨k', hleads, hphase', -⟩ := initializeLink_ends hphase b.ifname localEid peerEids os
  unfold initEndpoint
  generalize b.linuxEndpoint.initializeLink b.ifname localEid peerEids os = r at hleads hphase' ⊢
  obtain ⟨linuxEndpoint, effects, x⟩ := r
  dsimp only at hleads hphase' ⊢
  have hsound : Object.Sound { b with linuxEndpoint := linuxEndpoint } :=
    ⟨⟨k', hphase'⟩, h.sound.serial, h.sound.usb, h.sound.client⟩
  have hmade : Settles (b.descriptors + slaveNamed slaveDup)
      (entries (effects.flatMap Effect.events))
      (Object.descriptors { b with linuxEndpoint := linuxEndpoint } +
        slaveNamed slaveDup) := by
    have hturns := hleads.turns.frame (b.mctpSerial.descriptors +
      (b.managedUsb.elim 0 fun f => f.descriptors) + named b.ttyRawFd .tty + b.sockets +
      slaveNamed slaveDup)
    refine (Settles.of_turns hturns).of_eq ?_ ?_
    · simp only [Object.descriptors]
      abel
    · simp only [Object.descriptors, Object.sockets]
      abel
  cases x with
  | error err => exact (giveUp_reaches hsound h.usb again).prepend hmade
  | ok name =>
    dsimp only
    refine ⟨hmade, ⟨⟨⟨k', hphase'⟩, h.sound.serial, h.sound.usb, h.sound.client⟩, h.serial, h.usb,
      h.ttyRawFd, h.running, h.dispatching⟩, hsockets⟩

theorem no_connection_of_sockets (h : b.sockets = 0) :
    (if b.connStale then 0 else named b.bcast.connFd Origin.client) = 0 :=
  Multiset.eq_zero_of_forall_notMem fun p hp =>
    Multiset.notMem_zero p (h ▸ Multiset.mem_add.mpr (Or.inl hp))

theorem connFd_of_sockets (h : b.sockets = 0) (hstale : b.connStale = false) :
    b.bcast.connFd < 0 := by
  have hconn := no_connection_of_sockets h
  rw [hstale] at hconn
  by_contra hneg
  simp [named, not_lt.mp hneg] at hconn

theorem openBroadcast_reaches {slaveDup : Option ℕ} (h : Preparing b slaveDup)
    (hsockets : b.sockets = 0) (os : BcastMessenger.SetupCalls) (again : CloseCalls) :
    Reaches (b.descriptors + slaveNamed slaveDup)
      (openBroadcast b slaveDup os again) := by
  have hconn := no_connection_of_sockets hsockets
  have hsound (m : BcastMessenger) (hm : m.connFd = b.bcast.connFd) (name : String) :
      Object.Sound { b with broadcastName := name, bcast := m, listenStale := false } := by
    refine ⟨h.sound.endpoint, h.sound.serial, h.sound.usb, fun hstale h0 => ?_⟩
    have hneg := connFd_of_sockets hsockets hstale
    rw [← hm] at hneg
    exact absurd h0 (not_le.mpr hneg)
  have hmade (m : BcastMessenger) (hm : m.connFd = b.bcast.connFd) (name : String)
      {es : List (Event ℤ Origin)} (hes : Turns 0 es (named m.listenFd Origin.listener)) :
      Settles (b.descriptors + slaveNamed slaveDup) (entries es)
        (Object.descriptors { b with broadcastName := name, bcast := m, listenStale := false } +
          slaveNamed slaveDup) := by
    have hall := Settles.of_turns (hes.frame (b.descriptors + slaveNamed slaveDup))
    refine hall.of_eq (zero_add _) ?_
    have hsock : Object.sockets { b with broadcastName := name, bcast := m, listenStale := false } =
        named m.listenFd .listener := by
      simp only [Object.sockets, hm, hconn, zero_add, Bool.false_eq_true, if_false]
    simp only [Object.descriptors, hsock, hsockets, add_zero]
    abel
  unfold openBroadcast
  dsimp only
  obtain ⟨-, hopen⟩ | ⟨fd, -, ⟨st, -, hopen⟩ | hopen⟩ :=
    BcastMessenger.openPath_cases b.bcast ("/tmp/bcast_" ++ b.ifname ++ ".sock") os
  · rw [hopen]
    have hnone : Turns 0 (sysCallEvents []) (named (-1) Origin.listener) := .nil 0
    exact (giveUp_reaches (hsound { b.bcast with listenFd := -1 } rfl _) h.usb again).prepend
      (hmade { b.bcast with listenFd := -1 } rfl _ hnone)
  · rw [hopen]
    have hback : Turns 0 (sysCallEvents [.socket fd,
        .unlink ("/tmp/bcast_" ++ b.ifname ++ ".sock"), .close fd]) (named (-1) Origin.listener) :=
      (Turns.obtain_one (fd : ℤ) Origin.listener).trans (.close_one _ _)
    exact (giveUp_reaches (hsound { b.bcast with listenFd := -1, state := st } rfl _) h.usb
      again).prepend (hmade { b.bcast with listenFd := -1, state := st } rfl _ hback)
  · rw [hopen]
    have hlisten : Turns 0 (sysCallEvents [.socket fd,
        .unlink ("/tmp/bcast_" ++ b.ifname ++ ".sock")]) (named (fd : ℤ) Origin.listener) := by
      rw [named_natCast]
      exact .obtain_one _ _
    refine ⟨hmade ⟨_, fd, b.bcast.connFd, .listening⟩ rfl _ hlisten, ?_⟩
    have hopened := hsound ⟨"/tmp/bcast_" ++ b.ifname ++ ".sock", fd, b.bcast.connFd, .listening⟩
      rfl ("/tmp/bcast_" ++ b.ifname ++ ".sock")
    exact ⟨⟨hopened, h.serial, h.usb, h.ttyRawFd, h.running, h.dispatching⟩, by simp⟩

/-- The framer is attached to a descriptor that is a local variable. -/
theorem attachFramer_reaches (hsound : b.Sound) (hserial : b.mctpSerial.Resting)
    (htty : b.ttyRawFd < 0) (hrun : b.running = false) (hdis : b.dispatching = false)
    (hstate : b.bcast.state ≠ .connected) (fd : ℕ) (os : TtyCalls) (hthread : os.thread = true)
    {giveUp : Object → Object × Stage × List Entry}
    (hgive : ∀ framer : MctpFramer, framer.Closable →
      Reaches (Object.descriptors { b with mctpSerial := framer } + {((fd : ℤ), .tty)})
        (giveUp { b with mctpSerial := framer })) :
    Reaches (b.descriptors + {((fd : ℤ), .tty)}) (attachFramer b fd os giveUp) := by
  obtain ⟨hturns, hclosable⟩ := hserial.perform (.openFd fd) os.framer os.thread
  have hret : (b.mctpSerial.perform (.openFd fd) os.framer os.thread).2 =
      some ((OpenCall.openFd fd).apply b.mctpSerial os.framer).2 := by
    rw [perform, if_neg (by simp [hthread])]
  unfold attachFramer
  dsimp only
  generalize b.mctpSerial.perform (.openFd fd) os.framer os.thread = r at hturns hclosable hret ⊢
  obtain ⟨framer, ret⟩ := r
  dsimp only at hturns hclosable hret ⊢
  rw [hret]
  have hmade : Settles (b.descriptors + {((fd : ℤ), Origin.tty)})
      (entries ((OpenCall.openFd fd).log b.mctpSerial os.framer))
      (Object.descriptors { b with mctpSerial := framer } + {((fd : ℤ), .tty)}) := by
    have hall := hturns.frame (b.descriptors + {((fd : ℤ), Origin.tty)})
    refine (Settles.of_turns hall).of_eq (zero_add _) ?_
    simp only [Object.descriptors, Object.sockets, hserial.descriptors]
    abel
  dsimp only
  split
  next => exact (hgive framer hclosable).prepend hmade
  next =>
    refine ⟨hmade.of_eq rfl ?_, ⟨hsound.endpoint, hclosable, hsound.usb, hsound.client⟩, hrun, hdis,
      hstate⟩
    simp only [Object.descriptors, Object.sockets, named_of_neg htty, named_natCast,
      Stage.descriptors]
    abel

theorem openTty_reaches {slaveDup : Option ℕ} (h : Preparing b slaveDup)
    (hstate : b.bcast.state ≠ .connected) (os : TtyCalls) (hthread : os.thread = true)
    (again : CloseCalls) :
    Reaches (b.descriptors + slaveNamed slaveDup) (openTty b slaveDup os again) := by
  have hsound (framer : MctpFramer) (hf : framer.Closable) :
      Object.Sound { b with mctpSerial := framer } :=
    ⟨h.sound.endpoint, hf, h.sound.usb, h.sound.client⟩
  cases slaveDup with
  | some fd =>
    exact attachFramer_reaches h.sound h.serial h.ttyRawFd h.running h.dispatching hstate fd os
      hthread fun framer hf => giveUp_reaches (hsound framer hf) h.usb again
  | none =>
    unfold openTty
    dsimp only
    cases os.openTty with
    | none => exact giveUp_reaches h.sound h.usb again
    | some fd =>
      have hopened : Settles (b.descriptors + slaveNamed none)
          (entries [.obtained (fd : ℤ) .tty]) (b.descriptors + {((fd : ℤ), .tty)}) := by
        have hone := (Turns.obtain_one (fd : ℤ) Origin.tty).frame b.descriptors
        exact (Settles.of_turns hone).of_eq (add_comm _ _) (add_comm _ _)
      have hclose (b : Object) (hb : b.Sound) :
          Reaches (b.descriptors + {((fd : ℤ), .tty)}) (closeTty b fd again) := by
        have hone := (Turns.close_one (fd : ℤ) Origin.tty).frame b.descriptors
        exact (hb.close_reaches again).prepend
          ((Settles.of_turns hone).of_eq (add_comm _ _) (zero_add _))
      dsimp only
      split
      next => exact (hclose b h.sound).prepend hopened
      next =>
        refine Reaches.prepend hopened ?_
        exact attachFramer_reaches h.sound h.serial h.ttyRawFd h.running h.dispatching hstate fd os
          hthread fun framer hf => hclose _ (hsound framer hf)

theorem startDispatch_reaches (h : Fits b .dispatch) (thread : Bool) :
    Reaches b.descriptors (startDispatch b thread, .idle, []) := by
  obtain ⟨hsound, -, -, hstate⟩ := h
  refine ⟨(Settles.nil b.descriptors).of_eq rfl (add_zero _).symm, ?_⟩
  exact ⟨⟨hsound.endpoint, hsound.serial, hsound.usb, hsound.client⟩, nofun, fun _ _ => hstate⟩

/-- The destructor of the messenger repeats what `close` did, and the other parts have
nothing left to close. -/
theorem destroy_reaches (h : b.Sound) (cs again : CloseCalls) :
    Reaches b.descriptors ((destroy b cs again).1, .idle, (destroy b cs again).2) := by
  obtain ⟨hsettles, hdown, hsound⟩ := h.close cs
  obtain ⟨hmessenger, hsockets⟩ := closeBroadcast_settles (b.close cs).1
  rw [hdown.sockets] at hmessenger
  obtain ⟨hleads, hrest⟩ := hdown.endpoint.close again.endpoint
  have hend := (MctpFramer.close_turns (b.close cs).1.mctpSerial).append hleads.turns
  rw [hdown.serial.descriptors, endpoint_descriptors hdown.endpoint,
    endpoint_descriptors hrest] at hend
  have hall := ((hsettles.trans hmessenger).trans (Settles.of_turns hend))
  have hdown' : (destroy b cs again).1.Down :=
    ⟨hrest, hdown.serial.closable.close, hdown.usb, hdown.ttyRawFd, hsockets, hdown.running,
      hdown.dispatching⟩
  have hserial := hdown.serial.closable.close.closable
  refine ⟨hall.of_eq rfl ?_, hdown'.fits ⟨⟨_, hrest⟩, hserial, ?_, nofun⟩⟩
  · rw [hdown'.descriptors]
    rfl
  · intro f hf
    rw [hdown'.usb] at hf
    cases hf

/-- The forwarder in any stage. -/
theorem Fits.usb {stage : Stage} (h : Fits b stage) (f : Forwarder) (hf : b.managedUsb = some f) :
    f.Coherent ∧ f.tty.running = true := by
  cases stage with
  | idle => exact h.1.usb f hf
  | endpoint slaveDup => exact h.1.sound.usb f hf
  | broadcast slaveDup => exact h.1.sound.usb f hf
  | tty slaveDup => exact h.1.sound.usb f hf
  | dispatch => exact h.1.usb f hf

/-- A move of the forwarder's worker, in any stage. -/
theorem worker_reaches {stage : Stage} (h : Fits b stage) {f f' : Forwarder}
    (hf : b.managedUsb = some f) (hcoherent : f'.Coherent) (hrun : f'.tty.running = true)
    {es : List (Event ℤ Origin)} (hes : Turns f.descriptors es f'.descriptors) :
    Reaches (b.descriptors + stage.descriptors)
      ({ b with managedUsb := some f' }, stage, entries es) := by
  have hsound (hb : b.Sound) : Object.Sound { b with managedUsb := some f' } :=
    ⟨hb.endpoint, hb.serial, fun g hg => Option.some.inj hg ▸ ⟨hcoherent, hrun⟩, hb.client⟩
  have hprep {slaveDup : Option ℕ} (hb : Preparing b slaveDup) :
      Preparing { b with managedUsb := some f' } slaveDup := by
    refine ⟨hsound hb.sound, hb.serial, ?_, hb.ttyRawFd, hb.running, hb.dispatching⟩
    rw [← hb.usb, hf]
    rfl
  constructor
  · have hall := Settles.of_turns (hes.frame (b.linuxEndpoint.descriptors +
      b.mctpSerial.descriptors + named b.ttyRawFd .tty + b.sockets + stage.descriptors))
    refine hall.of_eq ?_ ?_
    · simp only [Object.descriptors, hf, Option.elim_some]
      abel
    · simp only [Object.descriptors, Object.sockets, Option.elim_some]
      abel
  · cases stage with
    | idle =>
      refine ⟨hsound h.1, fun hstop => ?_, h.2.2⟩
      have hnone := (h.2.1 hstop).usb
      rw [hf] at hnone
      cases hnone
    | endpoint slaveDup => exact ⟨hprep h.1, h.2⟩
    | broadcast slaveDup => exact ⟨hprep h.1, h.2⟩
    | tty slaveDup => exact ⟨hprep h.1, h.2⟩
    | dispatch => exact ⟨hsound h.1, h.2⟩

/-- The dispatch thread is there between a successful `open` and `close` only. -/
theorem Fits.of_dispatching {stage : Stage} (h : Fits b stage) (hd : b.dispatching = true) :
    stage = .idle ∧ b.Sound ∧ b.running = true ∧
      (b.connStale = true → b.bcast.state ≠ .connected) := by
  have hoff {p : Prop} (hcon : b.dispatching = false) : p := absurd (hcon.symm.trans hd) (by decide)
  cases stage with
  | idle =>
    refine ⟨rfl, h.1, ?_, h.2.2 hd⟩
    cases hrun : b.running with
    | false => exact hoff (h.2.1 hrun).dispatching
    | true => rfl
  | endpoint slaveDup => exact hoff h.1.dispatching
  | broadcast slaveDup => exact hoff h.1.dispatching
  | tty slaveDup => exact hoff h.1.dispatching
  | dispatch => exact hoff h.2.2.1

/-- A move of the dispatch thread on the messenger. -/
theorem messenger_reaches {stage : Stage} (h : Fits b stage) (hd : b.dispatching = true)
    {bcast : BcastMessenger} {stale : Bool} {es : List (Event ℤ Origin)}
    (hlisten : bcast.listenFd = b.bcast.listenFd)
    (hes : Turns (if b.connStale then 0 else named b.bcast.connFd .client) es
      (if stale then 0 else named bcast.connFd .client))
    (hclient : stale = false → 0 ≤ bcast.connFd → bcast.state = .connected)
    (hstale : stale = true → bcast.state ≠ .connected) :
    Reaches (b.descriptors + stage.descriptors)
      ({ b with bcast := bcast, connStale := stale }, stage, entries es) := by
  obtain ⟨rfl, hsound, hrun, -⟩ := h.of_dispatching hd
  constructor
  · have hall := Settles.of_turns (hes.frame (b.linuxEndpoint.descriptors +
      b.mctpSerial.descriptors + (b.managedUsb.elim 0 fun f => f.descriptors) +
      named b.ttyRawFd .tty + if b.listenStale then 0 else named b.bcast.listenFd .listener))
    refine hall.of_eq ?_ ?_
    · simp only [Object.descriptors, Object.sockets, Stage.descriptors]
      abel
    · simp only [Object.descriptors, Object.sockets, Stage.descriptors, hlisten]
      abel
  · refine ⟨⟨hsound.endpoint, hsound.serial, hsound.usb, hclient⟩, fun hstop => ?_,
      fun _ => hstale⟩
    exact absurd (hrun.symm.trans hstop) (by decide)

theorem accept_reaches {stage : Stage} (h : Fits b stage) (hd : b.dispatching = true)
    (hconn : b.bcast.isConnected = false) (r : BcastMessenger.AcceptResult) :
    Reaches (b.descriptors + stage.descriptors)
      ({ b with bcast := (b.bcast.acceptConnection r).1, connStale := false }, stage,
        entries (sysCallEvents (b.bcast.acceptConnection r).2.1)) := by
  obtain ⟨-, hsound, -, -⟩ := h.of_dispatching hd
  have hnone : (if b.connStale then 0 else named b.bcast.connFd Origin.client) = 0 := by
    cases hs : b.connStale with
    | true => rfl
    | false =>
      refine named_of_neg (not_le.mp fun h0 => ?_) _
      have hyes := b.bcast.isConnected_iff.mpr ⟨hsound.client hs h0, h0⟩
      exact absurd (hconn.symm.trans hyes) (by decide)
  refine messenger_reaches h hd ?_ ?_ ?_ nofun
  · cases r <;> rfl
  · rw [hnone]
    cases r with
    | client fd =>
      exact (Turns.obtain_one (fd : ℤ) Origin.client).of_eq rfl (named_natCast fd _).symm
    | wouldBlock => exact .nil 0
    | failed => exact .nil 0
  · intro _ h0
    cases r with
    | client fd => rfl
    | wouldBlock => cases h0
    | failed => cases h0

theorem recv_reaches {stage : Stage} (h : Fits b stage) (hd : b.dispatching = true)
    (r : BcastMessenger.RecvResult) :
    Reaches (b.descriptors + stage.descriptors)
      ({ b with bcast := (b.bcast.recvMessage r).1 }, stage,
        entries (sysCallEvents (b.bcast.recvMessage r).2.1)) := by
  obtain ⟨-, hsound, -, hstale⟩ := h.of_dispatching hd
  cases hconn : b.bcast.isConnected with
  | false =>
    rw [BcastMessenger.recvMessage_of_not_connected hconn]
    exact messenger_reaches h hd rfl (.nil _) hsound.client hstale
  | true =>
    obtain ⟨hstate, h0⟩ := b.bcast.isConnected_iff.mp hconn
    have hfresh : b.connStale = false :=
      Bool.eq_false_iff.mpr fun hs => hstale hs hstate
    obtain ⟨-, hr⟩ | ⟨-, hr⟩ | ⟨d, -, -, hr⟩ := BcastMessenger.recvMessage_cases hconn r
    · rw [hr]
      exact messenger_reaches h hd rfl (.nil _) hsound.client hstale
    · rw [hr]
      refine messenger_reaches h hd rfl ?_ (fun _ h0 => by cases h0) ?_
      · rw [hfresh, named, if_pos h0]
        exact .close_one _ _
      · intro hs
        exact absurd (hfresh.symm.trans hs) (by decide)
    · rw [hr]
      exact messenger_reaches h hd rfl (.nil _) hsound.client hstale

end Parts

namespace Life

/-- What every run keeps. -/
structure InOrder (s : Life) : Prop where
  holds : s.ledger.Holds s.descriptors
  numbers : s.ledger.strays = s.strays.filterMap fun e => e.event.number
  strays : ∀ e ∈ s.strays, e.byMessenger = true
  fits : Fits s.object s.stage

theorem inOrder_start : start.InOrder := by
  refine ⟨Ledger.holds_empty, rfl, List.forall_mem_nil _, ?_⟩
  have hdown : Object.Down Object.init :=
    ⟨.down rfl rfl rfl MctpFramer.resting_init, MctpFramer.resting_init, rfl, by decide, rfl, rfl,
      rfl⟩
  refine hdown.fits ⟨⟨_, hdown.endpoint⟩, hdown.serial.closable, fun f hf => ?_, ?_⟩
  · cases hf
  · exact fun _ h0 => absurd h0 (by decide)

/-- One case for each part of a call and for each move of a thread. -/
theorem result_reaches {s : Life} {m : Move} {r : Object × Stage × List Entry}
    (h : Fits s.object s.stage) (hG : s.Tidy m) (hr : s.result m = some r) :
    Reaches s.descriptors r := by
  unfold descriptors
  cases m with
  | openBegins ttyPath useIdPathTag cs usb again =>
    rw [result] at hr
    split at hr
    next hidle =>
      cases hr
      rw [hidle] at h ⊢
      have hopen := openBegins_reaches h.1 ttyPath useIdPathTag cs usb again
      exact ⟨hopen.1.of_eq (add_zero _).symm rfl, hopen.2⟩
    next => cases hr
  | initEndpoint localEid peerEids os again =>
    rw [result] at hr
    split at hr
    next slaveDup hstage =>
      cases hr
      rw [hstage] at h ⊢
      exact initEndpoint_reaches h.1 h.2 localEid peerEids os again
    next => cases hr
  | openBroadcast os again =>
    rw [result] at hr
    split at hr
    next slaveDup hstage =>
      cases hr
      rw [hstage] at h ⊢
      exact openBroadcast_reaches h.1 h.2 os again
    next => cases hr
  | openTty os again =>
    rw [result] at hr
    split at hr
    next slaveDup hstage =>
      cases hr
      rw [hstage] at h ⊢
      exact openTty_reaches h.1 h.2 os hG again
    next => cases hr
  | startDispatch thread =>
    rw [result] at hr
    split at hr
    next hstage =>
      cases hr
      rw [hstage] at h ⊢
      have hstart := startDispatch_reaches h thread
      exact ⟨hstart.1.of_eq (add_zero _).symm rfl, hstart.2⟩
    next => cases hr
  | close cs =>
    rw [result] at hr
    split at hr
    next hidle =>
      cases hr
      rw [hidle] at h ⊢
      have hclose := h.1.close_reaches cs
      exact ⟨hclose.1.of_eq (add_zero _).symm rfl, hclose.2⟩
    next => cases hr
  | destroy cs again =>
    rw [result] at hr
    split at hr
    next hidle =>
      cases hr
      rw [hidle] at h ⊢
      have hend := destroy_reaches h.1 cs again
      exact ⟨hend.1.of_eq (add_zero _).symm rfl, hend.2⟩
    next => cases hr
  | workerBegins udev epoll =>
    rw [result] at hr
    split at hr
    next f hf =>
      split at hr
      next hcond =>
        cases hr
        obtain ⟨hcoherent, hrun⟩ := h.usb f hf
        have hbegun : f.begun = false := by simpa using (Bool.and_eq_true_iff.mp hcond).2
        obtain ⟨hcoherent', hes⟩ := Forwarder.begin_turns hcoherent hbegun hrun udev epoll
        exact worker_reaches h hf hcoherent' hrun hes
      next => cases hr
    next => cases hr
  | workerEvent fd io =>
    rw [result] at hr
    split at hr
    next f hf =>
      split at hr
      next =>
        obtain ⟨tty, htty, rfl⟩ := Option.map_eq_some_iff.mp hr
        obtain ⟨hcoherent, hrun⟩ := h.usb f hf
        obtain ⟨hcoherent', hes⟩ := Forwarder.event_turns hcoherent htty hrun (hG f hf)
        refine worker_reaches h hf hcoherent' ?_ hes
        exact (handleEvent_frame htty).1.trans hrun
      next => cases hr
    next => cases hr
  | workerWaitFails =>
    rw [result] at hr
    split at hr
    next f hf =>
      split at hr
      next =>
        cases hr
        obtain ⟨hcoherent, hrun⟩ := h.usb f hf
        obtain ⟨hcoherent', hes⟩ := Forwarder.waitFails_turns hcoherent
        exact worker_reaches h hf hcoherent' hrun hes
      next => cases hr
    next => cases hr
  | accept r =>
    rw [result] at hr
    split at hr
    next hcond =>
      cases hr
      obtain ⟨hd, hconn⟩ := Bool.and_eq_true_iff.mp hcond
      exact accept_reaches h hd (by simpa using hconn) r
    next => cases hr
  | recv r =>
    rw [result] at hr
    split at hr
    next hd =>
      cases hr
      exact recv_reaches h hd r
    next => cases hr

theorem inOrder_step {s t : Life} {m : Move} (h : s.InOrder) (hG : s.Tidy m)
    (hstep : s.step m = some t) : t.InOrder := by
  unfold step at hstep
  split at hstep
  next => cases hstep
  next =>
    obtain ⟨⟨b, stage, log⟩, hr, hstep⟩ := Option.bind_eq_some_iff.mp hstep
    obtain ⟨hsettles, hfits⟩ := result_reaches h.fits hG hr
    dsimp only at hstep
    split at hstep
    next hfresh =>
      cases hstep
      obtain ⟨hholds, hmisses⟩ := hsettles s.ledger h.holds hfresh
      refine ⟨hholds, ?_, List.forall_mem_append.mpr ⟨h.strays, hmisses⟩, hfits⟩
      rw [Ledger.strays_postAll, List.filterMap_append, h.numbers]
    next => cases hstep

instance decidableTidy (s : Life) : ∀ m, Decidable (s.Tidy m)
  | .workerEvent fd io =>
    inferInstanceAs (Decidable (∀ f ∈ s.object.managedUsb, Undisturbed f.tty (.event fd io)))
  | .openTty os _ => inferInstanceAs (Decidable (os.thread = true))
  | .openBegins .. | .initEndpoint .. | .openBroadcast .. | .startDispatch _ | .close _
  | .destroy .. | .workerBegins .. | .workerWaitFails | .accept _ | .recv _ => isTrue trivial

/-- Listings that do not have the device any more. -/
def quickClose : CloseCalls := ⟨⟨true, fun _ => some []⟩, none⟩

def devicePlugged : EventCalls where
  device := some ⟨some "add", some "tty", some "/dev/ttyUSB0", some "usb-1", none⟩
  attach := ⟨some 60, true, true, true⟩
  read := .again
  writes := []

def secondFramer : TtyCalls where
  openTty := none
  tcgetattr := false
  tcsetattr := false
  framer := ⟨some (70, 71), some (72, 73), some 76, false, false, some 74, some 75, true⟩
  thread := true

/-- A bridge behind a forwarder whose device comes while the kernel endpoint is not there yet;
a client comes and goes, and a failed `open` with the old names in the messenger follows. -/
def forwarderRun : List Move :=
  [.openBegins "usb-1" true quickClose ⟨some (40, 41), some 42, true⟩ quickClose,
    .workerBegins (some 50) (some 51), .workerEvent 50 devicePlugged,
    .initEndpoint 9 [10] LinuxMctpSerial.Life.goodSetup quickClose,
    .openBroadcast ⟨some 80, true, true⟩ quickClose, .openTty secondFramer quickClose,
    .startDispatch true, .accept (.client 81), .recv .endOfFile, .accept (.client 81),
    .close quickClose, .openBegins "" true quickClose ⟨none, none, true⟩ quickClose,
    .destroy quickClose quickClose]

end Life

end MctpSerial.MctpBridge
