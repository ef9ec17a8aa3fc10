import MctpSerial.BridgeDescriptors
import MctpSerial.BridgeDispatch

/-!
# What the dispatch loop waits for

In each iteration `run` hands up to three numbers to epoll and tells the events that come
back apart by comparing them with the same numbers. While the thread is there these are the
ready descriptors of two framers with a session and the connection of the client: all are open,
all differ, and so the events are taken for what they are. Whether the framers receive depends
on two epoll calls of theirs that nobody checks.
-/
namespace MctpSerial.MctpBridge
open MctpFramer DescriptorLedgers ManagedUsbTty LinuxMctpSerial GuardedRuns

/-- `add_ep` of `run` skips a negative number. -/
def polled (b : Object) : List ℤ :=
  ([b.linuxEndpoint.rxFd, b.ttyFd] ++ if b.bcast.isConnected then [b.bcast.connFd] else []).filter
    (0 ≤ ·)

/-- The variables of the loop over the events. -/
structure Sorted where
  bcastFd : ℤ
  linuxReady : Bool
  ttyReady : Bool
  deriving DecidableEq

def sortEvent (b : Object) (r : Sorted) (fd : ℤ) : Sorted :=
  if b.bcast.isConnected ∧ fd = b.bcast.connFd then { r with bcastFd := fd }
  else if fd = b.linuxEndpoint.rxFd then { r with linuxReady := true }
  else if fd = b.ttyFd then { r with ttyReady := true }
  else r

/-- The sources that the loop serves after epoll has reported `events`. -/
def sortEvents (b : Object) (events : List ℤ) : Ready :=
  let r := events.foldl (sortEvent b) ⟨-1, false, false⟩
  ⟨decide (0 ≤ r.bcastFd), r.linuxReady, r.ttyReady⟩

section Framers

variable {f g : MctpFramer}

theorem getFrameReadyFd_mem (h0 : 0 ≤ getFrameReadyFd f) :
    ∃ t, (t = .readyDup ∨ t = .packetSocket) ∧ (getFrameReadyFd f, t) ∈ f.descriptors := by
  unfold getFrameReadyFd at h0 ⊢
  split
  next hdup =>
    refine ⟨.readyDup, Or.inl rfl, ?_⟩
    simp [MctpFramer.descriptors, fittings, named, hdup]
  next hdup =>
    rw [if_neg hdup] at h0
    refine ⟨.packetSocket, Or.inr rfl, ?_⟩
    simp [MctpFramer.descriptors, fittings, named, h0]

/-- What `openFd` returns if it does not fail. -/
theorem openFd_ready {fd : ℤ} {os : MctpFramer.OpenCalls} (hret : 0 ≤ (f.openFd fd os).2) :
    (f.openFd fd os).2 = getFrameReadyFd (f.openFd fd os).1 ∧ (f.openFd fd os).1.Active ∧
      (os.Registers → (f.openFd fd os).1.Receives) := by
  unfold openFd at hret ⊢
  split
  next hbusy =>
    rw [if_pos hbusy] at hret
    cases hret
  next hbusy =>
    rw [if_neg hbusy] at hret
    split
    next hneg =>
      rw [if_pos hneg] at hret
      cases hret
    next hneg =>
      rw [if_neg hneg] at hret
      dsimp only at hret ⊢
      split
      next hpipes =>
        rw [if_pos hpipes] at hret
        cases hret
      next hpipes =>
        rw [if_neg hpipes] at hret
        split
        next hdup =>
          rw [if_pos hdup] at hret
          cases hret
        next hdup => exact ⟨rfl, ⟨not_lt.mp hdup, rfl, rfl⟩, startSession_receives⟩

theorem perform_ready {fd : ℤ} {os : MctpFramer.OpenCalls} {thread : Bool} {ret : ℤ}
    (h : f.perform (.openFd fd) os thread = (g, some ret)) (hret : 0 ≤ ret) :
    ret = getFrameReadyFd g ∧ g.Active ∧ (os.Registers → g.Receives) := by
  unfold perform at h
  split at h
  next => cases h
  next =>
    obtain ⟨rfl, hsome⟩ := Prod.mk.inj h
    obtain rfl := Option.some.inj hsome
    exact openFd_ready hret

end Framers

section Endpoint

variable {e : LinuxMctpSerial}

/-- The endpoint tells of the packets of a framer with a session, which receives if its epoll
calls are known to have succeeded. -/
structure Listens (registered : Prop) (e : LinuxMctpSerial) : Prop where
  rxFd : e.rxFd = getFrameReadyFd e.framer
  nonneg : 0 ≤ e.rxFd
  active : e.framer.Active
  receives : registered → e.framer.Receives

theorem attach_listens {cs : SetupCalls} {name : String}
    (h : (LinuxMctpSerial.attach e cs).2.2 = .ok name) :
    Listens cs.framer.Registers (LinuxMctpSerial.attach e cs).1 := by
  unfold LinuxMctpSerial.attach at h ⊢
  dsimp only at h ⊢
  generalize hperform : e.framer.perform (.openFd e.ptyMasterFd) cs.framer cs.thread = r at h ⊢
  obtain ⟨framer, ret⟩ := r
  obtain ⟨_, -, hok, hobject, -⟩ := Result.andThen_returns h
  rw [hobject]
  cases ret with
  | none => cases hok
  | some ret =>
    dsimp only at hok ⊢
    split
    next hneg =>
      rw [if_pos hneg] at hok
      cases hok
    next hneg =>
      obtain ⟨-, hactive, hreceives⟩ := perform_ready hperform (not_lt.mp hneg)
      rw [if_neg hneg] at hok
      split
      next hindex =>
        rw [if_pos hindex] at hok
        cases hok
      next hindex =>
        rw [if_neg hindex] at hok
        split
        next hready =>
          rw [if_pos hready] at hok
          cases hok
        next hready => exact ⟨rfl, not_lt.mp hready, hactive, hreceives⟩

/-- An `initialize` that returns has left its endpoint listening. -/
theorem initializeLink_listens {requested : String} {localEid : Byte} {peerEids : List Byte}
    {cs : SetupCalls} {name : String}
    (h : (e.initializeLink requested localEid peerEids cs).2.2 = .ok name) :
    Listens cs.framer.Registers (e.initializeLink requested localEid peerEids cs).1 := by
  unfold initializeLink at h ⊢
  dsimp only at h ⊢
  obtain ⟨_, -, h, h₁, -⟩ := Result.andThen_returns h
  obtain ⟨_, -, h, h₂, -⟩ := Result.andThen_returns h
  obtain ⟨_, -, h, h₃, -⟩ := Result.andThen_returns h
  obtain ⟨_, -, h, h₄, -⟩ := Result.andThen_returns h
  obtain ⟨_, -, h, h₅, -⟩ := Result.andThen_returns h
  rw [h₁, h₂, h₃, h₄, h₅]
  exact attach_listens h

end Endpoint

/-- The loop has a framer of its own to wait for. -/
structure Serves (registered : Prop) (b : Object) : Prop where
  ttyFd : b.ttyFd = getFrameReadyFd b.mctpSerial
  nonneg : 0 ≤ b.ttyFd
  active : b.mctpSerial.Active
  receives : registered → b.mctpSerial.Receives

theorem Listens.mono {p q : Prop} {e : LinuxMctpSerial} (h : Listens p e) (himp : q → p) :
    Listens q e :=
  ⟨h.rxFd, h.nonneg, h.active, fun hq => h.receives (himp hq)⟩

theorem Serves.mono {p q : Prop} {b : Object} (h : Serves p b) (himp : q → p) : Serves q b :=
  ⟨h.ttyFd, h.nonneg, h.active, fun hq => h.receives (himp hq)⟩

/-- How far `open` has come, or that it is complete while the bridge runs. -/
def Wakes (registered : Prop) (b : Object) : Stage → Prop
  | .idle => b.running = true → Listens registered b.linuxEndpoint ∧ Serves registered b
  | .endpoint _ => True
  | .broadcast _ => Listens registered b.linuxEndpoint
  | .tty _ => Listens registered b.linuxEndpoint
  | .dispatch => Listens registered b.linuxEndpoint ∧ Serves registered b

section Parts

variable {b : Object} {registered : Prop}

theorem Wakes.mono {p q : Prop} {stage : Stage} (h : Wakes p b stage) (himp : q → p) :
    Wakes q b stage := by
  cases stage with
  | idle => exact fun hrun => ⟨(h hrun).1.mono himp, (h hrun).2.mono himp⟩
  | endpoint slaveDup => trivial
  | broadcast slaveDup => exact Listens.mono h himp
  | tty slaveDup => exact Listens.mono h himp
  | dispatch => exact ⟨h.1.mono himp, h.2.mono himp⟩

theorem wakes_of_stopped {stage : Stage} (hidle : stage = .idle) (hstop : b.running = false) :
    Wakes registered b stage := by
  rw [hidle]
  intro hrun
  exact absurd (hstop.symm.trans hrun) (by decide)

/-- Whatever gives up leaves a bridge that is stopped. -/
theorem giveUp_wakes (slaveDup : Option ℕ) (cs : CloseCalls) :
    Wakes registered (giveUp b slaveDup cs).1 (giveUp b slaveDup cs).2.1 := by
  cases slaveDup with
  | none => exact wakes_of_stopped rfl rfl
  | some fd => exact wakes_of_stopped rfl rfl

theorem openBegins_wakes (ttyPath : String) (useIdPathTag : Bool) (cs : CloseCalls)
    (usb : Forwarder.OpenCalls) (again : CloseCalls) :
    Wakes registered (openBegins b ttyPath useIdPathTag cs usb again).1
      (openBegins b ttyPath useIdPathTag cs usb again).2.1 := by
  unfold openBegins
  dsimp only
  split
  next => trivial
  next =>
    split
    next => exact wakes_of_stopped rfl rfl
    next => trivial

theorem initEndpoint_wakes (slaveDup : Option ℕ) (localEid : Byte) (peerEids : List Byte)
    (os : SetupCalls) (again : CloseCalls) :
    Wakes os.framer.Registers (initEndpoint b slaveDup localEid peerEids os again).1
      (initEndpoint b slaveDup localEid peerEids os again).2.1 := by
  have hlistens (name : String)
      (h : (b.linuxEndpoint.initializeLink b.ifname localEid peerEids os).2.2 = .ok name) :=
    initializeLink_listens h
  unfold initEndpoint
  generalize b.linuxEndpoint.initializeLink b.ifname localEid peerEids os = r at hlistens ⊢
  obtain ⟨linuxEndpoint, effects, x⟩ := r
  cases x with
  | error err => exact giveUp_wakes slaveDup again
  | ok name => exact hlistens name rfl

theorem openBroadcast_wakes (h : Listens registered b.linuxEndpoint) (slaveDup : Option ℕ)
    (os : BcastMessenger.SetupCalls) (again : CloseCalls) :
    Wakes registered (openBroadcast b slaveDup os again).1
      (openBroadcast b slaveDup os again).2.1 := by
  unfold openBroadcast
  dsimp only
  split
  next => exact giveUp_wakes slaveDup again
  next => exact h

theorem attachFramer_wakes (h : Listens registered b.linuxEndpoint) (hrun : b.running = false)
    (fd : ℕ) (os : TtyCalls) (hreg : registered → os.framer.Registers)
    {giveUp : Object → Object × Stage × List Entry}
    (hgive : ∀ b, Wakes registered (giveUp b).1 (giveUp b).2.1) :
    Wakes registered (attachFramer b fd os giveUp).1 (attachFramer b fd os giveUp).2.1 := by
  unfold attachFramer
  dsimp only
  generalize hperform : b.mctpSerial.perform (.openFd fd) os.framer os.thread = r
  obtain ⟨framer, ret⟩ := r
  cases ret with
  | none => exact wakes_of_stopped rfl hrun
  | some pipefd =>
    dsimp only
    split
    next => exact hgive _
    next hneg =>
      obtain ⟨hready, hactive, hreceives⟩ := perform_ready hperform (not_lt.mp hneg)
      exact ⟨h, hready, not_lt.mp hneg, hactive, fun hq => hreceives (hreg hq)⟩

theorem openTty_wakes (h : Listens registered b.linuxEndpoint) (hrun : b.running = false)
    (slaveDup : Option ℕ) (os : TtyCalls) (hreg : registered → os.framer.Registers)
    (again : CloseCalls) :
    Wakes registered (openTty b slaveDup os again).1 (openTty b slaveDup os again).2.1 := by
  cases slaveDup with
  | some fd => exact attachFramer_wakes h hrun fd os hreg fun b => giveUp_wakes (some fd) again
  | none =>
    unfold openTty
    dsimp only
    cases os.openTty with
    | none => exact giveUp_wakes none again
    | some fd =>
      dsimp only
      split
      next => exact wakes_of_stopped rfl rfl
      next => exact attachFramer_wakes h hrun fd os hreg fun b => wakes_of_stopped rfl rfl

/-- Moves of the other threads leave both framers and their numbers alone. -/
theorem Wakes.others {stage : Stage} (h : Wakes registered b stage) (bcast : BcastMessenger)
    (connStale : Bool) (managedUsb : Option Forwarder) :
    Wakes registered { b with bcast := bcast, connStale := connStale, managedUsb := managedUsb } stage := by
  cases stage with
  | idle =>
    intro hrun
    obtain ⟨hlistens, hserves⟩ := h hrun
    exact ⟨hlistens, hserves.ttyFd, hserves.nonneg, hserves.active, hserves.receives⟩
  | endpoint slaveDup => trivial
  | broadcast slaveDup => exact h
  | tty slaveDup => exact h
  | dispatch => exact ⟨h.1, h.2.ttyFd, h.2.nonneg, h.2.active, h.2.receives⟩

end Parts

/-- The epoll calls of the framer that the move opens, if it opens one, succeed. -/
def Move.Registers : Move → Prop
  | .initEndpoint _ _ os _ => os.framer.Registers
  | .openTty os _ => os.framer.Registers
  | _ => True

instance : ∀ m : Move, Decidable m.Registers
  | .initEndpoint _ _ os _ => inferInstanceAs (Decidable os.framer.Registers)
  | .openTty os _ => inferInstanceAs (Decidable os.framer.Registers)
  | .openBegins .. | .openBroadcast .. | .startDispatch _ | .close _ | .destroy .. |
    .workerBegins .. | .workerEvent .. | .workerWaitFails | .accept _ | .recv _ => isTrue trivial

namespace Life

theorem result_wakes {s : Life} {m : Move} {r : Object × Stage × List Entry} {registered : Prop}
    (h : Wakes registered s.object s.stage) (hreg : registered → m.Registers)
    (hfits : Fits s.object s.stage) (hr : s.result m = some r) : Wakes registered r.1 r.2.1 := by
  refine result_keeps hr (fun _ _ _ _ _ _ => openBegins_wakes _ _ _ _ _) ?_ ?_ ?_ ?_
    (fun _ => wakes_of_stopped rfl rfl) (fun _ _ => wakes_of_stopped rfl rfl) h.others
  · rintro slaveDup localEid peerEids os again rfl -
    exact (initEndpoint_wakes slaveDup localEid peerEids os again).mono hreg
  · intro slaveDup os again hstage
    rw [hstage] at h
    exact openBroadcast_wakes h slaveDup os again
  · rintro slaveDup os again rfl hstage
    rw [hstage] at h hfits
    exact openTty_wakes h hfits.1.running slaveDup os hreg again
  · intro thread hstage
    rw [hstage] at h
    exact fun _ => ⟨h.1, h.2.ttyFd, h.2.nonneg, h.2.active, h.2.receives⟩

theorem run_wakes {ms : List Move} {s : Life} (hrun : exec step start ms = some s)
    (hG : Every step Tidy start ms) :
    s.InOrder ∧ Wakes (∀ m ∈ ms, m.Registers) s.object s.stage := by
  refine guarded_invariant
    (fun ms s => s.InOrder ∧ Wakes (∀ m ∈ ms, m.Registers) s.object s.stage)
    ⟨inOrder_start, wakes_of_stopped rfl rfl⟩ ?_ hrun hG
  intro ms s m t h hG hstep
  refine ⟨inOrder_step h.1 hG hstep, ?_⟩
  obtain ⟨r, hr, hobject, hstage⟩ := result_of_step hstep
  rw [hobject, hstage]
  refine result_wakes (h.2.mono fun hall => ?_) (fun hall => ?_) h.1.fits hr
  · exact fun m hm => hall m (List.mem_append_left _ hm)
  · exact hall m (List.mem_append_right _ List.mem_cons_self)

end Life

section Sorting

variable {b : Object}

/-- The numbers of the three sources differ, so that an event tells which one it is from. -/
structure Apart (b : Object) : Prop where
  linuxTty : b.linuxEndpoint.rxFd ≠ b.ttyFd
  bcastLinux : b.bcast.isConnected = true → b.bcast.connFd ≠ b.linuxEndpoint.rxFd
  bcastTty : b.bcast.isConnected = true → b.bcast.connFd ≠ b.ttyFd

theorem sortEvent_of_apart (h : Apart b) (r : Sorted) (fd : ℤ) :
    sortEvent b r fd =
      { bcastFd := if b.bcast.isConnected ∧ fd = b.bcast.connFd then fd else r.bcastFd
        linuxReady := r.linuxReady || decide (fd = b.linuxEndpoint.rxFd)
        ttyReady := r.ttyReady || decide (fd = b.ttyFd) } := by
  unfold sortEvent
  by_cases hbcast : b.bcast.isConnected = true ∧ fd = b.bcast.connFd
  · obtain ⟨hconn, rfl⟩ := hbcast
    simp [hconn, h.bcastLinux hconn, h.bcastTty hconn]
  by_cases hlinux : fd = b.linuxEndpoint.rxFd
  · subst hlinux
    simp [hbcast, h.linuxTty]
  by_cases htty : fd = b.ttyFd
  · subst htty
    simp [hbcast, h.linuxTty.symm]
  · simp [hbcast, hlinux, htty]

theorem foldl_sortEvent (h : Apart b) (events : List ℤ) (r : Sorted) :
    events.foldl (sortEvent b) r =
      { bcastFd := if b.bcast.isConnected ∧ b.bcast.connFd ∈ events then b.bcast.connFd
          else r.bcastFd
        linuxReady := r.linuxReady || decide (b.linuxEndpoint.rxFd ∈ events)
        ttyReady := r.ttyReady || decide (b.ttyFd ∈ events) } := by
  induction events generalizing r with
  | nil => simp
  | cons fd events ih =>
    rw [List.foldl_cons, ih, sortEvent_of_apart h, Sorted.mk.injEq]
    refine ⟨?_, ?_, ?_⟩
    · cases hconn : b.bcast.isConnected with
      | false => simp
      | true =>
        by_cases hin : b.bcast.connFd ∈ events
        · simp [hin]
        by_cases hfd : b.bcast.connFd = fd
        · simp [hfd]
        · simp [hin, hfd, Ne.symm hfd]
    · simp [eq_comm, Bool.or_assoc]
    · simp [eq_comm, Bool.or_assoc]

end Sorting

theorem fst_ne_of_nodup {xs ys : Multiset (ℤ × Origin)} (h : ((xs + ys).map Prod.fst).Nodup)
    {p q : ℤ × Origin} (hp : p ∈ xs) (hq : q ∈ ys) : p.1 ≠ q.1 := by
  rw [Multiset.map_add, Multiset.nodup_add] at h
  intro heq
  have hnot := Multiset.disjoint_left.mp h.2.2 (Multiset.mem_map_of_mem Prod.fst hp)
  exact hnot (heq ▸ Multiset.mem_map_of_mem Prod.fst hq)

section Sources

variable {b : Object} {registered : Prop}

/-- The descriptor that tells of the packets of a framer is one of its own. -/
theorem Listens.mem (h : Listens registered b.linuxEndpoint) : ∃ t, (t = .readyDup ∨ t = .packetSocket) ∧
    (b.linuxEndpoint.rxFd, t) ∈ b.linuxEndpoint.descriptors := by
  have h0 := h.nonneg
  rw [h.rxFd] at h0 ⊢
  obtain ⟨t, ht, hmem⟩ := getFrameReadyFd_mem h0
  exact ⟨t, ht, Multiset.mem_add.mpr (Or.inl (Multiset.mem_add.mpr (Or.inl hmem)))⟩

theorem Serves.mem (h : Serves registered b) : ∃ t, (t = .readyDup ∨ t = .packetSocket) ∧
    (b.ttyFd, t) ∈ b.mctpSerial.descriptors := by
  have h0 := h.nonneg
  rw [h.ttyFd] at h0 ⊢
  exact getFrameReadyFd_mem h0

theorem client_mem (hstale : b.connStale = true → b.bcast.state ≠ .connected)
    (hconn : b.bcast.isConnected = true) : (b.bcast.connFd, Origin.client) ∈ b.sockets := by
  obtain ⟨hstate, h0⟩ := b.bcast.isConnected_iff.mp hconn
  have hfresh : b.connStale = false := Bool.eq_false_iff.mpr fun hs => hstale hs hstate
  rw [Object.sockets, hfresh, if_neg (by decide), named, if_pos h0]
  exact Multiset.mem_add.mpr (Or.inl (Multiset.mem_singleton_self _))

/-- The three sources are descriptors of three parts, and the parts share none. -/
theorem apart_of_nodup (hnodup : (b.descriptors.map Prod.fst).Nodup)
    (hlistens : Listens registered b.linuxEndpoint) (hserves : Serves registered b)
    (hstale : b.connStale = true → b.bcast.state ≠ .connected) : Apart b := by
  obtain ⟨_, -, hlinux⟩ := hlistens.mem
  obtain ⟨_, -, htty⟩ := hserves.mem
  have hrest : ((b.linuxEndpoint.descriptors + b.mctpSerial.descriptors + b.sockets).map
      Prod.fst).Nodup := by
    refine Multiset.nodup_of_le (Multiset.map_le_map ?_) hnodup
    rw [Object.descriptors, add_assoc _ (b.managedUsb.elim 0 _) (named _ _)]
    exact Multiset.add_le_add_right (Multiset.le_add_right _ _)
  refine ⟨?_, fun hconn => ?_, fun hconn => ?_⟩
  · rw [Multiset.map_add] at hrest
    exact fst_ne_of_nodup (Multiset.nodup_add.mp hrest).1 hlinux htty
  · exact (fst_ne_of_nodup hrest (Multiset.mem_add.mpr (Or.inl hlinux))
      (client_mem hstale hconn)).symm
  · exact (fst_ne_of_nodup hrest (Multiset.mem_add.mpr (Or.inr htty))
      (client_mem hstale hconn)).symm

theorem polled_of_nonneg (hlinux : 0 ≤ b.linuxEndpoint.rxFd) (htty : 0 ≤ b.ttyFd) :
    polled b = [b.linuxEndpoint.rxFd, b.ttyFd] ++
      if b.bcast.isConnected then [b.bcast.connFd] else [] := by
  refine List.filter_eq_self.mpr fun fd hfd => ?_
  rcases List.mem_append.mp hfd with hfd | hfd
  · rcases List.mem_pair.mp hfd with rfl | rfl
    · exact decide_eq_true hlinux
    · exact decide_eq_true htty
  · split at hfd
    next hconn =>
      rw [List.mem_singleton.mp hfd]
      exact decide_eq_true (b.bcast.isConnected_iff.mp hconn).2
    next => exact absurd hfd List.not_mem_nil

theorem sortEvents_of_apart (h : Apart b) (events : List ℤ) :
    sortEvents b events = ⟨b.bcast.isConnected && decide (b.bcast.connFd ∈ events),
      decide (b.linuxEndpoint.rxFd ∈ events), decide (b.ttyFd ∈ events)⟩ := by
  rw [sortEvents, foldl_sortEvent h]
  simp only [Bool.false_or, Ready.mk.injEq, and_true]
  split
  next hin =>
    have h0 := (b.bcast.isConnected_iff.mp hin.1).2
    simp [hin, h0]
  next hout =>
    have hoff : (b.bcast.isConnected && decide (b.bcast.connFd ∈ events)) = false := by
      rw [← Bool.not_eq_true, Bool.and_eq_true, decide_eq_true_iff]
      exact hout
    rw [hoff]
    rfl

end Sources

namespace Life

/-- While the dispatch thread is there it waits for three different open descriptors, or for
two while nobody is connected: a packet socket or its duplicate of each framer, and the
connection. Both framers have a session, and if their epoll calls have succeeded throughout the
run they receive; no number is skipped, and every event is taken for the source it is from,
whatever order they come in. -/
theorem dispatch_polls_open (ms : List Move) (s : Life) (hrun : exec step start ms = some s)
    (hG : Every step Tidy start ms) (hdispatching : s.object.dispatching = true) :
    let b := s.object
    polled b = [b.linuxEndpoint.rxFd, b.ttyFd] ++
        (if b.bcast.isConnected then [b.bcast.connFd] else []) ∧
      (polled b).Nodup ∧
      (s.ledger.held b.linuxEndpoint.rxFd = some .readyDup ∨
        s.ledger.held b.linuxEndpoint.rxFd = some .packetSocket) ∧
      (s.ledger.held b.ttyFd = some .readyDup ∨ s.ledger.held b.ttyFd = some .packetSocket) ∧
      (b.bcast.isConnected = true → s.ledger.held b.bcast.connFd = some .client) ∧
      b.linuxEndpoint.framer.Active ∧ b.mctpSerial.Active ∧
      ((∀ m ∈ ms, m.Registers) → b.linuxEndpoint.framer.Receives ∧ b.mctpSerial.Receives) ∧
      ∀ events, sortEvents b events = ⟨b.bcast.isConnected && decide (b.bcast.connFd ∈ events),
        decide (b.linuxEndpoint.rxFd ∈ events), decide (b.ttyFd ∈ events)⟩ := by
  obtain ⟨hinOrder, hwakes⟩ := run_wakes hrun hG
  obtain ⟨hidle, -, hrunning, hstale⟩ := hinOrder.fits.of_dispatching hdispatching
  rw [hidle] at hwakes
  obtain ⟨hlistens, hserves⟩ := hwakes hrunning
  have hall : s.descriptors = s.object.descriptors := by
    rw [descriptors, hidle]
    exact add_zero _
  have hholds := hinOrder.holds
  rw [hall] at hholds
  have hapart := apart_of_nodup hholds.nodup hlistens hserves hstale
  have hlinux := hlistens.mem
  have htty := hserves.mem
  have hmine {fd : ℤ} {xs : Multiset (ℤ × Origin)} (hle : xs ≤ s.object.descriptors)
      (h : ∃ t, (t = .readyDup ∨ t = .packetSocket) ∧ (fd, t) ∈ xs) :
      s.ledger.held fd = some .readyDup ∨ s.ledger.held fd = some .packetSocket := by
    obtain ⟨t, rfl | rfl, hmem⟩ := h
    · exact Or.inl ((hholds.held_iff _ _).mpr (Multiset.mem_of_le hle hmem))
    · exact Or.inr ((hholds.held_iff _ _).mpr (Multiset.mem_of_le hle hmem))
  have hpolled := polled_of_nonneg hlistens.nonneg hserves.nonneg
  refine ⟨hpolled, ?_, ?_, ?_, fun hconn => ?_, hlistens.active, hserves.active,
    fun hall => ⟨hlistens.receives hall, hserves.receives hall⟩, sortEvents_of_apart hapart⟩
  · rw [hpolled]
    split
    next hconn =>
      simp [hapart.linuxTty, (hapart.bcastLinux hconn).symm, (hapart.bcastTty hconn).symm]
    next => simp [hapart.linuxTty]
  · refine hmine ?_ hlinux
    simp only [Object.descriptors, add_assoc]
    exact Multiset.le_add_right _ _
  · refine hmine ?_ htty
    simp only [Object.descriptors, add_assoc]
    exact (Multiset.le_add_right _ _).trans (Multiset.le_add_left _ _)
  · exact (hholds.held_iff _ _).mpr (Multiset.mem_add.mpr (Or.inr (client_mem hstale hconn)))

/-- With a client the loop waits for the number of each of the three, and a client whose event
comes before that of the tty is served with it. -/
theorem dispatch_polls_open_client : ∃ s, exec step start (forwarderRun.take 8) = some s ∧
    (polled s.object).Nodup ∧ s.ledger.held s.object.bcast.connFd = some .client ∧
    s.object.linuxEndpoint.framer.Receives ∧ s.object.mctpSerial.Receives ∧
    polled s.object = [9, 74, 81] ∧ sortEvents s.object [81, 74] = ⟨true, false, true⟩ := by
  have hdone : (exec step start (forwarderRun.take 8)).map (fun s =>
      decide (s.object.dispatching = true ∧ s.object.bcast.isConnected = true ∧
        polled s.object = [9, 74, 81] ∧ sortEvents s.object [81, 74] = ⟨true, false, true⟩)) =
      some true := by
    decide +kernel
  have htidy : Every step Tidy start (forwarderRun.take 8) := by decide +kernel
  obtain ⟨s, hrun, hend⟩ := Option.map_eq_some_iff.mp hdone
  obtain ⟨hdispatching, hconn, hpolled, hsorted⟩ := of_decide_eq_true hend
  obtain ⟨-, hnodup, -, -, hclient, -, -, hreceives, -⟩ :=
    dispatch_polls_open _ s hrun htidy hdispatching
  obtain ⟨hlinux, htty⟩ := hreceives (by decide)
  exact ⟨s, hrun, hnodup, hclient hconn, hlinux, htty, hpolled, hsorted⟩

end Life

end MctpSerial.MctpBridge
