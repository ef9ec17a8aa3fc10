import MctpSerial.EndpointCalls

/-!
# Lives of the kernel endpoint

`Link` is what the kernel sees of an endpoint: a master, its slave with a line discipline,
and the framer on the master. `Link.observe` says in which order things may happen to it.
Every call leads from one phase of the object to another, in the books of its descriptors
and in the order that the kernel sees, whichever of the calls it makes fails.
-/
namespace MctpSerial
open DescriptorLedgers GuardedRuns

namespace MctpFramer

/-- Nothing is left of a session, and a thread is not either. -/
structure Resting (f : MctpFramer) : Prop where
  serialFd : f.serialFd = -1
  epollFd : f.epollFd = -1
  readyFdDup : f.readyFdDup = -1
  pipeFds : f.pipeFds = (-1, -1)
  intrPipeFds : f.intrPipeFds = (-1, -1)
  recvThread : f.recvThread = false
  terminated : f.terminated = false

/-- `close` brings the framer to rest. -/
structure Closable (f : MctpFramer) : Prop where
  wired : f.Wired
  joins : f.recvThread = true → f.running = true
  terminated : f.terminated = false

theorem resting_init : Resting init := ⟨rfl, rfl, rfl, rfl, rfl, rfl, rfl⟩

theorem Resting.wired {f : MctpFramer} (h : f.Resting) : f.Wired :=
  Or.inl ⟨h.pipeFds, h.intrPipeFds⟩

theorem Resting.closable {f : MctpFramer} (h : f.Resting) : f.Closable :=
  ⟨h.wired, fun ht => absurd (h.recvThread.symm.trans ht) Bool.false_ne_true, h.terminated⟩

theorem Resting.descriptors {f : MctpFramer} (h : f.Resting) : f.descriptors = 0 := by
  simp [MctpFramer.descriptors, fittings, h.serialFd, h.epollFd, h.readyFdDup, h.pipeFds,
    h.intrPipeFds]

theorem Closable.close {f : MctpFramer} (h : f.Closable) : f.close.Resting := by
  refine ⟨rfl, rfl, rfl, rfl, rfl, ?_, h.terminated⟩
  cases ht : f.recvThread with
  | false => simp [MctpFramer.close, ht]
  | true => simp [MctpFramer.close, ht, h.joins ht]

/-- On a framer at rest an opening call can lose nothing, and what it leaves can be closed. -/
theorem Resting.perform {f : MctpFramer} (h : f.Resting) (call : OpenCall) (os : OpenCalls)
    (thread : Bool) :
    Turns 0 (call.log f os) (f.perform call os thread).1.descriptors ∧
      (f.perform call os thread).1.Closable := by
  obtain ⟨lost, hlost, hturns, hwired⟩ := apply_turns h.wired call os
  have hnone : lost = 0 := by
    obtain rfl | ⟨-, rfl⟩ := hlost
    · rfl
    · rw [h.serialFd]
      rfl
  have hsane : f.Sane := .of_rest h.recvThread (by rw [h.serialFd]; decide) h.terminated
  rw [hnone, add_zero, h.descriptors] at hturns
  have hrest : (call.apply f os).1.recvThread = true → (call.apply f os).1.running = true := by
    cases apply_result os hsane h.recvThread call with
    | failed hret hthread hsane hno hG => exact fun ht => absurd (hthread.symm.trans ht) (by decide)
    | started hret hthread hsane hserial hreach => exact fun ht => (hsane.session ht).1
    | unopened hret hthread hcall hpipes hserial =>
      exact fun ht => absurd (hthread.symm.trans ht) (by decide)
  have halive : (call.apply f os).1.terminated = false := by
    have hkeep : (call.apply f os).1.terminated = f.terminated ∨
        (call.apply f os).1.terminated = (f.terminated || f.recvThread) := by
      cases call with
      | openPath =>
        simp only [OpenCall.apply, openPath]
        rw [openPipes_frame f os]
        repeat' split
        all_goals first | exact Or.inl rfl | exact Or.inr rfl
      | openFd fd =>
        simp only [OpenCall.apply, openFd]
        rw [openPipes_frame f os]
        repeat' split
        all_goals first | exact Or.inl rfl | exact Or.inr rfl
    simpa [h.terminated, h.recvThread] using hkeep
  rw [MctpFramer.perform]
  split
  next => exact ⟨hturns, hwired, fun ht => absurd (h.recvThread.symm.trans ht) (by decide),
    h.terminated⟩
  next => exact ⟨hturns, hwired, hrest, halive⟩

end MctpFramer

namespace LinuxMctpSerial
open MctpFramer

/-- What the kernel sees of an endpoint. `mctp` says whether `N_MCTP` was set on the slave
and the kernel has not been asked since to set the slave back. -/
structure Link where
  master : Bool
  slave : Option ℤ
  mctp : Bool
  framer : Bool
  deriving DecidableEq

/-- Nothing is there. -/
def Link.none : Link := ⟨false, Option.none, false, false⟩

/-- The order of things. The device is configured while the line discipline is set and
before the framer is attached; the framer leaves before the discipline is to be set back, and
this is asked for, granted or not, before the slave leaves, and the slave before the master. -/
def Link.observe (k : Link) : Effect → Option Link
  | .openMaster _ => if k.master then Option.none else some { k with master := true }
  | .openSlave fd =>
    if k.master ∧ k.slave = Option.none then some { k with slave := fd } else Option.none
  | .setMctp fd ok =>
    if k.slave = some fd ∧ k.mctp = false then some { k with mctp := ok } else Option.none
  | .setTty fd _ =>
    if k.slave = some fd ∧ k.framer = false then some { k with mctp := false } else Option.none
  | .closeSlave fd =>
    if k.slave = some fd ∧ k.mctp = false then some { k with slave := Option.none } else Option.none
  | .closeMaster _ =>
    if k.master ∧ k.slave = Option.none then some { k with master := false } else Option.none
  | .openFramer _ =>
    if k.mctp ∧ k.framer = false then some { k with framer := true } else Option.none
  | .closeFramer _ => some { k with framer := false }
  | _ => if k.mctp ∧ k.framer = false then some k else Option.none

/-- What the fields name. -/
def descriptors (e : LinuxMctpSerial) : Multiset (ℤ × Origin) :=
  e.framer.descriptors + named e.ptySlaveFd .ptySlave + named e.ptyMasterFd .ptyMaster

/-- The object and what the kernel sees of it, between any two effects. -/
inductive Phase (e : LinuxMctpSerial) : Link → Prop
  | down (hm : e.ptyMasterFd = -1) (hs : e.ptySlaveFd = -1) (hr : e.rxFd = -1)
      (hf : e.framer.Resting) : Phase e Link.none
  | master (m : ℕ) (hm : e.ptyMasterFd = m) (hs : e.ptySlaveFd = -1) (hr : e.rxFd = -1)
      (hf : e.framer.Resting) : Phase e ⟨true, Option.none, false, false⟩
  | slave (m s : ℕ) (mctp : Bool) (hm : e.ptyMasterFd = m) (hs : e.ptySlaveFd = s)
      (hr : e.rxFd = -1) (hf : e.framer.Resting) : Phase e ⟨true, some (s : ℤ), mctp, false⟩
  | up (m s : ℕ) (hm : e.ptyMasterFd = m) (hs : e.ptySlaveFd = s) (hf : e.framer.Closable) :
      Phase e ⟨true, some (s : ℤ), true, true⟩

/-- A part of a call, in the books and in the eyes of the kernel. -/
structure Leads (e : LinuxMctpSerial) (k : Link) (log : List Effect) (e' : LinuxMctpSerial)
    (k' : Link) : Prop where
  turns : Turns e.descriptors (log.flatMap Effect.events) e'.descriptors
  watch : exec Link.observe k log = some k'

section Parts

variable {e e' e'' : LinuxMctpSerial} {k k' k'' : Link} {log log' : List Effect}

theorem Leads.refl (h : e.descriptors = e'.descriptors) : Leads e k [] e' k :=
  ⟨(Turns.nil _).of_eq rfl h, rfl⟩

theorem Leads.trans (h : Leads e k log e' k') (h' : Leads e' k' log' e'' k'') :
    Leads e k (log ++ log') e'' k'' := by
  refine ⟨?_, ?_⟩
  · rw [List.flatMap_append]
    exact h.turns.trans h'.turns
  · rw [exec_append, h.watch]
    exact h'.watch

/-- `close` brings any phase down. -/
theorem Phase.close (h : Phase e k) (cs : ClosingCalls) :
    Leads e k (e.close cs).2 (e.close cs).1 Link.none ∧
      Phase (e.close cs).1 Link.none := by
  have hframer := close_turns e.framer
  have hneg : ¬ (0 : ℤ) ≤ -1 := by decide
  cases h with
  | down hm hs hr hf =>
    refine ⟨⟨?_, ?_⟩, .down ?_ ?_ rfl hf.closable.close⟩
    · simpa [LinuxMctpSerial.close, descriptors, hm, hs, Effect.events, descriptors_close] using
        hframer
    · simp [LinuxMctpSerial.close, hm, hs, exec, Link.observe, Link.none]
    · simp [LinuxMctpSerial.close, hm]
    · simp [LinuxMctpSerial.close, hs]
  | master m hm hs hr hf =>
    refine ⟨⟨?_, ?_⟩, .down ?_ ?_ rfl hf.closable.close⟩
    · simpa [LinuxMctpSerial.close, descriptors, hm, hs, Effect.events, descriptors_close] using
        hframer.append (.close_one (m : ℤ) .ptyMaster)
    · simp [LinuxMctpSerial.close, hm, hs, exec, Link.observe, Link.none]
    · simp [LinuxMctpSerial.close, hm]
    · simp [LinuxMctpSerial.close, hs]
  | slave m s mctp hm hs hr hf =>
    refine ⟨⟨?_, ?_⟩, .down ?_ ?_ rfl hf.closable.close⟩
    · simpa [LinuxMctpSerial.close, descriptors, hm, hs, Effect.events, descriptors_close] using
        (hframer.append (.close_one (s : ℤ) .ptySlave)).append (.close_one (m : ℤ) .ptyMaster)
    · simp [LinuxMctpSerial.close, hm, hs, exec, Link.observe, Link.none]
    · simp [LinuxMctpSerial.close, hm]
    · simp [LinuxMctpSerial.close, hs]
  | up m s hm hs hf =>
    refine ⟨⟨?_, ?_⟩, .down ?_ ?_ rfl hf.close⟩
    · simpa [LinuxMctpSerial.close, descriptors, hm, hs, Effect.events, descriptors_close] using
        (hframer.append (.close_one (s : ℤ) .ptySlave)).append (.close_one (m : ℤ) .ptyMaster)
    · simp [LinuxMctpSerial.close, hm, hs, exec, Link.observe, Link.none]
    · simp [LinuxMctpSerial.close, hm]
    · simp [LinuxMctpSerial.close, hs]

/-- A part of `initialize` from one phase to another: `G` if it returns, and with nothing
left if it throws; but when a thread cannot be created all is left as it is then. -/
def Ends {α : Type} (e : LinuxMctpSerial) (k : Link) (r : Result α) (G : Link → Prop) : Prop :=
  ∃ k', Leads e k r.2.1 r.1 k' ∧ Phase r.1 k' ∧
    match r.2.2 with
    | .ok _ => G k'
    | .error err => if err = .thread then k'.framer = true else k' = Link.none

variable {α β : Type} {G G' : Link → Prop}

theorem Ends.andThen {r : Result α} {next : LinuxMctpSerial → α → Result β} (h : Ends e k r G)
    (hnext : ∀ e' a k', Phase e' k' → G k' → Ends e' k' (next e' a) G') :
    Ends e k (r.andThen next) G' := by
  obtain ⟨e', log, x⟩ := r
  obtain ⟨k', hleads, hphase, hx⟩ := h
  cases x with
  | error err => exact ⟨k', hleads, hphase, hx⟩
  | ok a =>
    obtain ⟨k'', hleads', hphase', hx'⟩ := hnext e' a k' hphase hx
    exact ⟨k'', hleads.trans hleads', hphase', hx'⟩

theorem Ends.of_ok {a : α} (h : Leads e k log e' k') (hphase : Phase e' k') (hG : G k') :
    Ends e k (e', log, .ok a) G :=
  ⟨k', h, hphase, hG⟩

theorem Ends.of_descriptors {r : Result α} (h : Ends e' k r G)
    (hd : e.descriptors = e'.descriptors) : Ends e k r G := by
  obtain ⟨k', hleads, hrest⟩ := h
  exact ⟨k', ⟨hleads.turns.of_eq hd.symm rfl, hleads.watch⟩, hrest⟩

theorem Phase.abandon (h : Phase e k) (cs : SetupCalls) (err : InitError)
    (herr : err ≠ .thread := by simp) :
    Ends e k (e.abandon cs err : Result α) G := by
  obtain ⟨hleads, hphase⟩ := h.close cs.closeLast
  exact ⟨Link.none, hleads, hphase, (if_neg herr).mpr rfl⟩

end Parts

/-- A request over netlink. -/
def Effect.isRequest : Effect → Bool
  | .setInterfaceName _ _ => true
  | .setLocalEid _ _ => true
  | .setInterfaceStatus _ _ => true
  | .addRoute _ _ => true
  | _ => false

section Stages

variable {e e' : LinuxMctpSerial} {k : Link}

/-- The link is there to be configured. -/
def Link.Ready (k : Link) : Prop := k.mctp = true ∧ k.framer = false

theorem Leads.requests {log : List Effect} (hk : k.Ready) (hlog : ∀ x ∈ log, x.isRequest = true)
    (hdesc : e.descriptors = e'.descriptors) : Leads e k log e' k := by
  induction log with
  | nil => exact .refl hdesc
  | cons x log ih =>
    obtain ⟨hx, hrest⟩ := List.forall_mem_cons.mp hlog
    have hone : x.events = [] ∧ k.observe x = some k := by
      cases x with
      | setInterfaceName dev name => exact ⟨rfl, if_pos hk⟩
      | setLocalEid ifName eid => exact ⟨rfl, if_pos hk⟩
      | setInterfaceStatus ifName up => exact ⟨rfl, if_pos hk⟩
      | addRoute ifName eid => exact ⟨rfl, if_pos hk⟩
      | _ => cases hx
    obtain ⟨hturns, hwatch⟩ := ih hrest
    refine ⟨?_, ?_⟩
    · rw [List.flatMap_cons, hone.1]
      exact hturns
    · rw [exec, hone.2]
      exact hwatch

theorem scanListing_requests (before : List String) (requested : String) (renameOk : Bool)
    (name : String) (after : List String) :
    ∀ x ∈ (scanListing before requested renameOk name after).2.1, x.isRequest = true := by
  induction after generalizing name with
  | nil => nofun
  | cons dev after ih =>
    rw [scanListing]
    split
    next => exact ih name
    next =>
      split
      next =>
        split
        next => simp [Effect.isRequest]
        next => simp [Effect.isRequest]
      next => exact ih dev

theorem awaitDevice_requests (before : List String) (requested name : String) (ps : List Poll) :
    ∀ x ∈ (awaitDevice before requested name ps).2.1, x.isRequest = true := by
  induction ps generalizing name with
  | nil => nofun
  | cons p ps ih =>
    have hscan := scanListing_requests before requested p.renameOk name (listMctpDevices p.dir)
    rw [awaitDevice]
    split
    next hr =>
      rw [hr] at hscan
      exact hscan
    next name' log hr =>
      rw [hr] at hscan
      split
      next => exact hscan
      next =>
        intro x hx
        rcases List.mem_append.mp hx with hx | hx
        · exact hscan x hx
        · exact ih name' x hx

theorem Phase.master_fields (h : Phase e ⟨true, none, false, false⟩) : ∃ m : ℕ,
    e.ptyMasterFd = m ∧ e.ptySlaveFd = -1 ∧ e.rxFd = -1 ∧ e.framer.Resting := by
  cases h with
  | master m hm hs hr hf => exact ⟨m, hm, hs, hr, hf⟩

theorem Phase.slave_fields {s : ℤ} {mctp : Bool} (h : Phase e ⟨true, some s, mctp, false⟩) :
    ∃ m : ℕ, e.ptyMasterFd = m ∧ e.ptySlaveFd = s ∧ e.rxFd = -1 ∧ e.framer.Resting := by
  cases h with
  | slave m s mctp hm hs hr hf => exact ⟨m, hm, hs, hr, hf⟩

theorem openMaster_ends (h : Phase e Link.none) (cs : SetupCalls) :
    Ends e Link.none (e.openMaster cs) (· = ⟨true, none, false, false⟩) := by
  unfold openMaster
  cases cs.openpt with
  | none => exact ⟨Link.none, .refl rfl, h, rfl⟩
  | some m =>
    cases h with
    | down hm hs hr hf =>
    have hmaster : Leads e Link.none [.openMaster m] { e with ptyMasterFd := m }
        ⟨true, none, false, false⟩ := by
      refine ⟨(Turns.obtain_one (m : ℤ) Origin.ptyMaster).of_eq ?_ ?_, rfl⟩
      · simp [descriptors, hf.descriptors, hm, hs]
      · simp [descriptors, hf.descriptors, hs]
    refine (Ends.of_ok (G := (· = ⟨true, none, false, false⟩)) hmaster
      (.master m rfl hs hr hf) rfl).andThen ?_
    rintro e - _ h rfl
    split
    next => exact h.abandon cs .grant
    next =>
      cases cs.ptsname with
      | none => exact h.abandon cs .ptsname
      | some slaveName =>
        obtain ⟨m, hm, hs, hr, hf⟩ := h.master_fields
        have hphase : Phase { e with ptySlaveName := slaveName } ⟨true, none, false, false⟩ :=
          .master m hm hs hr hf
        exact Ends.of_ok (.refl rfl) hphase rfl

theorem openSlave_ends (h : Phase e ⟨true, none, false, false⟩) (slaveName : String)
    (cs : SetupCalls) :
    Ends e ⟨true, none, false, false⟩ (e.openSlave slaveName cs) Link.Ready := by
  unfold openSlave
  cases cs.openSlave with
  | none => exact h.abandon cs (.openSlave slaveName)
  | some slave =>
    obtain ⟨m, hm, hs, hr, hf⟩ := h.master_fields
    have hslave : Leads e ⟨true, none, false, false⟩ [.openSlave slave]
        { e with ptySlaveFd := slave } ⟨true, some (slave : ℤ), false, false⟩ := by
      refine ⟨((Turns.obtain_one (slave : ℤ) Origin.ptySlave).frame
        (named e.ptyMasterFd .ptyMaster)).of_eq ?_ ?_, rfl⟩
      · simp [descriptors, hf.descriptors, hs]
      · simp [descriptors, hf.descriptors]
    refine (Ends.of_ok (G := (· = ⟨true, some (slave : ℤ), false, false⟩)) hslave
      (.slave m slave false hm rfl hr hf) rfl).andThen ?_
    rintro e - _ h rfl
    split
    next => exact h.abandon cs .slaveNonblock
    next =>
      split
      next => exact h.abandon cs .masterNonblock
      next =>
        obtain ⟨m, hm, hs, hr, hf⟩ := h.slave_fields
        have hset : Leads e ⟨true, some (slave : ℤ), false, false⟩
            [.setMctp slave cs.lineDiscipline] e
            ⟨true, some (slave : ℤ), cs.lineDiscipline, false⟩ :=
          ⟨.nil _, by simp [exec, Link.observe]⟩
        refine (Ends.of_ok (G := (· = ⟨true, some (slave : ℤ), cs.lineDiscipline, false⟩))
          hset (.slave m slave cs.lineDiscipline hm hs hr hf) rfl).andThen ?_
        rintro e - _ h rfl
        cases hdisc : cs.lineDiscipline with
        | false =>
          rw [hdisc] at h
          exact h.abandon cs .lineDiscipline
        | true =>
          rw [hdisc] at h
          exact Ends.of_ok (.refl rfl) h ⟨rfl, rfl⟩

/-- The name is no concern of the kernel's order. -/
theorem Phase.rename (h : Phase e k) (name : String) : Phase { e with mctpIfName := name } k := by
  cases h with
  | down hm hs hr hf => exact .down hm hs hr hf
  | master m hm hs hr hf => exact .master m hm hs hr hf
  | slave m s mctp hm hs hr hf => exact .slave m s mctp hm hs hr hf
  | up m s hm hs hf => exact .up m s hm hs hf

theorem findDevice_ends (h : Phase e k) (hk : k.Ready) (requested : String) (cs : SetupCalls) :
    Ends e k (e.findDevice requested cs) (· = k) := by
  have hreq := awaitDevice_requests (listMctpDevices cs.before) requested e.mctpIfName
    ((List.range 10).map cs.polls)
  rw [findDevice]
  split
  next name log hr =>
    rw [hr] at hreq
    exact Ends.of_ok (Leads.requests hk hreq rfl) (h.rename name) rfl
  next name log err hr =>
    rw [hr] at hreq
    have hnamed : Ends e k ({ e with mctpIfName := name }, log, .ok ()) (· = k) :=
      Ends.of_ok (Leads.requests hk hreq rfl) (h.rename name) rfl
    exact hnamed.andThen fun e _ _ h _ => h.abandon cs (.discovery err)

theorem configuration_requests (ifName : String) (localEid : Byte) (peerEids : List Byte) :
    ∀ x ∈ configuration ifName localEid peerEids, x.isRequest = true := by
  intro x hx
  simp only [configuration, List.mem_append, List.mem_cons, List.mem_map] at hx
  obtain hx | rfl | ⟨eid, -, rfl⟩ := hx
  · split at hx
    next =>
      rw [List.mem_singleton.mp hx]
      rfl
    next => cases hx
  · rfl
  · rfl

theorem configure_ends (h : Phase e k) (hk : k.Ready) (localEid : Byte) (peerEids : List Byte) :
    Ends e k (e.configure localEid peerEids) (· = k) := by
  have hphase : Phase { e with localEid := localEid } k := by
    cases h with
    | down hm hs hr hf => exact .down hm hs hr hf
    | master m hm hs hr hf => exact .master m hm hs hr hf
    | slave m s mctp hm hs hr hf => exact .slave m s mctp hm hs hr hf
    | up m s hm hs hf => exact .up m s hm hs hf
  exact Ends.of_ok (Leads.requests hk (configuration_requests _ _ _) rfl) hphase rfl

theorem attach_ends (h : Phase e k) (hk : k.Ready) (cs : SetupCalls) :
    Ends e k (e.attach cs) (fun k => k.framer = true) := by
  cases h with
  | down => cases hk.1
  | master => cases hk.1
  | up => cases hk.2
  | slave m s mctp hm hs hr hf =>
    obtain rfl : mctp = true := hk.1
    unfold attach
    dsimp only
    obtain ⟨hturns, hclosable⟩ := hf.perform (.openFd e.ptyMasterFd) cs.framer cs.thread
    have hopen : Leads e ⟨true, some (s : ℤ), true, false⟩
        [.openFramer ((OpenCall.openFd e.ptyMasterFd).log e.framer cs.framer)]
        { e with framer := (e.framer.perform (.openFd e.ptyMasterFd) cs.framer cs.thread).1 }
        ⟨true, some (s : ℤ), true, true⟩ := by
      have hframed := hturns.frame (named e.ptySlaveFd .ptySlave + named e.ptyMasterFd .ptyMaster)
      refine ⟨?_, rfl⟩
      simpa [descriptors, hf.descriptors, Effect.events, add_assoc] using hframed
    refine (Ends.of_ok (G := (· = ⟨true, some (s : ℤ), true, true⟩)) hopen
      (.up m s hm hs hclosable) rfl).andThen ?_
    rintro e - _ h rfl
    split
    next => exact ⟨_, .refl rfl, h, rfl⟩
    next =>
      split
      next => exact h.abandon cs .attachFramer
      next =>
        split
        next => exact h.abandon cs .interfaceIndex
        next =>
          have hphase : Phase { e with rxFd := getFrameReadyFd e.framer }
              ⟨true, some (s : ℤ), true, true⟩ := by
            cases h with
            | up m s hm hs hf => exact .up m s hm hs hf
          split
          next => exact (hphase.abandon cs .readyFd).of_descriptors rfl
          next => exact Ends.of_ok (.refl rfl) hphase rfl

/-- `isUp` tells whether anything is left of the object's last use. -/
theorem Phase.of_not_isUp (h : Phase e k) (hup : e.isUp = false) : k = Link.none := by
  cases h with
  | down => rfl
  | master m hm hs hr hf => simp [isUp, hm] at hup
  | slave m s mctp hm hs hr hf => simp [isUp, hm] at hup
  | up m s hm hs hf => simp [isUp, hm] at hup

/-- Whatever was left before, and whichever call fails. -/
theorem initializeLink_ends (h : Phase e k) (requested : String) (localEid : Byte)
    (peerEids : List Byte) (cs : SetupCalls) :
    Ends e k (e.initializeLink requested localEid peerEids cs) (fun k => k.framer = true) := by
  have hfirst : Leads e k (if e.isUp then e.close cs.closeFirst else (e, [])).2
      (if e.isUp then e.close cs.closeFirst else (e, [])).1 Link.none ∧
      Phase (if e.isUp then e.close cs.closeFirst else (e, [])).1 Link.none := by
    cases hup : e.isUp with
    | true => exact h.close cs.closeFirst
    | false =>
      obtain rfl := h.of_not_isUp hup
      exact ⟨.refl rfl, h⟩
  unfold initializeLink
  refine (Ends.of_ok (G := (· = Link.none)) hfirst.1 hfirst.2 rfl).andThen ?_
  rintro e₁ - _ h₁ rfl
  refine (openMaster_ends h₁ cs).andThen ?_
  rintro e₂ slaveName _ h₂ rfl
  refine (openSlave_ends h₂ slaveName cs).andThen fun e₃ _ k₃ h₃ hk => ?_
  refine (findDevice_ends h₃ hk requested cs).andThen ?_
  rintro e₄ - _ h₄ rfl
  refine (configure_ends h₄ hk localEid peerEids).andThen ?_
  rintro e₅ - _ h₅ rfl
  exact attach_ends h₅ hk cs

end Stages

/-- A call of the object, with the results of the calls it makes. -/
inductive Op where
  | setUp (requested : String) (localEid : Byte) (peerEids : List Byte) (cs : SetupCalls)
  | close (cs : ClosingCalls)
  | destroy (cs : ClosingCalls)

def Op.apply (e : LinuxMctpSerial) : Op → LinuxMctpSerial × List Effect
  | .setUp requested localEid peerEids cs =>
    let r := e.initializeLink requested localEid peerEids cs
    (r.1, r.2.1)
  | .close cs => e.close cs
  | .destroy cs => e.close cs

/-- The call gives up, and not for want of a thread, or is meant to leave nothing. -/
def Op.Releases (e : LinuxMctpSerial) : Op → Prop
  | .setUp requested localEid peerEids cs =>
    ∃ err, err ≠ .thread ∧ (e.initializeLink requested localEid peerEids cs).2.2 = .error err
  | _ => True

/-- An endpoint, the books of its descriptors, and all its effects. -/
structure Life where
  endpoint : LinuxMctpSerial
  ledger : Ledger ℤ Origin
  history : List Effect
  destroyed : Bool

namespace Life

def start : Life := ⟨.init, .empty, [], false⟩

/-- One call, on a system that hands out no number that is held. The destructor is the last. -/
def step (s : Life) (op : Op) : Option Life :=
  if s.destroyed then none
  else
    let (e, log) := op.apply s.endpoint
    if s.ledger.Fresh (log.flatMap Effect.events) then
      some ⟨e, s.ledger.postAll (log.flatMap Effect.events), s.history ++ log,
        match op with | .destroy _ => true | _ => false⟩
    else none

/-- The books agree with the fields, and the kernel has seen what it wants to see. -/
structure InOrder (s : Life) (k : Link) : Prop where
  watch : exec Link.observe Link.none s.history = some k
  phase : Phase s.endpoint k
  holds : s.ledger.Holds s.endpoint.descriptors
  strays : s.ledger.strays = []

theorem inOrder_start : InOrder start Link.none :=
  ⟨rfl, .down rfl rfl rfl resting_init, Ledger.holds_empty, rfl⟩

theorem apply_leads {e : LinuxMctpSerial} {k : Link} (h : Phase e k) (op : Op) :
    ∃ k', Leads e k (op.apply e).2 (op.apply e).1 k' ∧ Phase (op.apply e).1 k' ∧
      (op.Releases e → k' = Link.none) := by
  cases op with
  | setUp requested localEid peerEids cs =>
    obtain ⟨k', hleads, hphase, hx⟩ := initializeLink_ends h requested localEid peerEids cs
    refine ⟨k', hleads, hphase, ?_⟩
    rintro ⟨err, hne, herr⟩
    rw [herr] at hx
    exact (if_neg hne).mp hx
  | close cs =>
    obtain ⟨hleads, hphase⟩ := h.close cs
    exact ⟨Link.none, hleads, hphase, fun _ => rfl⟩
  | destroy cs =>
    obtain ⟨hleads, hphase⟩ := h.close cs
    exact ⟨Link.none, hleads, hphase, fun _ => rfl⟩

theorem inOrder_step {s t : Life} {k : Link} {op : Op} (h : InOrder s k)
    (hstep : s.step op = some t) :
    ∃ k', InOrder t k' ∧ (op.Releases s.endpoint → k' = Link.none) := by
  unfold step at hstep
  split at hstep
  next => cases hstep
  next =>
    dsimp only at hstep
    split at hstep
    next hfresh =>
      obtain ⟨k', hleads, hphase, hrel⟩ := apply_leads h.phase op
      obtain ⟨hholds, hstrays⟩ := hleads.turns.holds h.holds hfresh
      cases hstep
      refine ⟨k', ⟨?_, hphase, hholds, hstrays.trans h.strays⟩, hrel⟩
      rw [exec_append, h.watch]
      exact hleads.watch
    next => cases hstep

theorem inOrder_run {ops : List Op} {s : Life} (hrun : exec step start ops = some s) :
    ∃ k, InOrder s k :=
  invariant (fun _ s => ∃ k, InOrder s k) ⟨Link.none, inOrder_start⟩
    (fun _ _ _ _ ⟨_, h⟩ hstep => (inOrder_step h hstep).imp fun _ h => h.1) hrun

theorem Phase.isUp_eq_false_iff {e : LinuxMctpSerial} {k : Link} (h : Phase e k) :
    e.isUp = false ↔ k = Link.none := by
  refine ⟨h.of_not_isUp, fun hk => ?_⟩
  cases h with
  | down hm hs hr hf => simp [isUp, hm, hs, hr]
  | master => cases hk
  | slave => cases hk
  | up => cases hk

theorem descriptors_of_not_isUp {e : LinuxMctpSerial} {k : Link} (h : Phase e k)
    (hup : e.isUp = false) : e.descriptors = 0 := by
  obtain rfl := h.of_not_isUp hup
  cases h with
  | down hm hs hr hf => simp [descriptors, hf.descriptors, hm, hs]

/-- In every life of an endpoint, whichever calls fail, the descriptors that are open are
those that its fields and its framer's name, each once, and no close is stray. A failed
`initialize` leaves nothing open unless a thread could not be created, and neither does
`close`. -/
theorem endpoint_owns_descriptors (ops : List Op) (s : Life)
    (hrun : exec step start ops = some s) :
    s.ledger.strays = [] ∧ (s.endpoint.descriptors.map Prod.fst).Nodup ∧
      (∀ fd t, s.ledger.held fd = some t ↔ (fd, t) ∈ s.endpoint.descriptors) ∧
      ∀ op u, s.step op = some u → op.Releases s.endpoint →
        u.endpoint.isUp = false ∧ ∀ fd, u.ledger.held fd = none := by
  obtain ⟨k, h⟩ := inOrder_run hrun
  refine ⟨h.strays, h.holds.nodup, h.holds.held_iff, fun op u hstep hrel => ?_⟩
  obtain ⟨k', h', hk'⟩ := inOrder_step h hstep
  have hup : u.endpoint.isUp = false := (Phase.isUp_eq_false_iff h'.phase).mpr (hk' hrel)
  refine ⟨hup, fun fd => ?_⟩
  rw [h'.holds.held_eq_none_iff, descriptors_of_not_isUp h'.phase hup]
  exact Multiset.notMem_zero fd

/-- Calls that all succeed; the device `mctpserial0` shows up at once and goes at once. -/
def goodSetup : SetupCalls where
  closeFirst := ⟨true, fun _ => some []⟩
  before := some []
  openpt := some 20
  grantpt := true
  unlockpt := true
  ptsname := some "/dev/pts/7"
  openSlave := some 21
  slaveNonblock := true
  masterNonblock := true
  lineDiscipline := true
  polls _ := listed ["mctpserial0"]
  framer := goodCalls
  thread := true
  ifIndex := true
  closeLast := ⟨true, fun _ => some []⟩

/-- A success, a second use that finds the first one, a failure halfway, and the end. -/
def uses : List Op :=
  [.setUp "" 9 [10] goodSetup, .setUp "mctp0" 0 [10, 11] goodSetup,
    .setUp "" 9 [] { goodSetup with framer := missingDevice },
    .destroy ⟨true, fun _ => some []⟩]

theorem endpoint_owns_descriptors_uses : ∃ s, exec step start uses = some s ∧
    s.ledger.strays = [] ∧
      ∀ fd t, s.ledger.held fd = some t ↔ (fd, t) ∈ s.endpoint.descriptors := by
  have hdone : (exec step start uses).isSome = true := by decide +kernel
  obtain ⟨s, hrun⟩ := Option.isSome_iff_exists.mp hdone
  obtain ⟨hstrays, -, hheld, -⟩ := endpoint_owns_descriptors uses s hrun
  exact ⟨s, hrun, hstrays, hheld⟩

/-- The kernel sees every life of an endpoint in the right order: the device is configured
while the line discipline is set and no framer reads from the master; the kernel is asked to
set the discipline back after the framer has left and before the slave is closed, and the slave
is closed before the master. An object that is not in use has left nothing behind. -/
theorem endpoint_keeps_order (ops : List Op) (s : Life) (hrun : exec step start ops = some s) :
    ∃ k, exec Link.observe Link.none s.history = some k ∧
      (s.endpoint.isUp = false ↔ k = Link.none) ∧
      (k.slave = if 0 ≤ s.endpoint.ptySlaveFd then some s.endpoint.ptySlaveFd else none) ∧
      (k.master = decide (0 ≤ s.endpoint.ptyMasterFd)) := by
  obtain ⟨k, h⟩ := inOrder_run hrun
  refine ⟨k, h.watch, Phase.isUp_eq_false_iff h.phase, ?_, ?_⟩
  · cases h.phase with
    | down hm hs hr hf => simp [hs, Link.none]
    | master m hm hs hr hf => simp [hs]
    | slave m s mctp hm hs hr hf => simp [hs]
    | up m s hm hs hf => simp [hs]
  · cases h.phase with
    | down hm hs hr hf => simp [hm, Link.none]
    | master m hm hs hr hf => simp [hm]
    | slave m s mctp hm hs hr hf => simp [hm]
    | up m s hm hs hf => simp [hm]

theorem endpoint_keeps_order_uses : ∃ s k, exec step start uses = some s ∧
    exec Link.observe Link.none s.history = some k := by
  have hdone : (exec step start uses).isSome = true := by decide +kernel
  obtain ⟨s, hrun⟩ := Option.isSome_iff_exists.mp hdone
  obtain ⟨k, hwatch, -⟩ := endpoint_keeps_order uses s hrun
  exact ⟨s, k, hrun, hwatch⟩

end Life

end LinuxMctpSerial
end MctpSerial
