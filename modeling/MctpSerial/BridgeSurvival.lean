import MctpSerial.BridgeDispatch

/-!
# Survival of the dispatch loop

`run` is meant to end only after `running` was cleared. Two other ends exist: the exception
that `acceptConnection` throws for an error other than `EAGAIN`, which nothing catches,
and the signal raised by `sendMessage` on a connection whose peer has closed. They are the
only ones, and `Survivable` says which steps take them.
-/
namespace MctpSerial.MctpBridge
open MctpFramer StreamTransducers GuardedRuns

/-- The ends of the dispatch thread that nobody asked for. -/
def Phase.isCrash : Phase → Bool
  | .thrown _ => true
  | .killed => true
  | _ => false

/-- The thread has not crashed, and `run` was left only with `running` false. -/
def Survives (s : MctpBridge) : Prop :=
  s.phase.isCrash = false ∧ (s.phase = .exited → s.running = false)

/-- The step reads a broadcast from the serial side while a client is connected. -/
def ForClient (s : MctpBridge) (r : Port.ReadResult) (beyond : Byte) : Prop :=
  ∃ ready, s.phase = .tty ready ∧ ready.tty = true ∧ s.bcast.isConnected = true ∧
    ∃ msg source, s.mctpSerial.receive r = some (msg, source) ∧ msg ≠ [] ∧
      isBroadcastEid (destEid msg beyond) = true

/-- An `accept` that fails does so because nobody is waiting, and a broadcast for the
client finds its end of the connection open. -/
def Survivable (s : MctpBridge) : Label → Prop
  | .accept r _ => r ≠ .failed
  | .serveTty r beyond _ _ => ForClient s r beyond → s.client.peerOpen = true
  | _ => True

section Runs

variable {s t : MctpBridge} {l : Label}

/-- `run` is left only at the head of its loop. -/
theorem exited_step (h : s.phase = .exited → s.running = false) (hstep : s.step l = some t) :
    t.phase = .exited → t.running = false := by
  intro ht
  cases moves_of_step hstep with
  | stop => rfl
  | leave hp hr => exact hr
  | serialByte b room => exact h ht
  | linuxByte b room => exact h ht
  | clientSend d hconn => exact h ht
  | clientClose hconn => exact h ht
  | _ => cases ht

theorem survivable_serveTty {ready : Ready} {r : Port.ReadResult} {beyond : Byte} {ok : Bool}
    {os : List WriteOutcome} (hp : s.phase = .tty ready)
    (h : ready.tty = true → s.bcast.isConnected = true →
      ∀ msg source, s.mctpSerial.receive r = some (msg, source) → msg ≠ [] →
        isBroadcastEid (destEid msg beyond) = true → s.client.peerOpen = true) :
    Survivable s (.serveTty r beyond ok os) := by
  rintro ⟨ready', hp', hr, hconn, msg, source, hread, hmsg, hdest⟩
  obtain rfl : ready = ready' := Phase.tty.inj (hp.symm.trans hp')
  exact h hr hconn msg source hread hmsg hdest

/-- A step crashes the thread exactly when it is not survivable. -/
theorem isCrash_step_iff (hstep : s.step l = some t) :
    t.phase.isCrash = false ↔ s.phase.isCrash = false ∧ Survivable s l := by
  have alive {ph : Phase} (hp : s.phase = ph) (hph : ph.isCrash = false)
      (hs : Survivable s l) (ht : t.phase.isCrash = false) :
      t.phase.isCrash = false ↔ s.phase.isCrash = false ∧ Survivable s l :=
    iff_of_true ht ⟨by rw [hp, hph], hs⟩
  cases moves_of_step hstep with
  | serialByte b room => exact (and_iff_left trivial).symm
  | linuxByte b room => exact (and_iff_left trivial).symm
  | clientSend d hconn => exact (and_iff_left trivial).symm
  | clientClose hconn => exact (and_iff_left trivial).symm
  | stop => exact (and_iff_left trivial).symm
  | leave hp hr => exact alive hp rfl trivial rfl
  | keep hp hconn => exact alive hp rfl trivial rfl
  | accepted fd c hp hconn => exact alive hp rfl nofun rfl
  | acceptBlocked c hp hconn => exact alive hp rfl nofun rfl
  | acceptFailed c hp hconn => exact iff_of_false nofun fun h => h.2 rfl
  | idle created ready hp => exact alive hp rfl trivial rfl
  | ready r hp => exact alive hp rfl trivial rfl
  | bcastSkip ready r beyond os hp hr => exact alive hp rfl trivial rfl
  | bcastNothing ready r beyond os answer client hp hr hrecv hmsg => exact alive hp rfl trivial rfl
  | bcastIgnored ready beyond os d rest hp hr hq hconn hd hdest => exact alive hp rfl trivial rfl
  | bcastRelayed ready beyond os d rest port hp hr hq hconn hd hdest hsend =>
    exact alive hp rfl trivial rfl
  | linuxSkip ready r os hp hr => exact alive hp rfl trivial rfl
  | linuxRelayed ready r os msg source port hp hr hread hsend => exact alive hp rfl trivial rfl
  | ttySkip ready r beyond ok os hp hr =>
    refine alive hp rfl (survivable_serveTty hp fun hr' => ?_) rfl
    rw [hr] at hr'
    cases hr'
  | ttyNothing ready r beyond ok os source hp hr hread =>
    refine alive hp rfl (survivable_serveTty hp fun _ _ msg source' hread' hmsg => ?_) rfl
    rw [hread] at hread'
    cases hread'
    exact absurd rfl hmsg
  | ttyDropped ready r beyond ok os msg source hp hr hread hmsg hdest hdrop =>
    refine alive hp rfl (survivable_serveTty hp fun _ hconn _ _ _ _ _ => ?_) rfl
    rcases hdrop with hoff | ⟨hpeer, -⟩
    · rw [hoff] at hconn
      cases hconn
    · exact hpeer
  | ttyKilled ready r beyond ok os msg source hp hr hread hmsg hdest hconn hpeer =>
    refine iff_of_false nofun fun h => ?_
    have hopen := h.2 ⟨ready, hp, hr, hconn, msg, source, hread, hmsg, hdest⟩
    rw [hpeer] at hopen
    cases hopen
  | ttySent ready r beyond os msg source hp hr hread hmsg hdest hconn hpeer =>
    exact alive hp rfl (survivable_serveTty hp fun _ _ _ _ _ _ _ => hpeer) rfl
  | ttyRelayed ready r beyond ok os msg source port hp hr hread hmsg hdest hsend =>
    refine alive hp rfl (survivable_serveTty hp fun _ _ msg' source' hread' _ hdest' => ?_) rfl
    rw [hread] at hread'
    cases hread'
    rw [hdest] at hdest'
    cases hdest'

end Runs

/-- The dispatch loop survives exactly the runs in which no `accept` fails but for want of
a client and no broadcast is relayed to a client that has closed its end. -/
theorem survives_iff (serialRx linuxRx : Rx) (m : BcastMessenger) (path : String) (fd : ℕ)
    (ls : List Label) (s : MctpBridge)
    (hrun : exec step (start serialRx linuxRx m path fd) ls = some s) :
    Survives s ↔ Every step Survivable (start serialRx linuxRx m path fd) ls := by
  have hexit : s.phase = .exited → s.running = false :=
    invariant (fun _ s => s.phase = .exited → s.running = false) (by intro h; cases h)
      (fun _ _ _ _ h hstep => exited_step h hstep) hrun
  have hiff := iff_every (G := Survivable) (fun _ _ => True) (fun _ s => s.phase.isCrash = false)
    rfl (fun _ => trivial) (fun _ _ _ _ _ hstep => isCrash_step_iff hstep) hrun
  rw [← hiff]
  exact and_iff_left hexit

/-- A client disappears between the wake-up and the delivery of a broadcast. -/
def goneRun : List Label :=
  (buildWire hail).map (Label.serialByte · true) ++
    [.accept (.client 7) ⟨[], true⟩, .wait true (some ⟨false, false, true⟩),
      .serveBcast .wouldBlock 0 [], .clientClose, .serveLinux .failed [],
      .serveTty .packet 0 true []]

theorem survives_hail : ∃ s,
    exec step (start Rx.init Rx.init .init "bcast" 3) hailRun = some s ∧
    Every step Survivable (start Rx.init Rx.init .init "bcast" 3) hailRun := by
  have hout : (exec step (start Rx.init Rx.init .init "bcast" 3) hailRun).map
      (fun s => s.phase) = some .loop := by
    decide +kernel
  obtain ⟨s, hrun, hs⟩ := Option.map_eq_some_iff.mp hout
  exact ⟨s, hrun, (survives_iff Rx.init Rx.init .init "bcast" 3 hailRun s hrun).mp
    ⟨by rw [hs]; rfl, by rw [hs]; nofun⟩⟩

/-- Neither an aborted connection nor a client that goes away is survived. -/
theorem clients_end_the_loop :
    (∃ s, exec step (start Rx.init Rx.init .init "bcast" 3) [.accept .failed ⟨[], false⟩] = some s ∧
      s.running = true ∧ s.phase = .thrown "accept() failed" ∧ ¬ Survives s) ∧
    ∃ s, exec step (start Rx.init Rx.init .init "bcast" 3) goneRun = some s ∧
      s.running = true ∧ s.phase = .killed ∧ ¬ Survives s := by
  have crash {ls : List Label} {ph : Phase} (hph : ph.isCrash = true)
      (h : (exec step (start Rx.init Rx.init .init "bcast" 3) ls).map
        (fun s => (s.running, s.phase)) = some (true, ph)) :
      ∃ s, exec step (start Rx.init Rx.init .init "bcast" 3) ls = some s ∧
        s.running = true ∧ s.phase = ph ∧ ¬ Survives s := by
    obtain ⟨s, hrun, hs⟩ := Option.map_eq_some_iff.mp h
    have hphase : s.phase = ph := congrArg Prod.snd hs
    refine ⟨s, hrun, congrArg Prod.fst hs, hphase, fun hlive => ?_⟩
    rw [Survives, hphase, hph] at hlive
    cases hlive.1
  exact ⟨crash rfl (by decide +kernel), crash rfl (by decide +kernel)⟩

end MctpSerial.MctpBridge
