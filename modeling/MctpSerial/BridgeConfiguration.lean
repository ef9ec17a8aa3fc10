import MctpSerial.BridgeDescriptors
import MctpSerial.EndpointNames
import MctpSerial.RequestMeanings

/-!
# What a bridge tells the kernel

A bridge that is being opened has no name to ask for, so that its device keeps the name that
the kernel has given it. Once the device is found, the bytes that go to the kernel say the
address of the endpoint, if there is one, that the link is up, and one route for each peer, in
this order and whatever the kernel answers.
-/
namespace MctpSerial.LinuxMctpSerial
open MctpNetlink

/-- The netlink request that an effect stands for. -/
def Effect.call : Effect → Option Call
  | .setInterfaceName dev name =>
    some (.setMctpInterfaceName dev (name.toUTF8.data.toList.map UInt8.toBitVec))
  | .setLocalEid ifName eid => some (.setMctpLocalEid ifName eid)
  | .setInterfaceStatus ifName up => some (.setMctpInterfaceStatus ifName up)
  | .addRoute ifName eid => some (.addMctpRoute ifName eid)
  | _ => none

def netlinkCalls (log : List Effect) : List Call := log.filterMap Effect.call

/-- The messages of calls that are made one after another; `hosts` is what each of them meets,
from the one with number `i` on. -/
def messages (o : MemoryWalks.ByteOrder) (hosts : ℕ → Host) : ℕ → List Call → List (List Byte)
  | _, [] => []
  | i, c :: cs => (c.perform o (hosts i)).sent ++ messages o hosts (i + 1) cs

/-! ## The calls of an `initialize` -/

section Calls

variable {α : Type} {e : LinuxMctpSerial} {cs : SetupCalls} {localEid : Byte} {peerEids : List Byte}

theorem netlinkCalls_append (log log' : List Effect) :
    netlinkCalls (log ++ log') = netlinkCalls log ++ netlinkCalls log' :=
  List.filterMap_append

theorem Wordless.netlinkCalls {log : List Effect} (h : Wordless log) : netlinkCalls log = [] := by
  refine List.filterMap_eq_nil_iff.mpr fun x hx => ?_
  have hno := h x hx
  cases x with
  | setInterfaceName dev name => cases hno
  | setLocalEid ifName eid => cases hno
  | setInterfaceStatus ifName up => cases hno
  | addRoute ifName eid => cases hno
  | _ => rfl

/-- Without a name to ask for the turns only look. -/
theorem wordless_findDevice : Wordless (e.findDevice "" cs).2.1 := by
  have hturns : (awaitDevice (listMctpDevices cs.before) "" e.mctpIfName
      ((List.range 10).map cs.polls)).2.1 = [] :=
    List.eq_nil_iff_forall_not_mem.mpr fun x hx => (awaitDevice_renames _ _ _ _ x hx).1 rfl
  unfold findDevice
  split
  next name log hr =>
    rw [hr] at hturns
    dsimp only at hturns ⊢
    rw [hturns]
    exact List.forall_mem_nil _
  next name log err hr =>
    rw [hr] at hturns
    dsimp only at hturns
    refine forall_andThen ?_ fun e _ => wordless_abandon cs _
    rw [hturns]
    exact List.forall_mem_nil _

/-- A call has asked for nothing and throws, or it has asked for a whole configuration; if it
returns, then for the one of the device that it returns. -/
def Tells (localEid : Byte) (peerEids : List Byte) (r : Result String) : Prop :=
  (netlinkCalls r.2.1 = [] ∧ ∀ n, r.2.2 ≠ .ok n) ∨
    ∃ name, netlinkCalls r.2.1 = netlinkCalls (configuration name localEid peerEids) ∧
      ∀ n, r.2.2 = .ok n → n = name

theorem andThen_tells {r : Result α} {next : LinuxMctpSerial → α → Result String}
    (h : Wordless r.2.1) (hnext : ∀ e a, Tells localEid peerEids (next e a)) :
    Tells localEid peerEids (r.andThen next) := by
  obtain ⟨e, log, x⟩ := r
  cases x with
  | error err => exact Or.inl ⟨h.netlinkCalls, nofun⟩
  | ok a =>
    have hlog : netlinkCalls (log ++ (next e a).2.1) = netlinkCalls (next e a).2.1 := by
      rw [netlinkCalls_append, Wordless.netlinkCalls h, List.nil_append]
    rcases hnext e a with ⟨hcalls, hno⟩ | ⟨name, hcalls, hret⟩
    · exact Or.inl ⟨hlog.trans hcalls, hno⟩
    · exact Or.inr ⟨name, hlog.trans hcalls, hret⟩

theorem initializeLink_tells (e : LinuxMctpSerial) (localEid : Byte) (peerEids : List Byte)
    (cs : SetupCalls) : Tells localEid peerEids (e.initializeLink "" localEid peerEids cs) := by
  unfold initializeLink
  have hclosed : Wordless (if e.isUp then e.close cs.closeFirst else (e, [])).2 := by
    split
    next => exact wordless_close e cs.closeFirst
    next => exact List.forall_mem_nil _
  refine andThen_tells hclosed fun e₁ _ => ?_
  refine andThen_tells (wordless_openMaster cs) fun e₂ slaveName => ?_
  refine andThen_tells (wordless_openSlave slaveName cs) fun e₃ _ => ?_
  refine andThen_tells wordless_findDevice fun e₄ _ => ?_
  refine Or.inr ⟨e₄.mctpIfName, ?_, fun n hn => ?_⟩
  · rw [configure, Result.andThen, netlinkCalls_append, (wordless_attach cs).netlinkCalls,
      List.append_nil]
  · exact attach_returns (e := { e₄ with localEid := localEid }) cs hn

theorem initializeLink_calls {name : String}
    (h : (e.initializeLink "" localEid peerEids cs).2.2 = .ok name) :
    netlinkCalls (e.initializeLink "" localEid peerEids cs).2.1 =
      netlinkCalls (configuration name localEid peerEids) := by
  rcases initializeLink_tells e localEid peerEids cs with ⟨-, hno⟩ | ⟨name', hcalls, hret⟩
  · exact absurd h (hno name)
  · rw [hcalls, hret name h]

end Calls

/-! ## The bytes -/

/-- New routes to peers over one interface. -/
def routes (o : MemoryWalks.ByteOrder) (index : BitVec 32) (peerEids : List Byte) : List Request :=
  peerEids.map fun eid =>
    routeRequest o (nlmFRequest ||| nlmFCreate ||| nlmFExcl ||| nlmFAck) rtmNewroute index eid

/-- What the kernel is told of a link once its device is found. -/
def bringUp (o : MemoryWalks.ByteOrder) (index : BitVec 32) (localEid : Byte)
    (peerEids : List Byte) : List Request :=
  (if localEid ≠ 0 then [addrRequest rtmNewaddr index localEid] else []) ++
    linkRequest index iffUp iffUp .nil :: routes o index peerEids

section Bytes

variable {o : MemoryWalks.ByteOrder} {hosts : ℕ → Host} {index : BitVec 32}

/-- A call with a single request sends it once, accepted or not. -/
theorem messages_cons {i : ℕ} {c : MctpNetlink.Call} {cs : List MctpNetlink.Call} {q : Request}
    {qs : List Request} (hfound : (hosts i).ifindex ≠ 0) (hopened : (hosts i).opening = .opened)
    (hname : c.NameFits (hosts i)) (hasks : c.asks o (hosts i) = [q]) (hflagged : q.flagged = q)
    (hrest : List.Forall₂ (Decodes o) (messages o hosts (i + 1) cs) qs) :
    List.Forall₂ (Decodes o) (messages o hosts i (c :: cs)) (q :: qs) := by
  obtain ⟨hsent, -⟩ := c.perform_sends o (hosts i) hname
  have htried : ((hosts i).tries (c.asks o (hosts i))).1 = [q] := by
    rw [hasks, Host.tries, if_neg hfound, hopened]
    dsimp only
    rw [untilAccepted, untilAccepted]
    split <;> rfl
  rw [htried] at hsent
  generalize hmsgs : (c.perform o (hosts i)).sent = msgs at hsent
  rw [messages, hmsgs]
  cases hsent with
  | cons hmsg hnil =>
    cases hnil
    rw [hflagged] at hmsg
    exact .cons hmsg hrest

theorem messages_routes (hfound : ∀ i, (hosts i).ifindex = index ∧ (hosts i).opening = .opened)
    (hindex : index ≠ 0) (name : String) (peerEids : List Byte) (i : ℕ) :
    List.Forall₂ (Decodes o)
      (messages o hosts i (netlinkCalls (peerEids.map fun eid => .addRoute name eid)))
      (routes o index peerEids) := by
  induction peerEids generalizing i with
  | nil => exact .nil
  | cons eid peerEids ih =>
    obtain ⟨hhost, hopened⟩ := hfound i
    refine messages_cons (c := .addMctpRoute name eid) ?_ hopened trivial ?_ rfl (ih (i + 1))
    · rwa [hhost]
    · rw [Call.asks, hhost]

theorem messages_decode (hfound : ∀ i, (hosts i).ifindex = index ∧ (hosts i).opening = .opened)
    (hindex : index ≠ 0) (name : String) (localEid : Byte) (peerEids : List Byte) :
    List.Forall₂ (Decodes o)
      (messages o hosts 0 (netlinkCalls (configuration name localEid peerEids)))
      (bringUp o index localEid peerEids) := by
  have hreached (i : ℕ) : (hosts i).ifindex ≠ 0 := by rwa [(hfound i).1]
  have hstatus (i : ℕ) : List.Forall₂ (Decodes o) (messages o hosts i
      (.setMctpInterfaceStatus name true :: netlinkCalls (peerEids.map fun eid =>
        .addRoute name eid))) (linkRequest index iffUp iffUp .nil :: routes o index peerEids) := by
    refine messages_cons (hreached i) (hfound i).2 trivial ?_ rfl
      (messages_routes hfound hindex name peerEids (i + 1))
    rw [Call.asks, (hfound i).1]
    rfl
  unfold configuration bringUp
  split
  next =>
    refine messages_cons (c := .setMctpLocalEid name localEid) (hreached 0) (hfound 0).2 trivial
      ?_ rfl (hstatus 1)
    rw [Call.asks, (hfound 0).1]
  next => exact hstatus 0

end Bytes

end MctpSerial.LinuxMctpSerial

namespace MctpSerial.MctpBridge
open LinuxMctpSerial MctpNetlink GuardedRuns ManagedUsbTty

/-- A bridge that is about to bring up its endpoint has no name. -/
def Unnamed (b : Object) (stage : Stage) : Prop :=
  ∀ slaveDup, stage = .endpoint slaveDup → b.ifname = ""

section Parts

variable {b : Object}

theorem giveUp_idle (slaveDup : Option ℕ) (cs : CloseCalls) :
    (giveUp b slaveDup cs).2.1 = .idle := by
  cases slaveDup <;> rfl

theorem openBegins_unnamed (ttyPath : String) (useIdPathTag : Bool) (cs : CloseCalls)
    (usb : Forwarder.OpenCalls) (again : CloseCalls) :
    (openBegins b ttyPath useIdPathTag cs usb again).1.ifname = "" := by
  unfold openBegins
  dsimp only
  split
  next => rfl
  next =>
    split
    next => rfl
    next => rfl

theorem initEndpoint_stage (slaveDup : Option ℕ) (localEid : Byte) (peerEids : List Byte)
    (os : SetupCalls) (again : CloseCalls) (d : Option ℕ) :
    (initEndpoint b slaveDup localEid peerEids os again).2.1 ≠ .endpoint d := by
  unfold initEndpoint
  generalize b.linuxEndpoint.initializeLink b.ifname localEid peerEids os = r
  obtain ⟨linuxEndpoint, effects, x⟩ := r
  cases x with
  | error err =>
    dsimp only
    rw [giveUp_idle]
    nofun
  | ok name => nofun

theorem openBroadcast_stage (slaveDup : Option ℕ) (os : BcastMessenger.SetupCalls)
    (again : CloseCalls) (d : Option ℕ) :
    (openBroadcast b slaveDup os again).2.1 ≠ .endpoint d := by
  unfold openBroadcast
  dsimp only
  split
  next =>
    rw [giveUp_idle]
    nofun
  next => nofun

theorem attachFramer_stage (fd : ℕ) (os : TtyCalls) {giveUp : Object → Object × Stage × List Entry}
    (hgive : ∀ b, (giveUp b).2.1 = .idle) (d : Option ℕ) :
    (attachFramer b fd os giveUp).2.1 ≠ .endpoint d := by
  unfold attachFramer
  dsimp only
  split
  next => nofun
  next =>
    split
    next =>
      dsimp only
      rw [hgive]
      nofun
    next => nofun

theorem openTty_stage (slaveDup : Option ℕ) (os : TtyCalls) (again : CloseCalls) (d : Option ℕ) :
    (openTty b slaveDup os again).2.1 ≠ .endpoint d := by
  cases slaveDup with
  | some fd => exact attachFramer_stage fd os (fun b => giveUp_idle (some fd) again) d
  | none =>
    unfold openTty
    dsimp only
    cases os.openTty with
    | none =>
      dsimp only
      rw [giveUp_idle]
      nofun
    | some fd =>
      dsimp only
      split
      next => nofun
      next => exact attachFramer_stage fd os (fun b => rfl) d

end Parts

namespace Life

theorem unnamed_of_run {ms : List Move} {s : Life} (hrun : exec step start ms = some s) :
    Unnamed s.object s.stage := by
  refine invariant (fun _ s => Unnamed s.object s.stage) (fun _ _ => rfl) ?_ hrun
  intro _ s m t h hstep
  obtain ⟨r, hr, hobject, hstage⟩ := result_of_step hstep
  rw [hobject, hstage]
  have hidle (b : Object) : Unnamed b .idle := fun d hd => by cases hd
  refine result_keeps hr ?_ ?_ ?_ ?_ ?_ ?_ ?_ ?_
  · exact fun ttyPath useIdPathTag cs usb again _ _ _ =>
      openBegins_unnamed ttyPath useIdPathTag cs usb again
  · exact fun slaveDup localEid peerEids os again _ _ d hd =>
      absurd hd (initEndpoint_stage slaveDup localEid peerEids os again d)
  · exact fun slaveDup os again _ d hd => absurd hd (openBroadcast_stage slaveDup os again d)
  · exact fun slaveDup os again _ _ d hd => absurd hd (openTty_stage slaveDup os again d)
  · exact fun _ _ => hidle _
  · exact fun _ => hidle _
  · exact fun _ _ => hidle _
  · exact fun _ _ _ => h

/-- In every state of every run in which the kernel endpoint is brought up there is no name to
ask for, and no interface is renamed. What the kernel is told is nothing, and then the endpoint
does not come up, or all of the configuration of one interface, which is the one that is returned
if the endpoint comes up. If the interface is found and the sockets can be opened, these messages
are read back as the address of the endpoint if it is not zero, the link being up, and one route
for each peer, in this order and whatever each of them is answered. -/
theorem bridge_tells_kernel (ms : List Move) (s : Life) (hrun : exec step start ms = some s)
    (slaveDup : Option ℕ) (hstage : s.stage = .endpoint slaveDup) (localEid : Byte)
    (peerEids : List Byte) (os : SetupCalls) :
    let r := s.object.linuxEndpoint.initializeLink s.object.ifname localEid peerEids os
    s.object.ifname = "" ∧ (∀ dev name, Effect.setInterfaceName dev name ∉ r.2.1) ∧
      ((netlinkCalls r.2.1 = [] ∧ ∀ n, r.2.2 ≠ .ok n) ∨
        ∃ name, netlinkCalls r.2.1 = netlinkCalls (configuration name localEid peerEids) ∧
          (∀ n, r.2.2 = .ok n → n = name) ∧
          ∀ (o : MemoryWalks.ByteOrder) (hosts : ℕ → Host) (index : BitVec 32), index ≠ 0 →
            (∀ i, (hosts i).ifindex = index ∧ (hosts i).opening = .opened) →
            List.Forall₂ (Decodes o) (messages o hosts 0 (netlinkCalls r.2.1))
              (bringUp o index localEid peerEids)) := by
  have hname := unnamed_of_run hrun slaveDup hstage
  dsimp only
  rw [hname]
  refine ⟨rfl, fun dev name hmem => ?_, (initializeLink_tells _ _ _ _).imp_right ?_⟩
  · rcases initializeLink_asks "" localEid peerEids os _ hmem rfl with ⟨hreq, -⟩ | hconf
    · exact hreq rfl
    · cases hconf
  · rintro ⟨name, hcalls, hret⟩
    refine ⟨name, hcalls, hret, fun o hosts index hindex hfound => ?_⟩
    rw [hcalls]
    exact messages_decode hfound hindex name localEid peerEids

/-- A bridge behind a forwarder, whose endpoint is about to come up. -/
theorem forwarder_endpoint : ∃ s, exec step start (forwarderRun.take 3) = some s ∧
    s.stage = .endpoint (some 42) ∧ (s.object.linuxEndpoint.initializeLink s.object.ifname 9 [10]
      LinuxMctpSerial.Life.goodSetup).2.2 = .ok "mctpserial0" := by
  have hdone : (exec step start (forwarderRun.take 3)).map (fun s =>
      decide (s.stage = .endpoint (some 42) ∧ (s.object.linuxEndpoint.initializeLink
        s.object.ifname 9 [10] LinuxMctpSerial.Life.goodSetup).2.2.toOption =
          some "mctpserial0")) = some true := by
    decide +kernel
  obtain ⟨s, hrun, hend⟩ := Option.map_eq_some_iff.mp hdone
  obtain ⟨hstage, hup⟩ := of_decide_eq_true hend
  refine ⟨s, hrun, hstage, ?_⟩
  cases hr : (s.object.linuxEndpoint.initializeLink s.object.ifname 9 [10]
      LinuxMctpSerial.Life.goodSetup).2.2 with
  | error err =>
    rw [hr] at hup
    cases hup
  | ok name =>
    rw [hr] at hup
    rw [Option.some.inj hup]

/-- Its address, the link, and one peer. -/
theorem bridge_tells_kernel_forwarder : ∃ s, exec step start (forwarderRun.take 3) = some s ∧
    List.Forall₂ (Decodes .little)
      (messages .little (fun _ => willingHost) 0 (netlinkCalls
        (s.object.linuxEndpoint.initializeLink s.object.ifname 9 [10]
          LinuxMctpSerial.Life.goodSetup).2.1))
      [addrRequest rtmNewaddr 4 9, linkRequest 4 1 1 .nil,
        routeRequest .little 0x605 rtmNewroute 4 10] := by
  obtain ⟨s, hrun, hstage, hok⟩ := forwarder_endpoint
  obtain ⟨-, -, ⟨-, hno⟩ | ⟨name, -, -, hmessages⟩⟩ :=
    bridge_tells_kernel _ s hrun _ hstage 9 [10] LinuxMctpSerial.Life.goodSetup
  · exact absurd hok (hno _)
  · exact ⟨s, hrun, hmessages .little (fun _ => willingHost) 4 (by decide) fun _ => ⟨rfl, rfl⟩⟩

end Life

end MctpSerial.MctpBridge
