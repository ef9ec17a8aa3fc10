import MctpSerial.OpeningReports
import MctpSerial.DescriptorOwnership
import Mathlib.Tactic.Abel

/-!
# Descriptors of a framer object

The logs of the calls that `open`, `openFd` and `close` make, beside the fields that these
leave behind. Failed calls keep the pipes for the next one, and a session that ends in
`close` gives everything back. The guard of the opening calls takes a session on descriptor
0 for none, so that its descriptor is overwritten: nothing else is ever lost.
-/
namespace MctpSerial

/-- What a descriptor of the program was obtained for. -/
inductive Origin where
  | packetSocket
  | interruptPipe
  | serial
  | readyDup
  | epoll
  | ptyMaster
  | ptySlave
  | tty
  | usbMaster
  | usbSlave
  | usbEpoll
  | physical
  | listener
  | client
  deriving DecidableEq

namespace MctpFramer
open DescriptorLedgers GuardedRuns

/-- The entry of a call that returns a descriptor or fails. -/
def obtaining (o : Option ℕ) (t : Origin) : List (Event ℤ Origin) :=
  match o with
  | none => []
  | some fd => [.obtained fd t]

/-- The entries of a call that returns two descriptors or fails. -/
def obtainingPair (o : Option (ℕ × ℕ)) (t : Origin) : List (Event ℤ Origin) :=
  match o with
  | none => []
  | some (a, b) => [.obtained a t, .obtained b t]

/-- The calls of `openPipes`: a missing interrupt pipe closes the socket pair. -/
def openPipesLog (f : MctpFramer) (os : OpenCalls) : List (Event ℤ Origin) :=
  let paired := if f.pipeFds.1 < 0 then obtainingPair os.socketpair .packetSocket else []
  if f.pipeFds.1 < 0 ∧ os.socketpair = none then paired
  else if f.intrPipeFds.1 < 0 then
    match os.pipe with
    | none =>
      let fds : ℤ × ℤ := if f.pipeFds.1 < 0 then
        os.socketpair.elim f.pipeFds fun (a, b) => (a, b) else f.pipeFds
      paired ++ [.closed fds.1, .closed fds.2]
    | some p => paired ++ obtainingPair (some p) .interruptPipe
  else paired

def startSessionLog (f : MctpFramer) (os : OpenCalls) : List (Event ℤ Origin) :=
  (if f.readyFdDup < 0 ∧ f.pipeFds.1 ≥ 0 then obtaining os.dup .readyDup else []) ++
    (if f.epollFd < 0 then obtaining os.epollCreate .epoll else [])

def openPathLog (f : MctpFramer) (os : OpenCalls) : List (Event ℤ Origin) :=
  if f.serialFd > 0 then []
  else if !(f.openPipes os).2 then f.openPipesLog os
  else
    match os.serial with
    | none => f.openPipesLog os
    | some fd =>
      if !os.tcgetattr || !os.tcsetattr then
        f.openPipesLog os ++ [.obtained fd .serial, .closed fd]
      else f.openPipesLog os ++ .obtained fd .serial :: (f.openPipes os).1.startSessionLog os

def openFdLog (f : MctpFramer) (fd : ℤ) (os : OpenCalls) : List (Event ℤ Origin) :=
  if f.serialFd > 0 then []
  else if fd < 0 then []
  else if !(f.openPipes os).2 then f.openPipesLog os
  else
    match os.serial with
    | none => f.openPipesLog os
    | some dupfd =>
      f.openPipesLog os ++ .obtained dupfd .serial :: (f.openPipes os).1.startSessionLog os

def OpenCall.log : OpenCall → MctpFramer → OpenCalls → List (Event ℤ Origin)
  | .openPath, f, os => f.openPathLog os
  | .openFd fd, f, os => f.openFdLog fd os

/-- `close` closes each field that is set, in this order. -/
def closeLog (f : MctpFramer) : List (Event ℤ Origin) :=
  closing f.serialFd ++ closing f.epollFd ++ closing f.readyFdDup ++ closing f.pipeFds.1 ++
    closing f.pipeFds.2 ++ closing f.intrPipeFds.1 ++ closing f.intrPipeFds.2

def Call.log : Call → MctpFramer → List (Event ℤ Origin)
  | .opening call os _, f => call.log f os
  | .close, f => f.closeLog

/-- What the fields other than `serial_fd` name. -/
def fittings (f : MctpFramer) : Multiset (ℤ × Origin) :=
  named f.epollFd .epoll + named f.readyFdDup .readyDup + named f.pipeFds.1 .packetSocket +
    named f.pipeFds.2 .packetSocket + named f.intrPipeFds.1 .interruptPipe +
    named f.intrPipeFds.2 .interruptPipe

/-- What the fields name. -/
def descriptors (f : MctpFramer) : Multiset (ℤ × Origin) := named f.serialFd .serial + f.fittings

/-- The pipes are made and closed together. -/
def Wired (f : MctpFramer) : Prop :=
  (f.pipeFds = (-1, -1) ∧ f.intrPipeFds = (-1, -1)) ∨
    ∃ a b c d : ℕ, f.pipeFds = ((a : ℤ), (b : ℤ)) ∧ f.intrPipeFds = ((c : ℤ), (d : ℤ))

theorem obtaining_turns (o : Option ℕ) (t : Origin) :
    Turns 0 (obtaining o t) (named (fdOf o) t) := by
  cases o with
  | none => exact .nil 0
  | some fd =>
    rw [fdOf, Option.elim_some, named_natCast]
    exact .obtain_one _ t

theorem obtainingPair_turns (a b : ℕ) (t : Origin) :
    Turns 0 (obtainingPair (some (a, b)) t) (named (a : ℤ) t + named (b : ℤ) t) := by
  rw [named_natCast, named_natCast]
  exact (Turns.obtain_one (a : ℤ) t).append (.obtain_one (b : ℤ) t)

section Calls

variable {f : MctpFramer}

/-- With all pipes missing or all there, the calls of `openPipes` do what the fields say. -/
theorem openPipes_turns (h : f.Wired) (os : OpenCalls) :
    Turns f.fittings (f.openPipesLog os) (f.openPipes os).1.fittings ∧
      (f.openPipes os).1.Wired := by
  obtain ⟨hp, hi⟩ | ⟨a, b, c, d, hp, hi⟩ := h
  · have hrest : f.fittings = named f.epollFd .epoll + named f.readyFdDup .readyDup := by
      simp [fittings, hp, hi]
    cases hs : os.socketpair with
    | none =>
      have hopen : f.openPipes os = (f, false) := by simp [openPipes, hp, hs]
      have hlog : f.openPipesLog os = [] := by simp [openPipesLog, hp, hs, obtainingPair]
      rw [hopen, hlog]
      exact ⟨.nil _, Or.inl ⟨hp, hi⟩⟩
    | some p =>
      obtain ⟨a, b⟩ := p
      have hpair := obtainingPair_turns a b .packetSocket
      cases hq : os.pipe with
      | none =>
        have hopen : f.openPipes os = ({ f with pipeFds := (-1, -1) }, false) := by
          simp [openPipes, hp, hi, hs, hq]
        have hlog : f.openPipesLog os =
            obtainingPair (some (a, b)) .packetSocket ++ [.closed (a : ℤ), .closed (b : ℤ)] := by
          simp [openPipesLog, hp, hi, hs, hq]
        have hclosed : Turns (named (a : ℤ) Origin.packetSocket + named (b : ℤ) .packetSocket)
            [.closed (a : ℤ), .closed (b : ℤ)] 0 := by
          rw [named_natCast, named_natCast]
          exact .closed _ _ (.close_one _ _)
        rw [hopen, hlog]
        refine ⟨((hpair.trans hclosed).frame f.fittings).of_eq (zero_add _) ?_, Or.inl ⟨rfl, hi⟩⟩
        simp [fittings, hp]
      | some q =>
        obtain ⟨c, d⟩ := q
        have hopen : f.openPipes os =
            ({ f with pipeFds := (a, b), intrPipeFds := (c, d) }, true) := by
          simp [openPipes, hp, hi, hs, hq]
        have hlog : f.openPipesLog os = obtainingPair (some (a, b)) .packetSocket ++
            obtainingPair (some (c, d)) .interruptPipe := by
          simp [openPipesLog, hp, hi, hs, hq]
        have hboth := (hpair.append (obtainingPair_turns c d .interruptPipe)).frame f.fittings
        rw [hopen, hlog]
        refine ⟨hboth.of_eq (by simp) ?_, Or.inr ⟨a, b, c, d, rfl, rfl⟩⟩
        rw [hrest]
        simp only [fittings]
        abel
  · have hlog : f.openPipesLog os = [] := by
      simp [openPipesLog, hp, hi, show ¬ (a : ℤ) < 0 by omega, show ¬ (c : ℤ) < 0 by omega]
    have hopen : f.openPipes os = (f, true) :=
      openPipes_held (by simp [hp]) (by simp [hi])
    rw [hopen, hlog]
    exact ⟨.nil _, Or.inr ⟨a, b, c, d, hp, hi⟩⟩

theorem startSession_turns (f : MctpFramer) (os : OpenCalls) :
    Turns f.fittings (f.startSessionLog os) (f.startSession os).1.fittings := by
  have hready : Turns (named f.readyFdDup Origin.readyDup)
      (if f.readyFdDup < 0 ∧ f.pipeFds.1 ≥ 0 then obtaining os.dup .readyDup else [])
      (named (f.startSession os).1.readyFdDup .readyDup) := by
    simp only [startSession]
    split
    next h =>
      rw [named_of_neg h.1]
      exact obtaining_turns os.dup .readyDup
    next => exact .nil _
  have hepoll : Turns (named f.epollFd Origin.epoll)
      (if f.epollFd < 0 then obtaining os.epollCreate .epoll else [])
      (named (f.startSession os).1.epollFd .epoll) := by
    simp only [startSession]
    split
    next h =>
      rw [named_of_neg h]
      exact obtaining_turns os.epollCreate .epoll
    next => exact .nil _
  have hboth := (hready.append hepoll).frame (named f.pipeFds.1 .packetSocket +
    named f.pipeFds.2 .packetSocket + named f.intrPipeFds.1 .interruptPipe +
    named f.intrPipeFds.2 .interruptPipe)
  refine hboth.of_eq ?_ ?_
  · simp only [fittings]
    abel
  · simp only [fittings, startSession]
    abel

/-- A call gives its framer a serial descriptor in place of the one it had, if any. -/
theorem assign_turns {g : MctpFramer} {es : List (Event ℤ Origin)} {fd : ℕ} (os : OpenCalls)
    (h : Turns f.fittings es g.fittings) :
    Turns f.descriptors (es ++ .obtained fd .serial :: g.startSessionLog os)
      ((startSession { g with serialFd := fd } os).1.descriptors + named f.serialFd .serial) := by
  have hserial := (Turns.obtain_one (fd : ℤ) Origin.serial).append (g.startSession_turns os)
  have hall := (h.trans (hserial.of_eq (zero_add _) rfl)).frame (named f.serialFd .serial)
  refine hall.of_eq (add_comm _ _) ?_
  rw [← named_natCast]
  rfl

/-- What a call may lose: a serial descriptor that its guard does not see. -/
def Lost (f : MctpFramer) (lost : Multiset (ℤ × Origin)) : Prop :=
  lost = 0 ∨ f.serialFd ≤ 0 ∧ lost = named f.serialFd .serial

theorem openPath_turns (h : f.Wired) (os : OpenCalls) : ∃ lost, f.Lost lost ∧
    Turns f.descriptors (f.openPathLog os) ((f.openPath os).1.descriptors + lost) ∧
    (f.openPath os).1.Wired := by
  obtain ⟨hpipes, hwired⟩ := openPipes_turns h os
  have hkeep : Turns f.descriptors (f.openPipesLog os)
      (named f.serialFd .serial + (f.openPipes os).1.fittings) := by
    exact (hpipes.frame (named f.serialFd .serial)).of_eq (add_comm _ _) (add_comm _ _)
  have hframe : (f.openPipes os).1.serialFd = f.serialFd := by rw [openPipes_frame f os]
  by_cases hpos : f.serialFd > 0
  · rw [openPath, openPathLog, if_pos hpos, if_pos hpos]
    exact ⟨0, Or.inl rfl, (Turns.nil _).of_eq rfl (add_zero _).symm, h⟩
  · have hle := not_lt.mp hpos
    rw [openPath, openPathLog, if_neg hpos, if_neg hpos]
    dsimp only
    cases hok : (f.openPipes os).2 with
    | false =>
      simp only [Bool.not_false, if_true]
      refine ⟨0, Or.inl rfl, hkeep.of_eq rfl ?_, hwired⟩
      rw [add_zero, descriptors, hframe]
    | true =>
      simp only [Bool.not_true, Bool.false_eq_true, if_false]
      have hback {es : List (Event ℤ Origin)} (g : MctpFramer) (hg : g.serialFd = -1)
          (hrest : g.fittings = (f.openPipes os).1.fittings) (hes : Turns 0 es 0) :
          Turns f.descriptors (f.openPipesLog os ++ es)
            (g.descriptors + named f.serialFd .serial) := by
        refine (hkeep.append hes).of_eq (add_zero _) ?_
        rw [descriptors, hg, named_neg_one, zero_add, hrest, add_zero, add_comm]
      cases hserial : os.serial with
      | none =>
        have hnone := hback { (f.openPipes os).1 with serialFd := -1 } rfl rfl (.nil 0)
        rw [List.append_nil] at hnone
        simp only [show fdOf none < 0 by decide, if_true]
        exact ⟨_, Or.inr ⟨hle, rfl⟩, hnone, hwired⟩
      | some fd =>
        have hfd : ¬ (fd : ℤ) < 0 := by omega
        simp only [fdOf, Option.elim_some, hfd, if_false]
        by_cases hconf : os.tcgetattr = true ∧ os.tcsetattr = true
        · simp only [hconf.1, hconf.2, Bool.not_true, Bool.or_self, Bool.false_eq_true, if_false]
          exact ⟨_, Or.inr ⟨hle, rfl⟩, assign_turns os hpipes, hwired⟩
        · have hes : Turns (0 : Multiset (ℤ × Origin)) [.obtained (fd : ℤ) .serial, .closed fd] 0 :=
            (Turns.obtain_one _ _).trans (.close_one _ _)
          rw [if_pos (by simpa [Bool.or_eq_true, imp_iff_not_or] using hconf)]
          refine ⟨_, Or.inr ⟨hle, rfl⟩, ?_⟩
          cases hget : os.tcgetattr with
          | false => exact ⟨hback _ rfl rfl hes, hwired⟩
          | true =>
            have hset : os.tcsetattr = false := by
              rw [hget] at hconf
              simpa using hconf
            rw [hset]
            exact ⟨hback _ rfl rfl hes, hwired⟩

theorem openFd_turns (h : f.Wired) (fd : ℤ) (os : OpenCalls) : ∃ lost, f.Lost lost ∧
    Turns f.descriptors (f.openFdLog fd os) ((f.openFd fd os).1.descriptors + lost) ∧
    (f.openFd fd os).1.Wired := by
  obtain ⟨hpipes, hwired⟩ := openPipes_turns h os
  have hframe : (f.openPipes os).1.serialFd = f.serialFd := by rw [openPipes_frame f os]
  have hsame : ∃ lost, f.Lost lost ∧ Turns f.descriptors [] (f.descriptors + lost) ∧ f.Wired :=
    ⟨0, Or.inl rfl, (Turns.nil _).of_eq rfl (add_zero _).symm, h⟩
  have hkeep : Turns f.descriptors (f.openPipesLog os) ((f.openPipes os).1.descriptors + 0) := by
    refine (hpipes.frame (named f.serialFd .serial)).of_eq (add_comm _ _) ?_
    rw [descriptors, hframe, add_zero, add_comm]
  rw [openFd, openFdLog]
  dsimp only
  split
  next => exact hsame
  next hpos =>
    split
    next => exact hsame
    next =>
      cases hok : (f.openPipes os).2 with
      | false =>
        simp only [Bool.not_false, if_true]
        exact ⟨0, Or.inl rfl, hkeep, hwired⟩
      | true =>
        simp only [Bool.not_true, Bool.false_eq_true, if_false]
        cases hserial : os.serial with
        | none => exact ⟨0, Or.inl rfl, hkeep, hwired⟩
        | some dupfd =>
          have hdup : ¬ (dupfd : ℤ) < 0 := by omega
          simp only [fdOf, Option.elim_some, hdup, if_false]
          exact ⟨_, Or.inr ⟨not_lt.mp hpos, rfl⟩, assign_turns os hpipes, hwired⟩

/-- Either way to open a framer. -/
theorem apply_turns (h : f.Wired) (call : OpenCall) (os : OpenCalls) : ∃ lost, f.Lost lost ∧
    Turns f.descriptors (call.log f os) ((call.apply f os).1.descriptors + lost) ∧
    (call.apply f os).1.Wired := by
  cases call with
  | openPath => exact openPath_turns h os
  | openFd fd => exact openFd_turns h fd os

theorem descriptors_close (f : MctpFramer) : f.close.descriptors = 0 := rfl

theorem wired_close (f : MctpFramer) : f.close.Wired := Or.inl ⟨rfl, rfl⟩

/-- `close` closes all that the fields name, each descriptor once. -/
theorem close_turns (f : MctpFramer) : Turns f.descriptors f.closeLog 0 := by
  have hall := ((((((Turns.closing f.serialFd Origin.serial).append
    (.closing f.epollFd Origin.epoll)).append (.closing f.readyFdDup Origin.readyDup)).append
    (.closing f.pipeFds.1 Origin.packetSocket)).append
    (.closing f.pipeFds.2 Origin.packetSocket)).append
    (.closing f.intrPipeFds.1 Origin.interruptPipe)).append
    (.closing f.intrPipeFds.2 Origin.interruptPipe)
  refine hall.of_eq ?_ rfl
  simp only [descriptors, fittings]
  abel

end Calls

/-- A framer and the books of its descriptors. -/
structure Life where
  framer : MctpFramer
  ledger : Ledger ℤ Origin

namespace Life

def start : Life := ⟨.init, .empty⟩

/-- One call, on a system that hands out no number that is held. -/
def step (s : Life) (l : Call) : Option Life :=
  if s.ledger.Fresh (l.log s.framer) then
    (s.framer.step l).map fun f => ⟨f, s.ledger.postAll (l.log s.framer)⟩
  else none

/-- The books agree with the fields, but for a descriptor 0 that was overwritten. -/
structure Owns (s : Life) : Prop where
  wired : s.framer.Wired
  strays : s.ledger.strays = []
  holds : ∃ lost, (lost = 0 ∨ lost = {(0, .serial)}) ∧
    s.ledger.Holds (s.framer.descriptors + lost)

theorem owns_start : Owns start :=
  ⟨Or.inl ⟨rfl, rfl⟩, rfl, 0, Or.inl rfl, Ledger.holds_empty⟩

/-- What was lost before and what a call loses is descriptor 0, once. -/
theorem lost_add {f : MctpFramer} {L : Ledger ℤ Origin} {lost lost' : Multiset (ℤ × Origin)}
    (hlost : lost = 0 ∨ lost = {(0, .serial)}) (hlost' : f.Lost lost')
    (hholds : L.Holds (f.descriptors + lost)) :
    lost' + lost = 0 ∨ lost' + lost = {(0, .serial)} := by
  have hzero : lost' = 0 ∨ f.serialFd = 0 ∧ lost' = {(0, .serial)} := by
    obtain hnone | ⟨hle, rfl⟩ := hlost'
    · exact Or.inl hnone
    · rcases lt_or_eq_of_le hle with hneg | hz
      · exact Or.inl (named_of_neg hneg _)
      · refine Or.inr ⟨hz, ?_⟩
        rw [hz]
        rfl
  obtain rfl | ⟨hz, rfl⟩ := hzero
  · rwa [zero_add]
  · obtain rfl | rfl := hlost
    · exact Or.inr (add_zero _)
    · have hnodup := hholds.nodup
      have htwo : f.descriptors + {(0, Origin.serial)} =
          (0, Origin.serial) ::ₘ (0, Origin.serial) ::ₘ f.fittings := by
        rw [descriptors, hz, add_right_comm, ← Multiset.singleton_add, ← Multiset.singleton_add,
          ← add_assoc]
        rfl
      rw [htwo] at hnodup
      simp at hnodup

theorem owns_step {s t : Life} {l : Call} (h : Owns s) (hstep : s.step l = some t) : Owns t := by
  obtain ⟨lost, hlost, hholds⟩ := h.holds
  unfold step at hstep
  split at hstep
  next hfresh =>
    obtain ⟨g, hg, rfl⟩ := Option.map_eq_some_iff.mp hstep
    cases l with
    | opening call os thread =>
      obtain ⟨lost', hlost', hturns, hwired⟩ := apply_turns h.wired call os
      have hg' : g.descriptors = (call.apply s.framer os).1.descriptors ∧ g.Wired := by
        simp only [MctpFramer.step] at hg
        split at hg
        next => cases hg
        next =>
          rw [← Option.some.inj hg, perform]
          split
          next => exact ⟨rfl, hwired⟩
          next => exact ⟨rfl, hwired⟩
      obtain ⟨hholds', hstrays⟩ := (hturns.frame lost).holds hholds hfresh
      refine ⟨hg'.2, hstrays.trans h.strays, lost' + lost, lost_add hlost hlost' hholds, ?_⟩
      rw [hg'.1, ← add_assoc]
      exact hholds'
    | close =>
      have hg' : g = s.framer.close := by
        simp only [MctpFramer.step] at hg
        split at hg
        next => cases hg
        next => exact (Option.some.inj hg).symm
      obtain ⟨hholds', hstrays⟩ := ((close_turns s.framer).frame lost).holds hholds hfresh
      rw [hg']
      exact ⟨wired_close _, hstrays.trans h.strays, lost, hlost, hholds'⟩
  next => cases hstep

/-- In every life of a framer no close is stray, each field that is set names a descriptor
of its own that is open, and nothing else is open but, at worst, a descriptor 0 that was
overwritten; `close` leaves nothing but that. -/
theorem framer_owns_descriptors (ls : List Call) (s : Life) (hrun : exec step start ls = some s) :
    s.ledger.strays = [] ∧ (s.framer.descriptors.map Prod.fst).Nodup ∧
      (∀ fd t, (fd, t) ∈ s.framer.descriptors → s.ledger.held fd = some t) ∧
      (∀ fd t, s.ledger.held fd = some t →
        (fd, t) ∈ s.framer.descriptors ∨ fd = 0 ∧ t = .serial) ∧
      ∀ u, s.step .close = some u → ∀ fd, fd ≠ 0 → u.ledger.held fd = none := by
  have h : Owns s := invariant (fun _ s => Owns s) owns_start (fun _ _ _ _ => owns_step) hrun
  obtain ⟨lost, hlost, hholds⟩ := h.holds
  have honly {fd : ℤ} {t : Origin} {lost : Multiset (ℤ × Origin)}
      (hlost : lost = 0 ∨ lost = {(0, .serial)}) (hmem : (fd, t) ∈ lost) :
      fd = 0 ∧ t = .serial := by
    obtain rfl | rfl := hlost
    · exact absurd hmem (Multiset.notMem_zero _)
    · simpa using hmem
  refine ⟨h.strays, ?_, ?_, ?_, ?_⟩
  · have hnodup := hholds.nodup
    rw [Multiset.map_add] at hnodup
    exact (Multiset.nodup_add.mp hnodup).1
  · intro fd t hmem
    exact (hholds.held_iff fd t).mpr (Multiset.mem_add.mpr (Or.inl hmem))
  · intro fd t hheld
    exact (Multiset.mem_add.mp ((hholds.held_iff fd t).mp hheld)).imp_right (honly hlost)
  · intro u hu fd hfd
    obtain ⟨lost', hlost', hholds'⟩ := (owns_step h hu).holds
    have hclosed : u.framer.descriptors = 0 := by
      unfold step at hu
      split at hu
      next =>
        obtain ⟨g, hg, rfl⟩ := Option.map_eq_some_iff.mp hu
        simp only [MctpFramer.step] at hg
        split at hg
        next => cases hg
        next => rw [← Option.some.inj hg, descriptors_close]
      next => cases hu
    rw [hclosed, zero_add] at hholds'
    rw [Option.eq_none_iff_forall_ne_some]
    intro t hheld
    exact hfd (honly hlost' ((hholds'.held_iff fd t).mp hheld)).1

/-- Two failures, a session and the end of it. -/
def stumbles : List Call :=
  [.opening .openPath { goodCalls with pipe := none } true, .opening .openPath missingDevice true,
    .opening (.openFd 3) { goodCalls with epollCreate := none } true, .close]

theorem framer_owns_descriptors_stumbles : ∃ s, exec step start stumbles = some s ∧
    s.ledger.strays = [] ∧ ∀ fd t, s.ledger.held fd = some t → fd = 0 := by
  have hdone : (exec step start stumbles).map (fun s => decide (s.framer.descriptors = 0)) =
      some true := by
    decide +kernel
  obtain ⟨s, hrun, hzero⟩ := Option.map_eq_some_iff.mp hdone
  obtain ⟨hstrays, -, -, honly, -⟩ := framer_owns_descriptors stumbles s hrun
  refine ⟨s, hrun, hstrays, fun fd t hheld => ?_⟩
  have hnone : s.framer.descriptors = 0 := by simpa using hzero
  obtain hmem | ⟨hfd, -⟩ := honly fd t hheld
  · rw [hnone] at hmem
    exact absurd hmem (Multiset.notMem_zero _)
  · exact hfd

end Life
end MctpFramer
end MctpSerial
