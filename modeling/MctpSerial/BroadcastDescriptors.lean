import MctpSerial.BroadcastMessenger
import MctpSerial.DescriptorLedgers
import MctpSerial.GuardedRuns

/-!
# Descriptors of the broadcast messenger

The life of a messenger from its constructor to its destructor, with a ledger of the
descriptors it has obtained. `close` leaves the descriptor fields as they are, so that a
field may name a descriptor that is closed already. The flags of `Life` remember this;
`Tidy` says which calls come to no harm by it.
-/
namespace MctpSerial.BcastMessenger
open DescriptorLedgers GuardedRuns

/-- Where a descriptor comes from. -/
inductive Source where
  | socket
  | accept
  deriving DecidableEq

/-- The entry that a call makes in the ledger. -/
def SysCall.entry : SysCall → Option (Event ℤ Source)
  | .socket fd => some (.obtained fd .socket)
  | .accept fd => some (.obtained fd .accept)
  | .close fd => some (.closed fd)
  | .unlink _ => none

/-- A messenger with its ledger. The flags tell whether `listenFd` and `connFd` still name
a descriptor after `close` has closed it. -/
structure Life where
  messenger : BcastMessenger
  ledger : Ledger ℤ Source
  listenStale : Bool
  connStale : Bool
  destroyed : Bool

namespace Life

def start : Life := ⟨.init, .empty, false, false, false⟩

/-- A call of the object, with the results of the system calls it makes. -/
inductive Op where
  | openPath (path : String) (os : SetupCalls)
  | acceptConnection (r : AcceptResult)
  | recvMessage (r : RecvResult)
  | sendMessage (data : List Byte) (peerOpen ok : Bool)
  | close
  | destroy

/-- The descriptors a call is given by the system are not held already. -/
def Op.Fresh (L : Ledger ℤ Source) : Op → Prop
  | .openPath _ os => ∀ fd ∈ os.socket, L.held fd = none
  | .acceptConnection (.client fd) => L.held fd = none
  | _ => True

instance (L : Ledger ℤ Source) : ∀ op, Decidable (Op.Fresh L op)
  | .openPath _ os => inferInstanceAs (Decidable (∀ fd ∈ os.socket, L.held fd = none))
  | .acceptConnection (.client fd) => inferInstanceAs (Decidable (L.held fd = none))
  | .acceptConnection .wouldBlock => isTrue trivial
  | .acceptConnection .failed => isTrue trivial
  | .recvMessage _ => isTrue trivial
  | .sendMessage _ _ _ => isTrue trivial
  | .close => isTrue trivial
  | .destroy => isTrue trivial

/-- Book the calls made by an operation. -/
def book (s : Life) (calls : List SysCall) : Ledger ℤ Source :=
  s.ledger.postAll (calls.filterMap SysCall.entry)

/-- `close()` and the destructor. -/
def closeAll (s : Life) : Life :=
  { s with
    messenger := s.messenger.close.1
    ledger := s.book s.messenger.close.2
    listenStale := true
    connStale := true }

/-- One call. The destructor is the last one, and `acceptConnection` is called only when
no client is connected. -/
def step (s : Life) (op : Op) : Option Life :=
  if s.destroyed || !decide (op.Fresh s.ledger) then none
  else
    match op with
    | .openPath path os =>
      let (m, calls, _) := s.messenger.openPath path os
      some { s with messenger := m, ledger := s.book calls, listenStale := false }
    | .acceptConnection r =>
      if s.messenger.isConnected then none
      else
        let (m, calls, _) := s.messenger.acceptConnection r
        some { s with messenger := m, ledger := s.book calls, connStale := false }
    | .recvMessage r =>
      let (m, calls, _) := s.messenger.recvMessage r
      some { s with messenger := m, ledger := s.book calls }
    | .sendMessage _ _ _ => some s
    | .close => some s.closeAll
    | .destroy => some { s.closeAll with destroyed := true }

/-- The listening socket is open. -/
def Listening (s : Life) : Prop := 0 ≤ s.messenger.listenFd ∧ s.listenStale = false

/-- There is an open connection, whatever the state says. -/
def HasConnection (s : Life) : Prop := 0 ≤ s.messenger.connFd ∧ s.connStale = false

/-- No field names a descriptor that is closed already. -/
def NothingStale (s : Life) : Prop :=
  (0 ≤ s.messenger.listenFd → s.listenStale = false) ∧
    (0 ≤ s.messenger.connFd → s.connStale = false)

/-- `open` finds no listening socket open and `acceptConnection` no connection; `close` is
not called while a client is connected, and neither it nor the destructor when an
earlier `close` has closed what a field still names. -/
def Tidy (s : Life) : Op → Prop
  | .openPath _ _ => ¬ s.Listening
  | .acceptConnection _ => ¬ s.HasConnection
  | .close => s.messenger.isConnected = false ∧ s.NothingStale
  | .destroy => s.NothingStale
  | _ => True

instance (s : Life) : Decidable s.Listening :=
  inferInstanceAs (Decidable (0 ≤ s.messenger.listenFd ∧ s.listenStale = false))

instance (s : Life) : Decidable s.HasConnection :=
  inferInstanceAs (Decidable (0 ≤ s.messenger.connFd ∧ s.connStale = false))

instance (s : Life) : Decidable s.NothingStale :=
  inferInstanceAs (Decidable ((_ → _) ∧ (_ → _)))

instance (s : Life) : ∀ op, Decidable (Tidy s op)
  | .openPath _ _ => inferInstanceAs (Decidable (¬ s.Listening))
  | .acceptConnection _ => inferInstanceAs (Decidable (¬ s.HasConnection))
  | .recvMessage _ => isTrue trivial
  | .sendMessage _ _ _ => isTrue trivial
  | .close => inferInstanceAs (Decidable (s.messenger.isConnected = false ∧ s.NothingStale))
  | .destroy => inferInstanceAs (Decidable s.NothingStale)

/-- The object owns what its fields name and nothing else. -/
structure Owns (s : Life) : Prop where
  strays : s.ledger.strays = []
  listen_held : s.Listening → s.ledger.held s.messenger.listenFd = some .socket
  conn_held : s.HasConnection → s.ledger.held s.messenger.connFd = some .accept
  only : ∀ fd, s.ledger.held fd ≠ none →
    s.Listening ∧ fd = s.messenger.listenFd ∨ s.HasConnection ∧ fd = s.messenger.connFd
  connected : s.destroyed = false → s.messenger.isConnected = true → s.connStale = false
  destroyed : s.destroyed = true → s.listenStale = true ∧ s.connStale = true

theorem owns_start : Owns start where
  strays := rfl
  listen_held := nofun
  conn_held := nofun
  only := fun _ h => absurd rfl h
  connected := nofun
  destroyed := nofun

theorem not_nonneg_neg_one : ¬ (0 : ℤ) ≤ -1 := by decide

namespace Owns

variable {s : Life}

/-- Nothing is left when nothing is open. -/
theorem held_eq_none (h : Owns s) (hl : ¬ s.Listening) (hc : ¬ s.HasConnection) (fd : ℤ) :
    s.ledger.held fd = none := by
  by_contra hne
  rcases h.only fd hne with ⟨hl', -⟩ | ⟨hc', -⟩
  · exact hl hl'
  · exact hc hc'

theorem listenFd_ne_connFd (h : Owns s) (hl : s.Listening) (hc : s.HasConnection) :
    s.messenger.listenFd ≠ s.messenger.connFd := by
  intro heq
  have hheld := h.listen_held hl
  rw [heq, h.conn_held hc] at hheld
  cases hheld

theorem hasConnection (h : Owns s) (hd : s.destroyed = false)
    (hconn : s.messenger.isConnected = true) : s.HasConnection :=
  ⟨((isConnected_iff _).mp hconn).2, h.connected hd hconn⟩

/-- With nothing stale, `close` closes what is held and only that. -/
theorem book_close (h : Owns s) (hstale : s.NothingStale) :
    (s.book s.messenger.close.2).strays = [] ∧
      ∀ fd, (s.book s.messenger.close.2).held fd = none := by
  have hcalls : s.messenger.close.2.filterMap SysCall.entry =
      (if 0 ≤ s.messenger.connFd then [.closed s.messenger.connFd] else []) ++
        (if 0 ≤ s.messenger.listenFd then [.closed s.messenger.listenFd] else []) := by
    simp only [BcastMessenger.close, List.filterMap_append]
    split <;> split <;> rfl
  have hconn (hc : 0 ≤ s.messenger.connFd) : s.HasConnection := ⟨hc, hstale.2 hc⟩
  have hlisten (hl : 0 ≤ s.messenger.listenFd) : s.Listening := ⟨hl, hstale.1 hl⟩
  rw [book, hcalls, Ledger.postAll_append]
  constructor
  · rw [Ledger.strays_closeIf, Ledger.strays_closeIf, h.strays]
    · intro hc
      rw [h.conn_held (hconn hc)]
      rfl
    · intro hl
      rw [Ledger.held_closeIf, if_neg, h.listen_held (hlisten hl)]
      · rfl
      · intro hc
        exact h.listenFd_ne_connFd (hlisten hl) (hconn hc.1) hc.2
  · intro fd
    rw [Ledger.held_closeIf, Ledger.held_closeIf]
    by_contra hne
    rw [ite_eq_left_iff, not_forall] at hne
    obtain ⟨hl, hne⟩ := hne
    rw [ite_eq_left_iff, not_forall] at hne
    obtain ⟨hc, hne⟩ := hne
    rcases h.only fd hne with ⟨hl', heq⟩ | ⟨hc', heq⟩
    · exact hl ⟨hl'.1, heq⟩
    · exact hc ⟨hc'.1, heq⟩

/-- After a `close` with nothing stale, nothing is open. -/
theorem closeAll (h : Owns s) (hstale : s.NothingStale) (b : Bool)
    (hconn : b = false → s.messenger.isConnected = false) :
    Owns { s.closeAll with destroyed := b } where
  strays := (h.book_close hstale).1
  listen_held hl := absurd hl.2 nofun
  conn_held hc := absurd hc.2 nofun
  only fd hne := absurd ((h.book_close hstale).2 fd) hne
  connected hb hconn' := absurd (hconn'.symm.trans (hconn hb)) nofun
  destroyed _ := ⟨rfl, rfl⟩

variable (h : Owns s) (hd : s.destroyed = false)

include h hd

/-- The listening field is reset with no socket behind it. -/
theorem unlisten (hl : ¬ s.Listening) {st : State}
    (hst : st = s.messenger.state ∨ st ≠ .connected) :
    Owns { s with
      messenger := { s.messenger with listenFd := -1, state := st }
      listenStale := false } where
  strays := h.strays
  listen_held hl' := absurd hl'.1 not_nonneg_neg_one
  conn_held := h.conn_held
  only fd hne := (h.only fd hne).imp (fun h' => absurd h'.1 hl) id
  connected hd hconn := by
    rcases hst with rfl | hst
    · exact h.connected hd hconn
    · exact absurd ((isConnected_iff _).mp hconn).1 hst
  destroyed hd' := absurd (hd.symm.trans hd') Bool.false_ne_true

/-- A new listening socket. -/
theorem listen (hl : ¬ s.Listening) {fd : ℕ} (hfresh : s.ledger.held fd = none) (path : String) :
    Owns { s with
      messenger := ⟨path, fd, s.messenger.connFd, .listening⟩
      ledger := s.ledger.post (.obtained fd .socket)
      listenStale := false } where
  strays := h.strays
  listen_held _ := Function.update_self ..
  conn_held hc := by
    have hheld := h.conn_held hc
    rw [Ledger.held_obtained, Function.update_of_ne]
    · exact hheld
    · intro heq
      rw [heq, hfresh] at hheld
      cases hheld
  only fd' hne := by
    by_cases heq : fd' = fd
    · exact Or.inl ⟨⟨Int.natCast_nonneg fd, rfl⟩, heq⟩
    · rw [Ledger.held_obtained, Function.update_of_ne heq] at hne
      exact (h.only fd' hne).imp (fun h' => absurd h'.1 hl) id
  connected _ hconn := absurd ((isConnected_iff _).mp hconn).1 nofun
  destroyed hd' := absurd (hd.symm.trans hd') Bool.false_ne_true

/-- The connection field is reset with no connection behind it. -/
theorem disconnect (hc : ¬ s.HasConnection) :
    Owns { s with messenger := { s.messenger with connFd := -1 }, connStale := false } where
  strays := h.strays
  listen_held := h.listen_held
  conn_held hc' := absurd hc'.1 not_nonneg_neg_one
  only fd hne := (h.only fd hne).imp id fun h' => absurd h'.1 hc
  connected _ _ := rfl
  destroyed hd' := absurd (hd.symm.trans hd') Bool.false_ne_true

/-- A new connection. -/
theorem connect (hc : ¬ s.HasConnection) {fd : ℕ} (hfresh : s.ledger.held fd = none) :
    Owns { s with
      messenger := { s.messenger with connFd := fd, state := .connected }
      ledger := s.ledger.post (.obtained fd .accept)
      connStale := false } where
  strays := h.strays
  listen_held hl := by
    have hheld := h.listen_held hl
    rw [Ledger.held_obtained, Function.update_of_ne]
    · exact hheld
    · intro heq
      rw [heq, hfresh] at hheld
      cases hheld
  conn_held _ := Function.update_self ..
  only fd' hne := by
    by_cases heq : fd' = fd
    · exact Or.inr ⟨⟨Int.natCast_nonneg fd, rfl⟩, heq⟩
    · rw [Ledger.held_obtained, Function.update_of_ne heq] at hne
      exact (h.only fd' hne).imp id fun h' => absurd h'.1 hc
  connected _ _ := rfl
  destroyed hd' := absurd (hd.symm.trans hd') Bool.false_ne_true

/-- The connection is dropped by `recvMessage`. -/
theorem drop (hconn : s.messenger.isConnected = true) :
    Owns { s with
      messenger := { s.messenger with connFd := -1, state := .listening }
      ledger := s.ledger.post (.closed s.messenger.connFd) } where
  strays := by
    rw [Ledger.strays_closed (by rw [h.conn_held (h.hasConnection hd hconn)]; rfl)]
    exact h.strays
  listen_held hl := by
    rw [Ledger.held_closed,
      Function.update_of_ne (h.listenFd_ne_connFd hl (h.hasConnection hd hconn))]
    exact h.listen_held hl
  conn_held hc' := absurd hc'.1 not_nonneg_neg_one
  only fd hne := by
    by_cases heq : fd = s.messenger.connFd
    · subst heq
      exact absurd (Function.update_self ..) hne
    · rw [Ledger.held_closed, Function.update_of_ne heq] at hne
      exact Or.inl ((h.only fd hne).resolve_right fun h' => heq h'.2)
  connected _ hconn' := absurd ((isConnected_iff _).mp hconn').1 nofun
  destroyed hd' := absurd (hd.symm.trans hd') Bool.false_ne_true

theorem openPath (hl : ¬ s.Listening) (path : String) (os : SetupCalls)
    (hfresh : ∀ fd ∈ os.socket, s.ledger.held fd = none) :
    Owns { s with
      messenger := (s.messenger.openPath path os).1
      ledger := s.book (s.messenger.openPath path os).2.1
      listenStale := false } := by
  obtain ⟨-, hopen⟩ | ⟨fd, hsocket, ⟨st, hst, hopen⟩ | hopen⟩ := openPath_cases s.messenger path os
  · rw [hopen]
    exact h.unlisten hd hl (Or.inl rfl)
  · have hledger : s.book [.socket fd, .unlink path, .close fd] = s.ledger :=
      Ledger.post_obtained_closed (hfresh fd hsocket) Source.socket
    rw [hopen, hledger]
    exact h.unlisten hd hl hst
  · rw [hopen]
    exact h.listen hd hl (hfresh fd hsocket) path

theorem acceptConnection (hc : ¬ s.HasConnection) (r : AcceptResult)
    (hfresh : Op.Fresh s.ledger (.acceptConnection r)) :
    Owns { s with
      messenger := (s.messenger.acceptConnection r).1
      ledger := s.book (s.messenger.acceptConnection r).2.1
      connStale := false } := by
  cases r with
  | client fd => exact h.connect hd hc hfresh
  | wouldBlock => exact h.disconnect hd hc
  | failed => exact h.disconnect hd hc

theorem recvMessage (r : RecvResult) :
    Owns { s with
      messenger := (s.messenger.recvMessage r).1
      ledger := s.book (s.messenger.recvMessage r).2.1 } := by
  cases hconn : s.messenger.isConnected with
  | false =>
    rw [recvMessage_of_not_connected hconn]
    exact h
  | true =>
    obtain ⟨-, hr⟩ | ⟨-, hr⟩ | ⟨d, -, -, hr⟩ := recvMessage_cases hconn r <;> rw [hr]
    · exact h
    · exact h.drop hd hconn
    · exact h

end Owns

/-- One call that meets its condition. -/
theorem owns_step {s t : Life} {op : Op} (h : Owns s) (hop : Tidy s op)
    (hstep : s.step op = some t) : Owns t := by
  unfold step at hstep
  split at hstep
  next => cases hstep
  next hguard =>
    simp only [Bool.or_eq_true, Bool.not_eq_true', decide_eq_false_iff_not, not_or,
      Bool.not_eq_true, not_not] at hguard
    obtain ⟨hd, hfresh⟩ := hguard
    cases op with
    | openPath path os =>
      cases hstep
      exact h.openPath hd hop path os hfresh
    | acceptConnection r =>
      dsimp only at hstep
      split at hstep
      next => cases hstep
      next =>
        cases hstep
        exact h.acceptConnection hd hop r hfresh
    | recvMessage r =>
      cases hstep
      exact h.recvMessage hd r
    | sendMessage data peerOpen ok =>
      cases hstep
      exact h
    | close =>
      cases hstep
      have hclosed := h.closeAll hop.2 s.destroyed fun _ => hop.1
      exact hclosed
    | destroy =>
      cases hstep
      exact h.closeAll hop true nofun

/-- In every tidy life the messenger closes only what it owns, a connected client has an
open connection behind it, and the destructor leaves nothing open. -/
theorem messenger_owns_descriptors (ops : List Op) (s : Life)
    (hrun : exec step start ops = some s) (htidy : Every step Tidy start ops) :
    s.ledger.strays = [] ∧
      (s.destroyed = false → s.messenger.isConnected = true →
        s.ledger.held s.messenger.connFd = some .accept) ∧
      (s.destroyed = true → ∀ fd, s.ledger.held fd = none) := by
  have h : Owns s :=
    guarded_invariant (fun _ s => Owns s) owns_start
      (fun _ _ _ _ h hop hstep => owns_step h hop hstep) hrun htidy
  refine ⟨h.strays, ?_, ?_⟩
  · intro hd hconn
    exact h.conn_held (h.hasConnection hd hconn)
  · intro hd
    obtain ⟨hl, hc⟩ := h.destroyed hd
    exact h.held_eq_none (fun h' => by simp [Listening, hl] at h')
      (fun h' => by simp [HasConnection, hc] at h')

/-- A client comes, talks and goes before the object is destroyed. -/
def visit : List Op :=
  [.openPath "bcast" ⟨some 3, true, true⟩, .acceptConnection .wouldBlock,
    .acceptConnection (.client 4), .recvMessage (.datagram [1, 0xFF, 1, 1, 1]),
    .sendMessage [1, 0xFF, 1, 1, 1] true true, .recvMessage .endOfFile,
    .acceptConnection (.client 4), .destroy]

theorem messenger_owns_descriptors_visit : ∃ s,
    exec step start visit = some s ∧ Every step Tidy start visit ∧ s.destroyed = true ∧
      s.ledger.strays = [] ∧ ∀ fd, s.ledger.held fd = none := by
  have hdone : (exec step start visit).map destroyed = some true := by decide +kernel
  have htidy : Every step Tidy start visit := by decide +kernel
  obtain ⟨s, hrun, hd⟩ := Option.map_eq_some_iff.mp hdone
  obtain ⟨hstrays, -, hheld⟩ := messenger_owns_descriptors visit s hrun htidy
  exact ⟨s, hrun, htidy, hd, hstrays, hheld hd⟩

/-- An `open`, a `close` and the destructor close one socket twice. -/
theorem listening_socket_closed_twice : ∃ s,
    exec step start [.openPath "bcast" ⟨some 3, true, true⟩, .close, .destroy] = some s ∧
      s.ledger.strays = [3] := by
  have hstrays : (exec step start [.openPath "bcast" ⟨some 3, true, true⟩, .close, .destroy]).map
      (fun s => s.ledger.strays) = some [3] := by
    decide +kernel
  exact Option.map_eq_some_iff.mp hstrays

end Life
end MctpSerial.BcastMessenger
