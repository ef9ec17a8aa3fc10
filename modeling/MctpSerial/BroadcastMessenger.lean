import MctpSerial.FramerSessions

/-!
# The broadcast messenger

A Unix socket server for one client. Each operation is a function of the object and of
the results of the system calls it makes; it returns the object afterwards and the calls
that obtain or close a descriptor or remove the socket file.
-/
namespace MctpSerial
open MctpFramer

inductive BcastMessenger.State where
  | idle
  | bound
  | listening
  | connected
  deriving DecidableEq

/-- The messenger object. A descriptor field is negative when it is unset. -/
structure BcastMessenger where
  socketPath : String
  listenFd : ℤ
  connFd : ℤ
  state : BcastMessenger.State
  deriving DecidableEq

namespace BcastMessenger

/-- The calls with an effect outside the object. -/
inductive SysCall where
  | socket (fd : ℤ)
  | accept (fd : ℤ)
  | close (fd : ℤ)
  | unlink (path : String)
  deriving DecidableEq

/-- The constructor. -/
def init : BcastMessenger := ⟨"", -1, -1, .idle⟩

/-- The results of the calls made by `open`. -/
structure SetupCalls where
  socket : Option ℕ
  bind : Bool
  listen : Bool

/-- `open(path)`. The flag is the result. -/
def openPath (m : BcastMessenger) (path : String) (os : SetupCalls) :
    BcastMessenger × List SysCall × Bool :=
  let m := { m with listenFd := fdOf os.socket }
  if m.listenFd < 0 then (m, [], false)
  else if !os.bind then
    ({ m with listenFd := -1 }, [.socket m.listenFd, .unlink path, .close m.listenFd], false)
  else
    let m := { m with state := .bound }
    if !os.listen then
      ({ m with listenFd := -1 }, [.socket m.listenFd, .unlink path, .close m.listenFd], false)
    else
      ({ m with state := .listening, socketPath := path },
        [.socket m.listenFd, .unlink path], true)

/-- What `accept` answers; `wouldBlock` stands for `EAGAIN` and `EWOULDBLOCK`, `failed`
for every other error. -/
inductive AcceptResult where
  | client (fd : ℕ)
  | wouldBlock
  | failed
  deriving DecidableEq

def acceptConnection (m : BcastMessenger) (r : AcceptResult) :
    BcastMessenger × List SysCall × Except String Unit :=
  match r with
  | .client fd => ({ m with connFd := fd, state := .connected }, [.accept fd], .ok ())
  | .wouldBlock => ({ m with connFd := -1 }, [], .ok ())
  | .failed => ({ m with connFd := -1 }, [], .error "accept() failed")

def isConnected (m : BcastMessenger) : Bool := m.state == .connected && decide (0 ≤ m.connFd)

/-- What `recv` answers: the datagram at the head of the socket's queue, the end of the
connection, or an error, transient or not. -/
inductive RecvResult where
  | datagram (d : List Byte)
  | endOfFile
  | wouldBlock
  | failed
  deriving DecidableEq

/-- The bytes that `recv` stores in the 256-byte buffer. -/
def RecvResult.received : RecvResult → List Byte
  | .datagram d => d.take 256
  | _ => []

/-- Whether an answer without data leaves the connection open. A datagram of no bytes is
taken for the end of the connection. -/
def RecvResult.isTransient : RecvResult → Bool
  | .wouldBlock => true
  | _ => false

def recvMessage (m : BcastMessenger) (r : RecvResult) :
    BcastMessenger × List SysCall × List Byte :=
  if !m.isConnected then (m, [], [])
  else if r.received = [] then
    if r.isTransient then (m, [], [])
    else ({ m with connFd := -1, state := .listening }, [.close m.connFd], [])
  else (m, [], r.received)

/-- What comes of a `send` with flags 0: on a socket whose peer has closed it raises
`SIGPIPE`. -/
inductive SendEffect where
  | skipped
  | sent (data : List Byte)
  | failed
  | sigpipe
  deriving DecidableEq

/-- `sendMessage(data)`, with the state of the peer and the success of the call. -/
def sendMessage (m : BcastMessenger) (data : List Byte) (peerOpen ok : Bool) : SendEffect :=
  if !m.isConnected then .skipped
  else if !peerOpen then .sigpipe
  else if ok then .sent data
  else .failed

/-- `close()` leaves the fields as they are. -/
def close (m : BcastMessenger) : BcastMessenger × List SysCall :=
  (m, (if 0 ≤ m.connFd then [.close m.connFd] else []) ++
    (if 0 ≤ m.listenFd then [.close m.listenFd] else []) ++ [.unlink m.socketPath])

/-- What `open` can come to: no socket, a socket closed again, or a listening socket. -/
theorem openPath_cases (m : BcastMessenger) (path : String) (os : SetupCalls) :
    (os.socket = none ∧ m.openPath path os = ({ m with listenFd := -1 }, [], false)) ∨
    ∃ fd : ℕ, os.socket = some fd ∧
      ((∃ st, (st = m.state ∨ st ≠ .connected) ∧ m.openPath path os =
          ({ m with listenFd := -1, state := st },
            [.socket fd, .unlink path, .close fd], false)) ∨
        m.openPath path os =
          (⟨path, fd, m.connFd, .listening⟩, [.socket fd, .unlink path], true)) := by
  obtain ⟨socket, bind, listen⟩ := os
  cases socket with
  | none => exact Or.inl ⟨rfl, rfl⟩
  | some fd =>
    have hfd : ¬ (fd : ℤ) < 0 := by omega
    refine Or.inr ⟨fd, rfl, ?_⟩
    cases bind with
    | false => exact Or.inl ⟨m.state, Or.inl rfl, by simp [openPath, fdOf, hfd]⟩
    | true =>
      cases listen with
      | false => exact Or.inl ⟨.bound, Or.inr (by decide), by simp [openPath, fdOf, hfd]⟩
      | true => exact Or.inr (by simp [openPath, fdOf, hfd])

/-- A successful `open` keeps the old connection field but forgets the connection. -/
theorem openPath_ok (m : BcastMessenger) (path : String) (fd : ℕ) :
    (m.openPath path ⟨some fd, true, true⟩).1 = ⟨path, fd, m.connFd, .listening⟩ := by
  simp [openPath, fdOf, show ¬ (fd : ℤ) < 0 by omega]

theorem isConnected_iff (m : BcastMessenger) :
    m.isConnected = true ↔ m.state = .connected ∧ 0 ≤ m.connFd := by
  simp [isConnected]

theorem recvMessage_datagram {m : BcastMessenger} (hm : m.isConnected = true) {d : List Byte}
    (hd : d ≠ []) : m.recvMessage (.datagram d) = (m, [], d.take 256) := by
  simp [recvMessage, hm, RecvResult.received, hd]

/-- `recvMessage` on a connection: nothing to read, the connection dropped, or a message. -/
theorem recvMessage_cases {m : BcastMessenger} (hm : m.isConnected = true) (r : RecvResult) :
    (r = .wouldBlock ∧ m.recvMessage r = (m, [], [])) ∨
    (r.received = [] ∧ m.recvMessage r =
      ({ m with connFd := -1, state := .listening }, [.close m.connFd], [])) ∨
    (∃ d, r = .datagram d ∧ d ≠ [] ∧ m.recvMessage r = (m, [], d.take 256)) := by
  cases r with
  | datagram d =>
    cases d with
    | nil => exact Or.inr (Or.inl ⟨rfl, by simp [recvMessage, hm, RecvResult.received,
        RecvResult.isTransient]⟩)
    | cons b d => exact Or.inr (Or.inr ⟨b :: d, rfl, List.cons_ne_nil b d,
        recvMessage_datagram hm (List.cons_ne_nil b d)⟩)
  | endOfFile => exact Or.inr (Or.inl ⟨rfl, by simp [recvMessage, hm, RecvResult.received,
      RecvResult.isTransient]⟩)
  | wouldBlock => exact Or.inl ⟨rfl, by simp [recvMessage, hm, RecvResult.received,
      RecvResult.isTransient]⟩
  | failed => exact Or.inr (Or.inl ⟨rfl, by simp [recvMessage, hm, RecvResult.received,
      RecvResult.isTransient]⟩)

theorem recvMessage_of_not_connected {m : BcastMessenger} (hm : m.isConnected = false)
    (r : RecvResult) : m.recvMessage r = (m, [], []) := by
  simp [recvMessage, hm]

/-- A message comes from a datagram on a connection, and reading it changes nothing. -/
theorem recvMessage_of_ne_nil {m : BcastMessenger} {r : RecvResult}
    (h : (m.recvMessage r).2.2 ≠ []) :
    m.isConnected = true ∧
      ∃ d, r = .datagram d ∧ d ≠ [] ∧ m.recvMessage r = (m, [], d.take 256) := by
  cases hm : m.isConnected with
  | false =>
    rw [recvMessage_of_not_connected hm] at h
    exact absurd rfl h
  | true =>
    refine ⟨rfl, ?_⟩
    obtain ⟨_, hr⟩ | ⟨_, hr⟩ | ⟨d, hd, hne, hr⟩ := recvMessage_cases hm r
    · rw [hr] at h
      exact absurd rfl h
    · rw [hr] at h
      exact absurd rfl h
    · exact ⟨d, hd, hne, hr⟩

end BcastMessenger
end MctpSerial
