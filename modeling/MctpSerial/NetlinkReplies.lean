import Mathlib.Data.Int.Notation
import MctpSerial.MemoryWalks

/-!
# The parsers of netlink replies

`getInterfaceFlags` and `getMctpInterfaceNetId` ask for a link and walk over the reply: over
its messages with `NLMSG_OK` and `NLMSG_NEXT`, and inside a message over up to three levels
of attributes with `RTA_OK` and `RTA_NEXT`. The loops over messages compare with the
remaining length cast to `size_t`, the loops over attributes with a signed length.
-/
namespace MctpSerial.MctpNetlink
open MemoryWalks

/-! ## Headers -/

def nlmsgError : ℕ := 2
def rtmNewlink : ℕ := 16
def iflaAfSpec : ℕ := 26
def afMctp : ℕ := 45
def iflaMctpNet : ℕ := 1

/-- The size of `nlmsghdr`, and of `ifinfomsg` behind it. -/
def headerSize : ℕ := 16
def ifinfomsgSize : ℕ := 16
/-- The size of `rtattr`. -/
def rtattrSize : ℕ := 4

/-- The cast of a signed length to `size_t`. -/
def sizeT (len : ℤ) : ℕ := (len % 2 ^ 64).toNat

/-- `NLMSG_ALIGN` and `RTA_ALIGN`, both in 32-bit unsigned arithmetic. -/
def align (len : ℕ) : ℕ := (len + 3) % 2 ^ 32 / 4 * 4

section
variable (o : ByteOrder) (m : Memory)

/-- The field `nlmsg_len` of the message at `hdr`. -/
def nlmsgLen (hdr : ℕ) : Walk ℕ := Walk.load o m hdr 4

/-- The field `nlmsg_type`. -/
def nlmsgType (hdr : ℕ) : Walk ℕ := Walk.load o m (hdr + 4) 2

/-- The field `ifi_flags` of the `ifinfomsg` behind the header. -/
def ifiFlags (hdr : ℕ) : Walk ℕ := Walk.load o m (hdr + headerSize + 8) 4

/-- The field `rta_len` of the attribute at `rta`. -/
def rtaLen (rta : ℕ) : Walk ℕ := Walk.load o m rta 2

/-- The field `rta_type`. -/
def rtaType (rta : ℕ) : Walk ℕ := Walk.load o m (rta + 2) 2

/-- `NLMSG_OK`; the header is read only when the length has room for one. -/
def nlmsgOk (hdr len : ℕ) : Walk Bool :=
  if len < headerSize then pure false
  else do
    let l ← nlmsgLen o m hdr
    pure (decide (headerSize ≤ l ∧ l ≤ len))

/-- `RTA_OK`. -/
def rtaOk (rta : ℕ) (len : ℤ) : Walk Bool :=
  if len < rtattrSize then pure false
  else do
    let l ← rtaLen o m rta
    pure (decide (rtattrSize ≤ l ∧ (l : ℤ) ≤ len))

/-- `RTA_PAYLOAD`, of an attribute that `RTA_OK` has passed. -/
def rtaPayload (rta : ℕ) : Walk ℤ := do
  let l ← rtaLen o m rta
  pure ((l : ℤ) - rtattrSize)

/-! ## Loops -/

variable {α : Type}

/-- The loop over the messages. The body returns a value, or continues with `none`. -/
def forMessages (body : ℕ → Walk (Option α)) : (fuel hdr : ℕ) → (len : ℤ) → Walk (Option α)
  | 0, _, _ => Walk.unfinished
  | fuel + 1, hdr, len => do
    if ← nlmsgOk o m hdr (sizeT len) then
      match ← body hdr with
      | some a => pure (some a)
      | none =>
        let l ← nlmsgLen o m hdr
        forMessages body fuel (hdr + align l) (len - align l)
    else pure none

/-- The loop over attributes, for a number of turns. -/
def attributeTurns (body : ℕ → Walk (Option α)) : (fuel rta : ℕ) → (len : ℤ) → Walk (Option α)
  | 0, _, _ => Walk.unfinished
  | fuel + 1, rta, len => do
    if ← rtaOk o m rta len then
      match ← body rta with
      | some a => pure (some a)
      | none =>
        let l ← rtaLen o m rta
        attributeTurns body fuel (rta + align l) (len - align l)
    else pure none

/-- The loop over attributes. Every turn makes the length smaller, so that it bounds them. -/
def forAttributes (body : ℕ → Walk (Option α)) (rta : ℕ) (len : ℤ) : Walk (Option α) :=
  attributeTurns o m body (len.toNat + 1) rta len

/-- Goes on in the payload of an attribute of the given type, and skips any other. -/
def inNest (type : ℕ) (body : ℕ → Walk (Option α)) (rta : ℕ) : Walk (Option α) := do
  let t ← rtaType o m rta
  if t = type then
    let len ← rtaPayload o m rta
    forAttributes o m body (rta + rtattrSize) len
  else pure none

/-! ## The bodies of the loops -/

/-- The innermost body: a payload of four bytes or more, or of one byte, is the answer. -/
def mctpAttribute (rta : ℕ) : Walk (Option (BitVec 32)) := do
  let t ← rtaType o m rta
  if t = iflaMctpNet then
    let payload ← rtaPayload o m rta
    if 4 ≤ payload then
      let v ← Walk.load o m (rta + rtattrSize) 4
      pure (some (BitVec.ofNat 32 v))
    else if payload = 1 then
      let v ← Walk.load o m (rta + rtattrSize) 1
      pure (some (BitVec.ofNat 32 v))
    else pure none
  else pure none

/-- The body of the loop over address families. -/
def familyAttribute : ℕ → Walk (Option (BitVec 32)) := inNest o m afMctp (mctpAttribute o m)

/-- The body of the loop over the attributes of a link. -/
def linkAttribute : ℕ → Walk (Option (BitVec 32)) := inNest o m iflaAfSpec (familyAttribute o m)

/-- Skips error messages and all that is no `RTM_NEWLINK`. -/
def inLink (body : ℕ → Walk (Option α)) (hdr : ℕ) : Walk (Option α) := do
  let t ← nlmsgType o m hdr
  if t = nlmsgError then pure none
  else if t ≠ rtmNewlink then pure none
  else body hdr

/-- The flags of a link message; its length is not looked at. -/
def linkFlags (hdr : ℕ) : Walk (Option (BitVec 32)) := do
  let v ← ifiFlags o m hdr
  pure (some (BitVec.ofNat 32 v))

/-- The attributes of a link message; their length is converted to `int`. -/
def linkNetId (hdr : ℕ) : Walk (Option (BitVec 32)) := do
  let l ← nlmsgLen o m hdr
  forAttributes o m (linkAttribute o m) (hdr + headerSize + ifinfomsgSize)
    (((l : ℤ) - (headerSize + ifinfomsgSize : ℕ)).bmod (2 ^ 32))

end

/-! ## The two queries -/

/-- How the calls before the loop end. -/
inductive Exchange where
  | noInterface
  | socketFailed (error : String)
  | bindFailed (error : String)
  | sendFailed (error : String)
  | recvFailed (error : String)
  | received (len : ℕ)

/-- What a query returns, what its output parameter holds then, and what it has printed. -/
structure Answer where
  found : Bool
  out : BitVec 32
  cerr : List String
  deriving DecidableEq

/-- What `openNetlink` prints. -/
def openNetlinkErrors : Exchange → List String
  | .socketFailed error => ["netlink socket open failed: " ++ error ++ "\n"]
  | .bindFailed error => ["netlink bind failed: " ++ error ++ "\n"]
  | _ => []

/-- The answer after the loop. -/
def Answer.ofLoop (out : BitVec 32) : Option (BitVec 32) → Answer
  | some v => ⟨true, v, []⟩
  | none => ⟨false, out, []⟩

/-- `getInterfaceFlags`, over the buffer in which the reply has been received. -/
def getInterfaceFlags (o : ByteOrder) (m : Memory) (fuel : ℕ) (x : Exchange)
    (outFlags : BitVec 32) : Walk Answer :=
  match x with
  | .received len => do
    let r ← forMessages o m (inLink o m (linkFlags o m)) fuel 0 len
    pure (Answer.ofLoop outFlags r)
  | x => pure ⟨false, outFlags, openNetlinkErrors x⟩

/-- `getMctpInterfaceNetId`. -/
def getMctpInterfaceNetId (o : ByteOrder) (m : Memory) (fuel : ℕ) (ifname : String)
    (x : Exchange) (outNet : BitVec 32) : Walk Answer :=
  match x with
  | .noInterface => pure ⟨false, outNet, ["interface not found: " ++ ifname ++ "\n"]⟩
  | .sendFailed error => pure ⟨false, outNet, ["send(GETLINK) failed: " ++ error ++ "\n"]⟩
  | .recvFailed error => pure ⟨false, outNet, ["recv(GETLINK) failed: " ++ error ++ "\n"]⟩
  | .received len => do
    let r ← forMessages o m (inLink o m (linkNetId o m)) fuel 0 len
    pure (Answer.ofLoop outNet r)
  | x => pure ⟨false, outNet, openNetlinkErrors x⟩

end MctpSerial.MctpNetlink
