import Mathlib.Data.List.Induction
import Mathlib.Data.List.TakeWhile
import MctpSerial.BridgeConfiguration

/-!
# The command line of the bridge

`parseArgs` goes through the options in the order in which `getopt_long` returns them, and
stops at the first one that it refuses. What it accepts becomes one call of `open`. Every
option counts with its last occurrence only, and the calls of `open` that a command line can
lead to are exactly those with one peer whose number, like that of the endpoint itself, is
neither null nor broadcast. The last numbers are those that the kernel is told, the name of the
interface is not.
-/
namespace MctpSerial.CommandLine

/-! ## Options -/

inductive BaudRate where
  | br0 | br50 | br75 | br110 | br134 | br150 | br200 | br300 | br600 | br1200 | br1800 | br2400
  | br4800 | br9600 | br19200 | br38400 | br57600 | br115200 | br230400
  deriving DecidableEq

/-- The constants of termios. -/
def BaudRate.speed : BaudRate → ℕ
  | br0 => 0
  | br50 => 1
  | br75 => 2
  | br110 => 3
  | br134 => 4
  | br150 => 5
  | br200 => 6
  | br300 => 7
  | br600 => 8
  | br1200 => 9
  | br1800 => 10
  | br2400 => 11
  | br4800 => 12
  | br9600 => 13
  | br19200 => 14
  | br38400 => 15
  | br57600 => 0x1001
  | br115200 => 0x1002
  | br230400 => 0x1003

structure CmdOptions where
  tty : String
  baud : Option BaudRate
  hwflow : Bool
  ifname : Option String
  idPathTag : Option String
  localEid : Option ℤ
  remoteEid : Option ℤ
  deriving DecidableEq

def CmdOptions.init : CmdOptions := ⟨"", none, false, none, none, none, none⟩

/-- What `getopt_long` returns, with `optarg`. It returns `?` for what it does not know and
for an argument that is missing. -/
inductive Opt where
  | tty (optarg : String)
  | baud (optarg : String)
  | hwflow (optarg : String)
  | ifname (optarg : String)
  | idPathTag (optarg : String)
  | localEid (optarg : String)
  | remoteEid (optarg : String)
  | help
  | unknown
  deriving DecidableEq

/-! ## Arguments -/

def baudMap : List (String × BaudRate) :=
  [("B0", .br0), ("B50", .br50), ("B75", .br75), ("B110", .br110), ("B134", .br134),
    ("B150", .br150), ("B200", .br200), ("B300", .br300), ("B600", .br600), ("B1200", .br1200),
    ("B1800", .br1800), ("B2400", .br2400), ("B4800", .br4800), ("B9600", .br9600),
    ("B19200", .br19200), ("B38400", .br38400), ("B57600", .br57600), ("B115200", .br115200),
    ("B230400", .br230400)]

def baudRateFromString (str : String) : Option BaudRate := baudMap.lookup str

def toLower (s : String) : String := s.map Char.toLower

def parseBool (s : String) : Option Bool :=
  let low := toLower s
  if low = "true" ∨ low = "1" ∨ low = "yes" then some true
  else if low = "false" ∨ low = "0" ∨ low = "no" then some false
  else none

/-- `isspace` of the C locale. -/
def isSpace (c : Char) : Bool := c.toNat == 32 || (9 ≤ c.toNat && c.toNat ≤ 13)

/-- The decimal number at the beginning. -/
def decimal (cs : List Char) : ℕ := Nat.ofDigitChars 10 (cs.takeWhile Char.isDigit) 0

/-- `strtol` to the base ten, with the limits of 64 bits. -/
def strtol (s : String) : ℤ :=
  match s.toList.dropWhile isSpace with
  | '-' :: cs => max (-2 ^ 63) (-(decimal cs : ℤ))
  | '+' :: cs => min (decimal cs : ℤ) (2 ^ 63 - 1)
  | cs => min (decimal cs : ℤ) (2 ^ 63 - 1)

/-- `atoi` casts what `strtol` returns. -/
def atoi (s : String) : ℤ := (strtol s).bmod (2 ^ 32)

/-- The number of an endpoint that is given to an option. -/
def eidArg (option optarg : String) : Except (List String) ℤ :=
  let v := atoi optarg
  if v < 1 ∨ 254 < v then .error ["Invalid --" ++ option ++ " value: " ++ optarg ++ "\n"]
  else .ok v

/-! ## Parsing -/

/-- The local variables of `parseArgs`. -/
structure Parsing where
  opts : CmdOptions
  seenTty : Bool

/-- One turn of the loop. An error is what is printed before the usage. -/
def Parsing.turn (p : Parsing) : Opt → Except (List String) Parsing
  | .tty optarg => .ok { opts := { p.opts with tty := optarg }, seenTty := true }
  | .baud optarg =>
    match baudRateFromString optarg with
    | none => .error ["Invalid --baud value: " ++ optarg ++ "\n"]
    | some b => .ok { p with opts := { p.opts with baud := some b } }
  | .hwflow optarg =>
    match parseBool optarg with
    | none => .error ["Invalid --hwflow value: " ++ optarg ++ " (expect TRUE/FALSE)\n"]
    | some pb => .ok { p with opts := { p.opts with hwflow := pb } }
  | .ifname optarg => .ok { p with opts := { p.opts with ifname := some optarg } }
  | .idPathTag optarg => .ok { p with opts := { p.opts with idPathTag := some optarg } }
  | .localEid optarg => do
    let v ← eidArg "local-eid" optarg
    .ok { p with opts := { p.opts with localEid := some v } }
  | .remoteEid optarg => do
    let v ← eidArg "remote-eid" optarg
    .ok { p with opts := { p.opts with remoteEid := some v } }
  | .help => .error []
  | .unknown => .error []

/-- The checks after the loop. -/
def Parsing.validate (p : Parsing) : Except (List String) CmdOptions :=
  if !p.seenTty && !p.opts.idPathTag.isSome then
    .error ["Missing required option: --tty or --id-path-tag\n"]
  else if p.opts.ifname.isSome && p.opts.idPathTag.isSome then
    .error ["Options --ifname and --id-path-tag are mutually exclusive\n"]
  else if !p.opts.remoteEid.isSome then .error ["Missing required option: --remote-eid\n"]
  else .ok p.opts

def parseArgs (os : List Opt) : Except (List String) CmdOptions := do
  let p ← os.foldlM Parsing.turn ⟨.init, false⟩
  p.validate

/-! ## The program -/

/-- What goes to standard output whenever the options are refused. -/
def printUsage (progName : String) : List String :=
  ["Usage: " ++ progName ++ " --mode <BRIDGE|TEST> --tty <tty-path> [options]\n\n",
    "Required:\n",
    "  --tty  <tty-path>       Path to serial device (e.g. /dev/ttyS0, /dev/ttyUSB0).\n\n",
    "  --remote-eid  <n>       Remote endpoint ID (1-254). \n",
    "Optional:\n",
    "  --baud <baud-string>    Baud rate string (e.g. B9600, B115200). " ++
      "If omitted, default B115200 is used\n",
    "  --hwflow <TRUE|FALSE>   Hardware flow control. TRUE to enable RTS/CTS, " ++
      "FALSE (default) to disable.\n",
    "  --ifname <name>         Name of MCTP interface for socket connections (e.g. mctp0). " ++
      "Default: use linux-assigned name.\n",
    "  --id-path-tag <tag>     Use the udev ID_PATH_TAG identifier instead of a physical tty path.\n",
    "  --local-eid <n>         Local endpoint ID (1-254). If not specified, " ++
      "the bridge is transparent.\n",
    "  --help                  Show this help message and exit.\n\n",
    "Examples:\n",
    "  " ++ progName ++ " --tty /dev/ttyUSB0 --remote-eid 8 --baud B115200 --hwflow TRUE " ++
      "--ifname mctp0\n",
    "  " ++ progName ++ " --id-path-tag 'pci-0000:00:14.0-usb-0:3:1.0' --remote-eid 8 " ++
      "--baud B115200 --hwflow TRUE\n\n",
    "Notes:\n",
    "  - The code is blocking and will run until iterrupted with SIGINT.\n",
    "  - To determine the ID_PATH_TAG for a device node (e.g. /dev/ttyUSB0) run:\n",
    "      udevadm info -q property -n /dev/ttyUSB0 | grep -E '^(ID_PATH_TAG)='\n"]

/-- The arguments of `MctpBridge::open`. -/
structure OpenCall where
  ttyPath : String
  baud : BaudRate
  hwFlowControl : Bool
  localEid : Byte
  peerEids : List Byte
  useIdPathTag : Bool
  deriving DecidableEq

/-- The call that `main` makes. Without a remote number there is none to convert, but then
`parseArgs` has not returned. -/
def CmdOptions.openCall (opts : CmdOptions) : OpenCall where
  ttyPath := opts.idPathTag.getD opts.tty
  baud := opts.baud.getD .br115200
  hwFlowControl := opts.hwflow
  localEid := opts.localEid.elim 0 (BitVec.ofInt 8)
  peerEids := opts.remoteEid.toList.map (BitVec.ofInt 8)
  useIdPathTag := opts.idPathTag.isSome

/-- What `main` prints once the bridge is there; `bridgeIfname` and `broadcastName` are what
the bridge tells. -/
def CmdOptions.report (opts : CmdOptions) (bridgeIfname broadcastName : String) : List String :=
  ["MCTP Bridge running:\n",
    (if opts.idPathTag.isSome then "  ID_PATH_TAG: " else "  TTY device: ") ++
      opts.openCall.ttyPath ++ "\n",
    "  Baud rate: " ++ (opts.baud.elim "B115200 (default)" fun b => toString b.speed) ++ "\n",
    "  Hardware flow control: " ++ (if opts.hwflow then "Enabled" else "Disabled") ++ "\n",
    "  MCTP interface name: " ++ opts.ifname.getD bridgeIfname ++ "\n",
    "  Broadcast socket name: " ++ broadcastName ++ "\n",
    "  local EID: " ++
      (opts.localEid.elim "Transparent mode (no local EID)" fun v => toString v) ++ "\n",
    "  remote EID: " ++ (opts.remoteEid.elim "" fun v => toString v) ++ "\n",
    "Press Ctrl-C to exit.\n"]

/-- A run of `main`: the calls of `open` it makes, what it prints, and what it returns. -/
structure Session where
  opened : List OpenCall
  cout : List String
  cerr : List String
  success : Bool

/-- `bridge` is what `open` returns, with the two names the bridge has then. -/
def main (progName : String) (os : List Opt) (bridge : OpenCall → Option (String × String)) :
    Session :=
  match parseArgs os with
  | .error lines => ⟨[], printUsage progName, lines, false⟩
  | .ok opts =>
    match bridge opts.openCall with
    | none => ⟨[opts.openCall], [], [if opts.idPathTag.isSome then
        "Failed to open serial bridge for ID_PATH_TAG '" ++ opts.openCall.ttyPath ++ "'\n"
      else "Failed to open serial bridge on " ++ opts.openCall.ttyPath ++ "\n"], false⟩
    | some (bridgeIfname, broadcastName) =>
      ⟨[opts.openCall], opts.report bridgeIfname broadcastName, [], true⟩

/-! ## What the loop comes to -/

/-- What is printed if the option is refused, which does not depend on those before it. -/
def refusal (o : Opt) : Option (List String) :=
  match Parsing.turn ⟨.init, false⟩ o with
  | .error lines => some lines
  | .ok _ => none

namespace Opt

def ttyArg : Opt → Option String
  | tty optarg => some optarg
  | _ => none

def baudArg : Opt → Option BaudRate
  | baud optarg => baudRateFromString optarg
  | _ => none

def hwflowArg : Opt → Option Bool
  | hwflow optarg => parseBool optarg
  | _ => none

def ifnameArg : Opt → Option String
  | ifname optarg => some optarg
  | _ => none

def idPathTagArg : Opt → Option String
  | idPathTag optarg => some optarg
  | _ => none

def localEidArg : Opt → Option ℤ
  | localEid optarg => some (atoi optarg)
  | _ => none

def remoteEidArg : Opt → Option ℤ
  | remoteEid optarg => some (atoi optarg)
  | _ => none

end Opt

/-- The last value that is given. -/
def last {α : Type} (arg : Opt → Option α) (os : List Opt) : Option α := (os.filterMap arg).getLast?

/-- The options by their last occurrences. -/
def gathered (os : List Opt) : Parsing where
  opts :=
    { tty := (last Opt.ttyArg os).getD ""
      baud := last Opt.baudArg os
      hwflow := (last Opt.hwflowArg os).getD false
      ifname := last Opt.ifnameArg os
      idPathTag := last Opt.idPathTagArg os
      localEid := last Opt.localEidArg os
      remoteEid := last Opt.remoteEidArg os }
  seenTty := (last Opt.ttyArg os).isSome

theorem last_concat {α : Type} (arg : Opt → Option α) (os : List Opt) (o : Opt) :
    last arg (os ++ [o]) = (arg o).or (last arg os) := by
  rw [last, List.filterMap_append]
  cases h : arg o with
  | none => simp [last, h]
  | some a => simp [h]

/-- The values that an option gives replace those before. -/
def Parsing.put (p : Parsing) (o : Opt) : Parsing where
  opts :=
    { tty := o.ttyArg.getD p.opts.tty
      baud := o.baudArg.or p.opts.baud
      hwflow := o.hwflowArg.getD p.opts.hwflow
      ifname := o.ifnameArg.or p.opts.ifname
      idPathTag := o.idPathTagArg.or p.opts.idPathTag
      localEid := o.localEidArg.or p.opts.localEid
      remoteEid := o.remoteEidArg.or p.opts.remoteEid }
  seenTty := o.ttyArg.isSome || p.seenTty

theorem put_gathered (os : List Opt) (o : Opt) : (gathered os).put o = gathered (os ++ [o]) := by
  simp only [gathered, last_concat, Parsing.put]
  cases o.ttyArg <;> cases o.hwflowArg <;> simp

/-- A number of an endpoint that is neither null nor broadcast. -/
def IsEid (v : ℤ) : Prop := 1 ≤ v ∧ v ≤ 254

/-- The options whose arguments mean something. -/
def Opt.Acceptable : Opt → Prop
  | baud optarg => (baudRateFromString optarg).isSome
  | hwflow optarg => (parseBool optarg).isSome
  | localEid optarg => IsEid (atoi optarg)
  | remoteEid optarg => IsEid (atoi optarg)
  | help => False
  | unknown => False
  | _ => True

theorem eidArg_cases (option optarg : String) :
    (IsEid (atoi optarg) ∧ eidArg option optarg = .ok (atoi optarg)) ∨
      (¬IsEid (atoi optarg) ∧ ∃ lines, eidArg option optarg = .error lines) := by
  rw [eidArg, IsEid]
  by_cases hv : atoi optarg < 1 ∨ 254 < atoi optarg
  · exact Or.inr ⟨by omega, _, if_pos hv⟩
  · exact Or.inl ⟨by omega, if_neg hv⟩

/-- A turn puts down what the option gives, or refuses it whatever was put down before. -/
theorem turn_cases (o : Opt) :
    (o.Acceptable ∧ ∀ p : Parsing, p.turn o = .ok (p.put o)) ∨
      (¬o.Acceptable ∧ ∃ lines, ∀ p : Parsing, p.turn o = .error lines) := by
  cases o with
  | tty optarg => exact Or.inl ⟨trivial, fun p => rfl⟩
  | ifname optarg => exact Or.inl ⟨trivial, fun p => rfl⟩
  | idPathTag optarg => exact Or.inl ⟨trivial, fun p => rfl⟩
  | help => exact Or.inr ⟨id, [], fun p => rfl⟩
  | unknown => exact Or.inr ⟨id, [], fun p => rfl⟩
  | baud optarg =>
    cases hb : baudRateFromString optarg with
    | none => exact Or.inr ⟨by simp [Opt.Acceptable, hb], _, fun p => by rw [Parsing.turn, hb]⟩
    | some b =>
      refine Or.inl ⟨by simp [Opt.Acceptable, hb], fun p => ?_⟩
      simp [Parsing.turn, Parsing.put, Opt.ttyArg, Opt.baudArg, Opt.hwflowArg, Opt.ifnameArg,
        Opt.idPathTagArg, Opt.localEidArg, Opt.remoteEidArg, hb]
  | hwflow optarg =>
    cases hpb : parseBool optarg with
    | none => exact Or.inr ⟨by simp [Opt.Acceptable, hpb], _, fun p => by rw [Parsing.turn, hpb]⟩
    | some pb =>
      refine Or.inl ⟨by simp [Opt.Acceptable, hpb], fun p => ?_⟩
      simp [Parsing.turn, Parsing.put, Opt.ttyArg, Opt.baudArg, Opt.hwflowArg, Opt.ifnameArg,
        Opt.idPathTagArg, Opt.localEidArg, Opt.remoteEidArg, hpb]
  | localEid optarg =>
    rcases eidArg_cases "local-eid" optarg with ⟨heid, harg⟩ | ⟨heid, lines, harg⟩
    · exact Or.inl ⟨heid, fun p => by rw [Parsing.turn, harg]; rfl⟩
    · exact Or.inr ⟨heid, lines, fun p => by rw [Parsing.turn, harg]; rfl⟩
  | remoteEid optarg =>
    rcases eidArg_cases "remote-eid" optarg with ⟨heid, harg⟩ | ⟨heid, lines, harg⟩
    · exact Or.inl ⟨heid, fun p => by rw [Parsing.turn, harg]; rfl⟩
    · exact Or.inr ⟨heid, lines, fun p => by rw [Parsing.turn, harg]; rfl⟩

theorem turn_eq (p : Parsing) (o : Opt) :
    p.turn o =
      match refusal o with
      | some lines => .error lines
      | none => .ok (p.put o) := by
  rcases turn_cases o with ⟨-, hturn⟩ | ⟨-, lines, hturn⟩
  · rw [refusal, hturn, hturn]
  · rw [refusal, hturn, hturn]

theorem foldlM_turn (os : List Opt) :
    os.foldlM Parsing.turn ⟨.init, false⟩ =
      match os.findSome? refusal with
      | some lines => .error lines
      | none => .ok (gathered os) := by
  induction os using List.reverseRecOn with
  | nil => rfl
  | append_singleton os o ih =>
    rw [List.foldlM_append, ih, List.findSome?_append]
    cases hos : os.findSome? refusal with
    | some lines => rfl
    | none =>
      rw [Option.none_or, List.findSome?_singleton, ← put_gathered]
      exact (bind_pure _).trans (turn_eq (gathered os) o)

/-- The first option that is refused decides; if there is none, every option stands for its
last occurrence, and the rest is looked at as if only these had been given. -/
theorem parseArgs_reads_last (os : List Opt) :
    parseArgs os =
      match os.findSome? refusal with
      | some lines => .error lines
      | none => (gathered os).validate := by
  rw [parseArgs, foldlM_turn]
  cases os.findSome? refusal with
  | some lines => rfl
  | none => rfl

/-! ## What is accepted -/

theorem refusal_eq_none_iff (o : Opt) : refusal o = none ↔ o.Acceptable := by
  rcases turn_cases o with ⟨hacc, hturn⟩ | ⟨hacc, lines, hturn⟩
  · rw [refusal, hturn]
    exact iff_of_true rfl hacc
  · rw [refusal, hturn]
    exact iff_of_false nofun hacc

theorem validate_ok_iff (p : Parsing) (opts : CmdOptions) :
    p.validate = .ok opts ↔ p.opts = opts ∧
      (p.seenTty = true ∨ opts.idPathTag.isSome = true) ∧
      (opts.ifname = none ∨ opts.idPathTag = none) ∧ opts.remoteEid.isSome = true := by
  have hcases (h : p.opts = opts) : p.validate = .ok opts ↔
      (p.seenTty = true ∨ opts.idPathTag.isSome = true) ∧
        (opts.ifname = none ∨ opts.idPathTag = none) ∧ opts.remoteEid.isSome = true := by
    subst h
    unfold Parsing.validate
    cases p.seenTty <;> cases p.opts.idPathTag <;> cases p.opts.ifname <;>
      cases p.opts.remoteEid <;> simp
  constructor
  · intro h
    have hopts : p.opts = opts := by
      unfold Parsing.validate at h
      split at h
      next => cases h
      next =>
        split at h
        next => cases h
        next =>
          split at h
          next => cases h
          next =>
            cases h
            rfl
    exact ⟨hopts, (hcases hopts).mp h⟩
  · rintro ⟨hopts, h⟩
    exact (hcases hopts).mpr h

theorem parseArgs_ok_iff (os : List Opt) (opts : CmdOptions) :
    parseArgs os = .ok opts ↔ (∀ o ∈ os, o.Acceptable) ∧ (gathered os).opts = opts ∧
      ((gathered os).seenTty = true ∨ opts.idPathTag.isSome = true) ∧
      (opts.ifname = none ∨ opts.idPathTag = none) ∧ opts.remoteEid.isSome = true := by
  have hall : os.findSome? refusal = none ↔ ∀ o ∈ os, o.Acceptable := by
    rw [List.findSome?_eq_none_iff]
    exact forall₂_congr fun o _ => refusal_eq_none_iff o
  rw [parseArgs, foldlM_turn]
  cases hos : os.findSome? refusal with
  | some lines =>
    refine iff_of_false nofun fun h => ?_
    rw [hall.mpr h.1] at hos
    cases hos
  | none =>
    rw [and_iff_right (hall.mp hos)]
    exact validate_ok_iff (gathered os) opts

/-! ## The calls of `open` -/

theorem mem_of_last {α : Type} {arg : Opt → Option α} {os : List Opt} {a : α}
    (h : last arg os = some a) : ∃ o ∈ os, arg o = some a :=
  List.mem_filterMap.mp (List.mem_of_getLast? h)

/-- Numbers of endpoints are converted without a loss. -/
theorem toNat_ofInt {v : ℤ} (h : IsEid v) : ((BitVec.ofInt 8 v).toNat : ℤ) = v := by
  obtain ⟨hlow, hhigh⟩ := h
  rw [BitVec.toNat_ofInt]
  omega

theorem ofInt_ne {v : ℤ} (h : IsEid v) : BitVec.ofInt 8 v ≠ 0 ∧ BitVec.ofInt 8 v ≠ 0xFF := by
  have hv := toNat_ofInt h
  obtain ⟨hlow, hhigh⟩ := h
  constructor
  · intro heq
    rw [heq] at hv
    simp at hv
    omega
  · intro heq
    rw [heq] at hv
    simp at hv
    omega

theorem accepted_eids {os : List Opt} {opts : CmdOptions} (h : parseArgs os = .ok opts) :
    (∀ v, opts.localEid = some v → IsEid v) ∧ ∃ v, opts.remoteEid = some v ∧ IsEid v := by
  obtain ⟨hall, hopts, -, -, hremote⟩ := (parseArgs_ok_iff os opts).mp h
  subst hopts
  constructor
  · intro v hv
    obtain ⟨o, ho, harg⟩ := mem_of_last hv
    have hacc := hall o ho
    cases o with
    | localEid optarg =>
      cases harg
      exact hacc
    | _ => cases harg
  · obtain ⟨v, hv⟩ := Option.isSome_iff_exists.mp hremote
    obtain ⟨o, ho, harg⟩ := mem_of_last hv
    have hacc := hall o ho
    refine ⟨v, hv, ?_⟩
    cases o with
    | remoteEid optarg =>
      cases harg
      exact hacc
    | _ => cases harg

theorem mem_opened {progName : String} {os : List Opt}
    {bridge : OpenCall → Option (String × String)} {c : OpenCall} :
    c ∈ (main progName os bridge).opened ↔ ∃ opts, parseArgs os = .ok opts ∧ opts.openCall = c := by
  unfold main
  cases h : parseArgs os with
  | error lines => simp
  | ok opts =>
    dsimp only
    cases bridge opts.openCall <;> simp [eq_comm]

/-! ## Writing a command line -/

theorem isSpace_of_isDigit {c : Char} (h : c.isDigit = true) : isSpace c = false := by
  have hlow : 48 ≤ c.toNat := by
    simp only [Char.isDigit, Bool.and_eq_true, decide_eq_true_eq, ge_iff_le] at h
    exact UInt32.le_iff_toNat_le.mp h.1
  simp only [isSpace, Bool.or_eq_false_iff, beq_eq_false_iff_ne, Bool.and_eq_false_iff,
    decide_eq_false_iff_not]
  omega

theorem atoi_repr {n : ℕ} (h : n < 2 ^ 31) : atoi n.repr = n := by
  have hdigits (c : Char) (hc : c ∈ Nat.toDigits 10 n) : c.isDigit = true :=
    Nat.isDigit_of_mem_toDigits (by decide) (by decide) hc
  have hdecimal : decimal (Nat.toDigits 10 n) = n := by
    rw [decimal, List.takeWhile_eq_self_iff.mpr hdigits, Nat.ofDigitChars_ten_toDigits]
  have hstrtol : strtol n.repr = n := by
    rw [strtol, Nat.toList_repr]
    cases hcs : Nat.toDigits 10 n with
    | nil => exact absurd hcs Nat.toDigits_ne_nil
    | cons c cs =>
      rw [hcs] at hdecimal hdigits
      have hc := hdigits c List.mem_cons_self
      rw [List.dropWhile_cons_of_neg (by simp [isSpace_of_isDigit hc])]
      -- a digit is not a sign
      split
      next heq =>
        obtain ⟨rfl, -⟩ := List.cons.inj heq
        cases hc
      next heq =>
        obtain ⟨rfl, -⟩ := List.cons.inj heq
        cases hc
      next =>
        rw [hdecimal]
        omega
  rw [atoi, hstrtol]
  exact Int.bmod_eq_of_le (by omega) (by omega)

/-- The text of a speed. -/
def BaudRate.text (b : BaudRate) : String :=
  ((baudMap.find? fun entry => entry.2 = b).map Prod.fst).getD ""

theorem baudRateFromString_text (b : BaudRate) : baudRateFromString b.text = some b := by
  cases b <;> decide

/-- Options that lead to a call. -/
def OpenCall.render (c : OpenCall) : List Opt :=
  (if c.useIdPathTag then .idPathTag c.ttyPath else .tty c.ttyPath) :: .baud c.baud.text ::
    .hwflow (if c.hwFlowControl then "TRUE" else "FALSE") ::
    ((if c.localEid = 0 then [] else [.localEid c.localEid.toNat.repr]) ++
      c.peerEids.map fun eid => .remoteEid eid.toNat.repr)

theorem isEid_toNat {eid : Byte} (h0 : eid ≠ 0) (hff : eid ≠ 0xFF) : IsEid eid.toNat := by
  have hlt := eid.isLt
  rw [IsEid]
  rw [ne_eq, ← BitVec.toNat_inj] at h0 hff
  simp at h0 hff
  omega

theorem turn_eid (p : Parsing) {eid : Byte} (h0 : eid ≠ 0) (hff : eid ≠ 0xFF) :
    p.turn (.localEid eid.toNat.repr) =
        .ok { p with opts := { p.opts with localEid := some eid.toNat } } ∧
      p.turn (.remoteEid eid.toNat.repr) =
        .ok { p with opts := { p.opts with remoteEid := some eid.toNat } } := by
  have hatoi : atoi eid.toNat.repr = eid.toNat := atoi_repr (Nat.lt_trans eid.isLt (by decide))
  have harg (option : String) : eidArg option eid.toNat.repr = .ok (eid.toNat : ℤ) := by
    rcases eidArg_cases option eid.toNat.repr with ⟨-, harg⟩ | ⟨hnot, -⟩
    · rw [harg, hatoi]
    · rw [hatoi] at hnot
      exact absurd (isEid_toNat h0 hff) hnot
  rw [Parsing.turn, Parsing.turn, harg, harg]
  exact ⟨rfl, rfl⟩

theorem turn_hwflow (p : Parsing) (b : Bool) :
    p.turn (.hwflow (if b then "TRUE" else "FALSE")) =
      .ok { p with opts := { p.opts with hwflow := b } } := by
  have hb : parseBool (if b then "TRUE" else "FALSE") = some b := by cases b <;> decide +kernel
  rw [Parsing.turn, hb]

theorem parseArgs_render {c : OpenCall} {peer : Byte} (hlocal : c.localEid ≠ 0xFF)
    (hpeer : c.peerEids = [peer]) (h0 : peer ≠ 0) (hff : peer ≠ 0xFF) :
    ∃ opts, parseArgs c.render = .ok opts ∧ opts.openCall = c := by
  obtain ⟨ttyPath, baud, hwFlowControl, localEid, peerEids, useIdPathTag⟩ := c
  obtain rfl : peerEids = [peer] := hpeer
  have hbaud (p : Parsing) :
      p.turn (.baud baud.text) = .ok { p with opts := { p.opts with baud := some baud } } := by
    rw [Parsing.turn, baudRateFromString_text]
  have hpath (p : Parsing) : p.turn (.idPathTag ttyPath) =
      .ok { p with opts := { p.opts with idPathTag := some ttyPath } } := rfl
  have htty (p : Parsing) : p.turn (.tty ttyPath) =
      .ok { opts := { p.opts with tty := ttyPath }, seenTty := true } := rfl
  have hremote (p : Parsing) := (turn_eid p h0 hff).2
  refine ⟨{ tty := if useIdPathTag then "" else ttyPath
            baud := some baud
            hwflow := hwFlowControl
            ifname := none
            idPathTag := if useIdPathTag then some ttyPath else none
            localEid := if localEid = 0 then none else some localEid.toNat
            remoteEid := some peer.toNat }, ?_, ?_⟩
  · by_cases hl : localEid = 0
    · cases useIdPathTag <;>
        simp [parseArgs, OpenCall.render, hl, hbaud, turn_hwflow, hremote, hpath, htty,
          Parsing.validate, CmdOptions.init, bind, Except.bind, pure, Except.pure]
    · have hlocal' (p : Parsing) := (turn_eid p hl hlocal).1
      simp only [OpenCall.render, if_neg hl]
      cases useIdPathTag <;>
        simp [parseArgs, hbaud, turn_hwflow, hremote, hlocal', hpath, htty,
          Parsing.validate, CmdOptions.init, bind, Except.bind, pure, Except.pure]
  · have hback : (if localEid = 0 then none else some (localEid.toNat : ℤ)).elim 0
        (BitVec.ofInt 8) = localEid := by
      split
      next hl => exact hl.symm
      next => simp
    rw [CmdOptions.openCall, hback]
    cases useIdPathTag <;> simp

/-- The calls of `open` that a command line can lead to. There is one peer, and neither it nor the
endpoint itself is broadcast; the path may be empty. -/
theorem called_iff (progName : String) (c : OpenCall) :
    (∃ os bridge, c ∈ (main progName os bridge).opened) ↔
      c.localEid ≠ 0xFF ∧ ∃ peer, c.peerEids = [peer] ∧ peer ≠ 0 ∧ peer ≠ 0xFF := by
  constructor
  · rintro ⟨os, bridge, hc⟩
    obtain ⟨opts, hopts, rfl⟩ := mem_opened.mp hc
    obtain ⟨hlocal, v, hv, heid⟩ := accepted_eids hopts
    refine ⟨?_, BitVec.ofInt 8 v, by rw [CmdOptions.openCall, hv]; rfl, ofInt_ne heid⟩
    cases hl : opts.localEid with
    | none =>
      rw [CmdOptions.openCall, hl]
      exact (by decide : (0 : Byte) ≠ 0xFF)
    | some w =>
      rw [CmdOptions.openCall, hl]
      exact (ofInt_ne (hlocal w hl)).2
  · rintro ⟨hlocal, peer, hpeer, h0, hff⟩
    obtain ⟨opts, hopts, hcall⟩ := parseArgs_render hlocal hpeer h0 hff
    exact ⟨c.render, fun _ => none, mem_opened.mpr ⟨opts, hopts, hcall⟩⟩

/-! ## The requested name -/

def Opt.isIfname : Opt → Bool
  | ifname _ => true
  | _ => false

theorem last_filter {α : Type} {arg : Opt → Option α} {keep : Opt → Bool}
    (h : ∀ o, keep o = false → arg o = none) (os : List Opt) :
    last arg (os.filter keep) = last arg os := by
  have harg : (fun o => if keep o = true then arg o else none) = arg := by
    funext o
    cases hkeep : keep o with
    | true => rfl
    | false => exact (h o hkeep).symm
  rw [last, last, List.filterMap_filter, harg]

theorem last_ifname_filter (os : List Opt) :
    last Opt.ifnameArg (os.filter fun o => !o.isIfname) = none := by
  rw [last, List.filterMap_filter, List.getLast?_eq_none_iff, List.filterMap_eq_nil_iff]
  intro o _
  cases o with
  | _ => rfl

theorem gathered_filter (os : List Opt) :
    gathered (os.filter fun o => !o.isIfname) =
      { gathered os with opts := { (gathered os).opts with ifname := none } } := by
  have hother {α : Type} (arg : Opt → Option α) (h : ∀ name, arg (.ifname name) = none) :
      last arg (os.filter fun o => !o.isIfname) = last arg os :=
    last_filter (fun o ho => by
      cases o with
      | ifname name => exact h name
      | _ => cases ho) os
  simp only [gathered, last_ifname_filter, hother Opt.ttyArg fun _ => rfl,
    hother Opt.baudArg fun _ => rfl, hother Opt.hwflowArg fun _ => rfl,
    hother Opt.idPathTagArg fun _ => rfl, hother Opt.localEidArg fun _ => rfl,
    hother Opt.remoteEidArg fun _ => rfl]

theorem parseArgs_filter {os : List Opt} {opts : CmdOptions} (h : parseArgs os = .ok opts) :
    parseArgs (os.filter fun o => !o.isIfname) = .ok { opts with ifname := none } := by
  obtain ⟨hall, hopts, hpath, -, hremote⟩ := (parseArgs_ok_iff os opts).mp h
  rw [parseArgs_ok_iff, gathered_filter]
  subst hopts
  exact ⟨fun o ho => hall o (List.mem_of_mem_filter ho), rfl, hpath, .inl rfl, hremote⟩

/-- A name of the interface that is requested is printed, and used for nothing else: the run is
the one without the request of a bridge whose interface has that name. -/
theorem requested_name_is_printed {os : List Opt} {opts : CmdOptions} (h : parseArgs os = .ok opts)
    (progName : String) (bridge : OpenCall → Option (String × String)) :
    main progName os bridge = main progName (os.filter fun o => !o.isIfname) fun c =>
      (bridge c).map fun names => (opts.ifname.getD names.1, names.2) := by
  have hcall : opts.openCall = CmdOptions.openCall { opts with ifname := none } := rfl
  rw [main, main, h, parseArgs_filter h]
  dsimp only
  rw [← hcall]
  cases bridge opts.openCall with
  | none => rfl
  | some names => rfl

theorem requested_name_is_printed_kernel :
    main "mctp-bridge" [.tty "/dev/ttyUSB0", .ifname "mctp0", .remoteEid "8"]
        (fun _ => some ("mctpserial0", "mctpserial0_broadcast")) =
      main "mctp-bridge" [.tty "/dev/ttyUSB0", .remoteEid "8"]
        fun _ => some ("mctp0", "mctpserial0_broadcast") := by
  have h : parseArgs [.tty "/dev/ttyUSB0", .ifname "mctp0", .remoteEid "8"] =
      .ok ⟨"/dev/ttyUSB0", none, false, some "mctp0", none, none, some 8⟩ := by decide +kernel
  exact requested_name_is_printed h "mctp-bridge" fun _ => some ("mctpserial0", "mctpserial0_broadcast")

/-! ## From the arguments to the kernel -/

section Kernel
open LinuxMctpSerial MctpNetlink GuardedRuns

theorem opened_reads_last {progName : String} {os : List Opt}
    {bridge : OpenCall → Option (String × String)} {c : OpenCall}
    (hc : c ∈ (main progName os bridge).opened) :
    (if c.localEid ≠ 0 then [c.localEid] else []) =
        (last Opt.localEidArg os).toList.map (BitVec.ofInt 8) ∧
      (last Opt.remoteEidArg os).isSome = true ∧
      c.peerEids = (last Opt.remoteEidArg os).toList.map (BitVec.ofInt 8) := by
  obtain ⟨opts, hopts, rfl⟩ := mem_opened.mp hc
  have hlocal := (accepted_eids hopts).1
  obtain ⟨-, rfl, -, -, hremote⟩ := (parseArgs_ok_iff os opts).mp hopts
  refine ⟨?_, hremote, rfl⟩
  rw [CmdOptions.openCall]
  cases hl : last Opt.localEidArg os with
  | none =>
    have hnone : (gathered os).opts.localEid = none := hl
    rw [hnone]
    rfl
  | some v =>
    have hsome : (gathered os).opts.localEid = some v := hl
    rw [hsome]
    exact if_pos (ofInt_ne (hlocal v hsome)).1

/-- In every state of every run of the bridge in which `open`, as `main` has called it, brings up
the kernel endpoint and finds its interface, the messages to the kernel are read back as the
address that the last `--local-eid` gives, if there is one, the link being up, and one route, to
what the last `--remote-eid` gives. No message is for a name that is asked for. -/
theorem arguments_reach_kernel {progName : String} {os : List Opt}
    {bridge : OpenCall → Option (String × String)} {c : OpenCall}
    (hc : c ∈ (main progName os bridge).opened) {ms : List MctpBridge.Move}
    {s : MctpBridge.Life} (hrun : exec MctpBridge.Life.step MctpBridge.Life.start ms = some s)
    {slaveDup : Option ℕ} (hstage : s.stage = .endpoint slaveDup) {setup : SetupCalls}
    {name : String} (hup : (s.object.linuxEndpoint.initializeLink s.object.ifname c.localEid
      c.peerEids setup).2.2 = .ok name) (o : MemoryWalks.ByteOrder) (hosts : ℕ → Host)
    (index : BitVec 32) (hindex : index ≠ 0)
    (hfound : ∀ i, (hosts i).ifindex = index ∧ (hosts i).opening = .opened) :
    ∃ remote, last Opt.remoteEidArg os = some remote ∧
      List.Forall₂ (Decodes o)
        (messages o hosts 0 (netlinkCalls (s.object.linuxEndpoint.initializeLink s.object.ifname
          c.localEid c.peerEids setup).2.1))
        ((last Opt.localEidArg os).toList.map
            (fun v => addrRequest rtmNewaddr index (BitVec.ofInt 8 v)) ++
          [linkRequest index iffUp iffUp .nil,
            routeRequest o (nlmFRequest ||| nlmFCreate ||| nlmFExcl ||| nlmFAck) rtmNewroute index
              (BitVec.ofInt 8 remote)]) := by
  obtain ⟨hlocal, hsome, hpeers⟩ := opened_reads_last hc
  obtain ⟨remote, hremote⟩ := Option.isSome_iff_exists.mp hsome
  refine ⟨remote, hremote, ?_⟩
  rw [MctpBridge.Life.unnamed_of_run hrun slaveDup hstage] at hup ⊢
  rw [initializeLink_calls hup]
  have hmessages := messages_decode (o := o) hfound hindex name c.localEid c.peerEids
  have haddress : (if c.localEid ≠ 0 then [addrRequest rtmNewaddr index c.localEid] else []) =
      (last Opt.localEidArg os).toList.map
        (fun v => addrRequest rtmNewaddr index (BitVec.ofInt 8 v)) := by
    have hmap := congrArg (List.map (addrRequest rtmNewaddr index)) hlocal
    rw [apply_ite (List.map _), List.map_map] at hmap
    exact hmap
  have hroute : routes o index c.peerEids =
      [routeRequest o (nlmFRequest ||| nlmFCreate ||| nlmFExcl ||| nlmFAck) rtmNewroute index
        (BitVec.ofInt 8 remote)] := by
    rw [hpeers, hremote]
    rfl
  rw [bringUp, haddress, hroute] at hmessages
  exact hmessages

/-- The second number counts, up to the letter behind it. -/
theorem arguments_reach_kernel_forwarder : ∃ s,
    exec MctpBridge.Life.step MctpBridge.Life.start (MctpBridge.Life.forwarderRun.take 3) = some s ∧
    List.Forall₂ (Decodes .little)
      (messages .little (fun _ => willingHost) 0 (netlinkCalls
        (s.object.linuxEndpoint.initializeLink s.object.ifname 9 [10]
          LinuxMctpSerial.Life.goodSetup).2.1))
      [addrRequest rtmNewaddr 4 9, linkRequest 4 1 1 .nil,
        routeRequest .little 0x605 rtmNewroute 4 10] := by
  obtain ⟨s, hrun, hstage, hok⟩ := MctpBridge.Life.forwarder_endpoint
  have hargs : parseArgs [.localEid "8", .idPathTag "usb-1", .remoteEid "10", .localEid " +9x"] =
      .ok ⟨"", none, false, none, some "usb-1", some 9, some 10⟩ := by decide +kernel
  have hcalled : (⟨"usb-1", .br115200, false, 9, [10], true⟩ : OpenCall) ∈
      (main "mctp-bridge" [.localEid "8", .idPathTag "usb-1", .remoteEid "10", .localEid " +9x"]
        fun _ => none).opened :=
    mem_opened.mpr ⟨_, hargs, rfl⟩
  obtain ⟨remote, hremote, hmessages⟩ := arguments_reach_kernel hcalled hrun hstage hok .little
    (fun _ => willingHost) 4 (by decide) fun _ => ⟨rfl, rfl⟩
  have hten : some remote = some 10 := hremote.symm.trans (by decide +kernel)
  cases hten
  have hlast : last Opt.localEidArg [.localEid "8", .idPathTag "usb-1", .remoteEid "10",
      .localEid " +9x"] = some 9 := by decide +kernel
  rw [hlast] at hmessages
  exact ⟨s, hrun, hmessages⟩

end Kernel

end MctpSerial.CommandLine
