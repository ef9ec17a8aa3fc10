import MctpSerial.DeviceForwarding

/-!
# Following the device

The tty is put into its surroundings: a device with the requested tag comes and goes, the
udev monitor queues one event for each of these changes among events of other devices, and
the worker takes events from the queue and serves the descriptors. The worker learns of a
device only from events, and never looks for one that was there before the monitor was
enabled.
-/
namespace MctpSerial.ManagedUsbTty
open MctpFramer DescriptorLedgers GuardedRuns

/-- The event tells of a tty with the requested tag that comes or goes. -/
def UdevDevice.Reports (dev : UdevDevice) (serialId : String) : Prop :=
  dev.subsystem = some "tty" ∧ dev.idPathTag = some serialId ∧
    (dev.action = some "add" ∨ dev.action = some "remove")

instance (dev : UdevDevice) (serialId : String) : Decidable (dev.Reports serialId) :=
  inferInstanceAs (Decidable (_ ∧ _ ∧ (_ ∨ _)))

/-- The event as it is handled, with the device found again under its system path. -/
def UdevDevice.probed (dev : UdevDevice) (probe : Option (Option String)) : UdevDevice :=
  { dev with probe := probe }

/-- The event with the tag that is matched. -/
def UdevDevice.retagged (dev : UdevDevice) : UdevDevice := { dev with idPathTag := dev.useTag }

/-- The tty with its surroundings. `present` says whether a tty with the requested tag
exists, and `pending` holds the events the worker has not received yet. -/
structure World where
  tty : ManagedUsbTty
  present : Bool
  pending : List UdevDevice

/-- One change of the surroundings, or one event handled by the worker. An event taken
from the queue is probed when it is handled. -/
inductive Change where
  | plug (dev : UdevDevice)
  | unplug (dev : UdevDevice)
  | other (dev : UdevDevice)
  | receive (probe : Option (Option String)) (os : AttachCalls)
  | io (fd : ℤ) (calls : EventCalls)
  deriving DecidableEq

namespace World

/-- The worker has just enabled the monitor. -/
def start (serialId : String) (pty udev : ℕ) (present : Bool) : World :=
  ⟨ManagedUsbTty.start serialId pty (some udev) true, present, []⟩

/-- What the worker is told when it receives from the monitor. -/
def received (w : World) (probe : Option (Option String)) (os : AttachCalls) : EventCalls :=
  ⟨w.pending.head?.map fun dev => dev.probed probe, os, .again, []⟩

/-- At most one tty has the requested tag, and each of its changes queues one event. -/
def step (w : World) : Change → Option World
  | .plug dev =>
    if w.present = false ∧ dev.Reports w.tty.serialId ∧ dev.action = some "add" ∧ dev.devnode.isSome then
      some { w with present := true, pending := w.pending ++ [dev] }
    else none
  | .unplug dev =>
    if w.present = true ∧ dev.Reports w.tty.serialId ∧ dev.action = some "remove" then
      some { w with present := false, pending := w.pending ++ [dev] }
    else none
  | .other dev =>
    if dev.Reports w.tty.serialId then none else some { w with pending := w.pending ++ [dev] }
  | .receive probe os =>
    (w.tty.step (.event w.tty.udevFd (w.received probe os))).map fun tty =>
      { w with tty := tty, pending := w.pending.tail }
  | .io fd calls =>
    if fd = w.tty.udevFd then none
    else (w.tty.step (.event fd calls)).map fun tty => { w with tty := tty }

/-- The device can be opened and configured, no read or write on it fails, and the tag seen
by the worker is right: the probe may be overtaken by a later change of the same device,
but not by anything else. -/
def Supposed (w : World) : Change → Prop
  | .receive probe os =>
    (∃ ofd ∈ os.openTty, configureSerial ofd os = musbOk) ∧
      ∀ dev ∈ w.pending.head?,
        (dev.Reports w.tty.serialId →
          (∀ later ∈ w.pending.tail, ¬ later.Reports w.tty.serialId) →
          (dev.probed probe).useTag = some w.tty.serialId) ∧
        (¬ dev.Reports w.tty.serialId → ¬ (dev.probed probe).retagged.Reports w.tty.serialId)
  | .io fd calls =>
    (fd = w.tty.ptyMasterFd → .failed ∉ calls.writes) ∧
      (fd = w.tty.physFd → calls.read.received ≠ [] ∨ calls.read = .again)
  | _ => True

/-- No write to the PTY master fails. -/
def PtyTakes (w : World) : Change → Prop
  | .io fd calls => fd = w.tty.physFd → .failed ∉ calls.writes
  | _ => True

instance (w : World) : ∀ l, Decidable (w.Supposed l)
  | .receive probe os => inferInstanceAs (Decidable
      ((∃ ofd ∈ os.openTty, configureSerial ofd os = musbOk) ∧
        ∀ dev ∈ w.pending.head?,
          (dev.Reports w.tty.serialId →
            (∀ later ∈ w.pending.tail, ¬ later.Reports w.tty.serialId) →
            (dev.probed probe).useTag = some w.tty.serialId) ∧
          (¬ dev.Reports w.tty.serialId →
            ¬ (dev.probed probe).retagged.Reports w.tty.serialId)))
  | .io fd calls => inferInstanceAs (Decidable
      ((fd = w.tty.ptyMasterFd → .failed ∉ calls.writes) ∧
        (fd = w.tty.physFd → calls.read.received ≠ [] ∨ calls.read = .again)))
  | .plug _ => isTrue trivial
  | .unplug _ => isTrue trivial
  | .other _ => isTrue trivial

instance (w : World) : ∀ l, Decidable (w.PtyTakes l)
  | .io fd calls => inferInstanceAs (Decidable (fd = w.tty.physFd → .failed ∉ calls.writes))
  | .receive _ _ => isTrue trivial
  | .plug _ => isTrue trivial
  | .unplug _ => isTrue trivial
  | .other _ => isTrue trivial

end World

/-- The device was there before the monitor was, and has stayed. -/
def Untold (present : Bool) (ls : List Change) : Prop :=
  present = true ∧ ∀ dev, .unplug dev ∉ ls

section Worker

variable {s t : ManagedUsbTty}

theorem writeLoop_ok {os : List TtyWrite} {buf w : List Byte} {ok : Bool}
    (h : writeLoop os buf = some (w, ok)) (hos : .failed ∉ os) : ok = true := by
  fun_induction writeLoop os buf generalizing w with
  | case1 os =>
    cases h
    rfl
  | case2 b bs => cases h
  | case3 more os buf hne ih =>
    obtain ⟨⟨v, ok'⟩, hv, hvw⟩ := Option.map_eq_some_iff.mp h
    obtain ⟨-, rfl⟩ := Prod.mk.inj hvw
    exact ih hv fun hmem => hos (List.mem_cons_of_mem _ hmem)
  | case4 os buf hne ih => exact ih h fun hmem => hos (List.mem_cons_of_mem _ hmem)
  | case5 os buf hne ih => exact ih h fun hmem => hos (List.mem_cons_of_mem _ hmem)
  | case6 os buf hne => exact absurd List.mem_cons_self hos

theorem handlePty_physFd {r : TtyRead} {os : List TtyWrite} (hos : .failed ∉ os)
    (h : s.handlePty r os = some t) :
    t.physFd = s.physFd ∧ t.serialId = s.serialId ∧ t.udevFd = s.udevFd := by
  obtain rfl | ⟨-, w, ok, hw, u, rfl, rfl⟩ := handlePty_cases h
  · exact ⟨rfl, rfl, rfl⟩
  · obtain rfl := writeLoop_ok hw hos
    exact ⟨rfl, rfl, rfl⟩

theorem handlePhys_physFd {r : TtyRead} {os : List TtyWrite} (hos : .failed ∉ os)
    (hr : r.received ≠ [] ∨ r = .again) (h : s.handlePhys r os = some t) :
    t.physFd = s.physFd ∧ t.serialId = s.serialId ∧ t.udevFd = s.udevFd := by
  obtain ⟨-, w, ok, hw, u, rfl, rfl⟩ | ⟨hnil, rfl⟩ := handlePhys_cases h
  · obtain rfl := writeLoop_ok hw hos
    exact ⟨rfl, rfl, rfl⟩
  · rw [if_pos (hr.resolve_left (not_ne_iff.mpr hnil))]
    exact ⟨rfl, rfl, rfl⟩

/-- The worker attaches the device when it is told of it. -/
theorem handleUdev_add {dev : UdevDevice} {os : AttachCalls} (hsub : dev.subsystem = some "tty")
    (hact : dev.action = some "add") (htag : dev.useTag = some s.serialId)
    (hnode : dev.devnode.isSome) (hos : ∃ ofd ∈ os.openTty, configureSerial ofd os = musbOk) :
    0 ≤ (s.handleUdev (some dev) os).physFd := by
  obtain ⟨devnode, hdevnode⟩ := Option.isSome_iff_exists.mp hnode
  obtain ⟨ofd, hofd, hok⟩ := hos
  simp only [handleUdev, hact, hsub, hdevnode, matchesSerialId, htag, beq_self_eq_true, ne_eq,
    not_true_eq_false, if_false, if_true, openDevice, Option.mem_def.mp hofd, hok,
    (by decide : ¬ "add" = "remove")]
  exact Int.natCast_nonneg ofd

theorem handleUdev_remove {dev : UdevDevice} {os : AttachCalls}
    (hsub : dev.subsystem = some "tty") (hact : dev.action = some "remove")
    (htag : dev.useTag = some s.serialId) : (s.handleUdev (some dev) os).physFd < 0 := by
  simp only [handleUdev, hact, hsub, matchesSerialId, htag, beq_self_eq_true, ne_eq,
    not_true_eq_false, if_false, if_true, true_and]
  split
  next => exact (by decide : (-1 : ℤ) < 0)
  next h0 => exact not_le.mp h0

/-- An event of another device changes nothing. -/
theorem handleUdev_other {dev : UdevDevice} {os : AttachCalls}
    (h : ¬ dev.retagged.Reports s.serialId) : s.handleUdev (some dev) os = s := by
  obtain ⟨action, subsystem, devnode, idPathTag, probe⟩ := dev
  cases action with
  | none => rfl
  | some action =>
    cases subsystem with
    | none => rfl
    | some subsystem =>
      unfold handleUdev
      dsimp only
      split
      next => rfl
      next hsub =>
        by_cases hmatch : s.matchesSerialId (UdevDevice.useTag ⟨some action, some subsystem,
            devnode, idPathTag, probe⟩) = true
        · have hact : ¬ (action = "add" ∨ action = "remove") := fun hact =>
            h ⟨congrArg some (not_not.mp hsub), eq_of_beq hmatch,
              hact.imp (congrArg some) (congrArg some)⟩
          rw [not_or] at hact
          simp [hact.1, hact.2]
        · simp [Bool.not_eq_true _ ▸ hmatch]

theorem handleUdev_frame (s : ManagedUsbTty) (dev : Option UdevDevice) (os : AttachCalls) :
    (s.handleUdev dev os).serialId = s.serialId ∧ (s.handleUdev dev os).udevFd = s.udevFd := by
  cases dev with
  | none => exact ⟨rfl, rfl⟩
  | some dev =>
    obtain ⟨hsame, -⟩ | ⟨-, hclose, -⟩ | ⟨devnode, hopen, -⟩ := handleUdev_cases s dev os
    · rw [hsame]
      exact ⟨rfl, rfl⟩
    · rw [hclose]
      exact ⟨rfl, rfl⟩
    · rw [hopen, openDevice]
      split
      next => exact ⟨rfl, rfl⟩
      next =>
        split
        next => exact ⟨rfl, rfl⟩
        next => exact ⟨rfl, rfl⟩

end Worker

/-- The last queued event that tells of the device. -/
def lastReport (serialId : String) (pending : List UdevDevice) : Option UdevDevice :=
  (pending.filter (·.Reports serialId)).getLast?

section Queue

variable {serialId : String} {dev : UdevDevice} {pending : List UdevDevice}

theorem lastReport_concat (pending : List UdevDevice) (h : dev.Reports serialId) :
    lastReport serialId (pending ++ [dev]) = some dev := by
  simp [lastReport, h]

theorem lastReport_concat_other (pending : List UdevDevice) (h : ¬ dev.Reports serialId) :
    lastReport serialId (pending ++ [dev]) = lastReport serialId pending := by
  simp [lastReport, h]

theorem lastReport_cons_other (h : ¬ dev.Reports serialId) :
    lastReport serialId (dev :: pending) = lastReport serialId pending := by
  simp [lastReport, h]

/-- An event is the last of its kind, or a later one is. -/
theorem lastReport_cons (pending : List UdevDevice) (h : dev.Reports serialId) :
    (lastReport serialId (dev :: pending) = some dev ∧ lastReport serialId pending = none ∧
      ∀ later ∈ pending, ¬ later.Reports serialId) ∨
    (lastReport serialId pending ≠ none ∧
      lastReport serialId (dev :: pending) = lastReport serialId pending) := by
  cases hf : pending.filter (·.Reports serialId) with
  | nil =>
    refine Or.inl ⟨by simp [lastReport, h, hf], by simp [lastReport, hf], fun later hmem => ?_⟩
    simpa using List.filter_eq_nil_iff.mp hf later hmem
  | cons x xs =>
    refine Or.inr ⟨by simp [lastReport, hf], ?_⟩
    simp [lastReport, h, hf, List.getLast?_cons_cons]

theorem lastReport_of_tail {x : UdevDevice} (h : lastReport serialId pending = some x) :
    lastReport serialId (dev :: pending) = some x := by
  by_cases hrep : dev.Reports serialId
  · obtain ⟨-, hnone, -⟩ | ⟨-, hsame⟩ := lastReport_cons pending hrep
    · cases hnone.symm.trans h
    · exact hsame.trans h
  · exact (lastReport_cons_other hrep).trans h

end Queue

/-- The worker is up to date with the last event handled, and the queue with the device. -/
structure Follows (serialId : String) (present : Bool) (ls : List Change) (w : World) : Prop where
  tag : w.tty.serialId = serialId
  udev : 0 ≤ w.tty.udevFd
  nodes : ∀ dev ∈ w.pending, dev.Reports serialId → dev.action = some "add" → dev.devnode.isSome
  untold : Untold present ls → w.present = true
  settled : lastReport serialId w.pending = none →
    (0 ≤ w.tty.physFd ↔ w.present = true ∧ ¬ Untold present ls)
  told : ∀ dev, lastReport serialId w.pending = some dev →
    ¬ Untold present ls ∧ (dev.action = some "add" ↔ w.present = true)

section Runs

variable {serialId : String} {present : Bool} {ls : List Change} {w v : World}

theorem untold_concat (present : Bool) (ls : List Change) {l : Change}
    (h : ∀ dev, l ≠ .unplug dev) :
    Untold present (ls ++ [l]) ↔ Untold present ls := by
  simp only [Untold, List.mem_append, List.mem_singleton]
  refine and_congr_right fun _ => forall_congr' fun dev => ?_
  rw [or_iff_left (h dev).symm]

theorem follows_start (serialId : String) (pty udev : ℕ) (present : Bool) :
    Follows serialId present [] (World.start serialId pty udev present) where
  tag := rfl
  udev := Int.natCast_nonneg udev
  nodes := nofun
  untold h := h.1
  settled _ := by simp [World.start, ManagedUsbTty.start, Untold]
  told := nofun

theorem Follows.plug {dev : UdevDevice} (h : Follows serialId present ls w)
    (hstep : w.step (.plug dev) = some v) : Follows serialId present (ls ++ [.plug dev]) v := by
  simp only [World.step, Option.ite_none_right_eq_some, Option.some.injEq] at hstep
  obtain ⟨⟨habsent, hrep, hadd, hnode⟩, rfl⟩ := hstep
  rw [h.tag] at hrep
  have hnot : ¬ Untold present ls := fun hu => by
    rw [h.untold hu] at habsent
    cases habsent
  have hiff := untold_concat present ls (l := .plug dev) nofun
  have hlast := lastReport_concat w.pending hrep
  refine ⟨h.tag, h.udev, fun x hx => ?_, fun _ => rfl, fun hnone => ?_, fun x hx => ?_⟩
  · rcases List.mem_append.mp hx with hx | hx
    · exact h.nodes x hx
    · rw [List.mem_singleton.mp hx]
      exact fun _ _ => hnode
  · cases hlast.symm.trans hnone
  · obtain rfl : dev = x := Option.some.inj (hlast.symm.trans hx)
    exact ⟨fun hu => hnot (hiff.mp hu), iff_of_true hadd rfl⟩

theorem Follows.unplug {dev : UdevDevice} (h : Follows serialId present ls w)
    (hstep : w.step (.unplug dev) = some v) : Follows serialId present (ls ++ [.unplug dev]) v := by
  simp only [World.step, Option.ite_none_right_eq_some, Option.some.injEq] at hstep
  obtain ⟨⟨-, hrep, hremove⟩, rfl⟩ := hstep
  rw [h.tag] at hrep
  have hnot : ¬ Untold present (ls ++ [.unplug dev]) := fun hu => hu.2 dev (by simp)
  have hlast := lastReport_concat w.pending hrep
  refine ⟨h.tag, h.udev, fun x hx => ?_, fun hu => absurd hu hnot, fun hnone => ?_,
    fun x hx => ?_⟩
  · rcases List.mem_append.mp hx with hx | hx
    · exact h.nodes x hx
    · rw [List.mem_singleton.mp hx, hremove]
      exact fun _ hadd => absurd (Option.some.inj hadd) (by decide)
  · cases hlast.symm.trans hnone
  · obtain rfl : dev = x := Option.some.inj (hlast.symm.trans hx)
    refine ⟨hnot, iff_of_false ?_ nofun⟩
    rw [hremove]
    decide

theorem Follows.other {dev : UdevDevice} (h : Follows serialId present ls w)
    (hstep : w.step (.other dev) = some v) : Follows serialId present (ls ++ [.other dev]) v := by
  simp only [World.step, Option.ite_none_left_eq_some, Option.some.injEq] at hstep
  obtain ⟨hrep, rfl⟩ := hstep
  rw [h.tag] at hrep
  have hiff := untold_concat present ls (l := .other dev) nofun
  have hlast := lastReport_concat_other w.pending hrep
  refine ⟨h.tag, h.udev, fun x hx => ?_, fun hu => h.untold (hiff.mp hu), ?_, ?_⟩
  · rcases List.mem_append.mp hx with hx | hx
    · exact h.nodes x hx
    · rw [List.mem_singleton.mp hx]
      exact fun hx' => absurd hx' hrep
  · rw [hlast, hiff]
    exact h.settled
  · rw [hlast, hiff]
    exact h.told

/-- Only the last event of the device has to be understood: those before it are overtaken. -/
theorem Follows.handleUdev_iff {probe : Option (Option String)} {os : AttachCalls}
    {dev : UdevDevice} {rest : List UdevDevice} (h : Follows serialId present ls w)
    (hG : w.Supposed (.receive probe os)) (hp : w.pending = dev :: rest)
    (hnone : lastReport serialId rest = none) :
    0 ≤ (w.tty.handleUdev (some (dev.probed probe)) os).physFd ↔
      w.present = true ∧ ¬ Untold present ls := by
  obtain ⟨hopen, hprobe⟩ := hG
  obtain ⟨hours, htheirs⟩ := hprobe dev (by simp [hp])
  rw [h.tag] at hours htheirs
  by_cases hrep : dev.Reports serialId
  · obtain ⟨hlast, -, hlater⟩ | ⟨hsome, -⟩ := lastReport_cons rest hrep
    · obtain ⟨hnot, hact⟩ := h.told dev (by rw [hp, hlast])
      have huse : (dev.probed probe).useTag = some w.tty.serialId := by
        rw [h.tag]
        exact hours hrep (by rw [hp]; exact hlater)
      rcases hrep.2.2 with hadd | hremove
      · refine iff_of_true ?_ ⟨hact.mp hadd, hnot⟩
        exact handleUdev_add hrep.1 hadd huse (h.nodes dev (by simp [hp]) hrep hadd) hopen
      · refine iff_of_false (not_le.mpr (handleUdev_remove hrep.1 hremove huse)) fun hpres => ?_
        have hadd := hact.mpr hpres.1
        rw [hremove] at hadd
        exact absurd hadd (by decide)
    · exact absurd hnone hsome
  · have hfar := htheirs hrep
    rw [← h.tag] at hfar
    rw [handleUdev_other hfar]
    exact h.settled (by rw [hp, lastReport_cons_other hrep]; exact hnone)

theorem Follows.receive {probe : Option (Option String)} {os : AttachCalls}
    (h : Follows serialId present ls w) (hG : w.Supposed (.receive probe os))
    (hstep : w.step (.receive probe os) = some v) :
    Follows serialId present (ls ++ [.receive probe os]) v := by
  have hiff := untold_concat present ls (l := .receive probe os) nofun
  obtain ⟨tty, htty, rfl⟩ := Option.map_eq_some_iff.mp hstep
  simp only [ManagedUsbTty.step, Option.ite_none_right_eq_some, handleEvent, if_pos, h.udev,
    ge_iff_le, true_and, Option.some.injEq] at htty
  obtain ⟨-, rfl⟩ := htty
  obtain ⟨htag, hudev⟩ := handleUdev_frame w.tty (w.received probe os).device
    (w.received probe os).attach
  refine ⟨htag.trans h.tag, hudev ▸ h.udev, fun x hx => h.nodes x (List.mem_of_mem_tail hx),
    fun hu => h.untold (hiff.mp hu), ?_, ?_⟩
  · dsimp only
    rw [hiff]
    intro hnone
    cases hp : w.pending with
    | nil =>
      have hsame : w.tty.handleUdev (w.received probe os).device (w.received probe os).attach =
          w.tty := by
        simp [World.received, hp, handleUdev]
      rw [hsame]
      exact h.settled (by rw [hp]; rfl)
    | cons dev rest =>
      have hdev : (w.received probe os).device = some (dev.probed probe) := by
        simp [World.received, hp]
      rw [hp] at hnone
      rw [hdev]
      exact h.handleUdev_iff hG hp hnone
  · dsimp only
    intro x hx
    rw [hiff]
    refine h.told x ?_
    cases hp : w.pending with
    | nil =>
      rw [hp] at hx
      cases hx
    | cons dev rest =>
      rw [hp] at hx
      exact lastReport_of_tail hx

theorem Follows.io {fd : ℤ} {calls : EventCalls} (h : Follows serialId present ls w)
    (hG : w.Supposed (.io fd calls)) (hpty : w.PtyTakes (.io fd calls))
    (hstep : w.step (.io fd calls) = some v) : Follows serialId present (ls ++ [.io fd calls]) v := by
  have hiff := untold_concat present ls (l := .io fd calls) nofun
  simp only [World.step, Option.ite_none_left_eq_some] at hstep
  obtain ⟨hfd, hstep⟩ := hstep
  obtain ⟨tty, htty, rfl⟩ := Option.map_eq_some_iff.mp hstep
  simp only [ManagedUsbTty.step, Option.ite_none_right_eq_some] at htty
  obtain ⟨-, htty⟩ := htty
  have hsame : tty.physFd = w.tty.physFd ∧ tty.serialId = w.tty.serialId ∧
      tty.udevFd = w.tty.udevFd := by
    rw [handleEvent, if_neg fun hu => hfd hu.2] at htty
    split at htty
    next hmaster => exact handlePty_physFd (hG.1 hmaster) htty
    next =>
      split at htty
      next hphys => exact handlePhys_physFd (hpty hphys.2) (hG.2 hphys.2) htty
      next =>
        cases htty
        exact ⟨rfl, rfl, rfl⟩
  obtain ⟨hphys, htag, hudev⟩ := hsame
  refine ⟨htag.trans h.tag, hudev ▸ h.udev, h.nodes, fun hu => h.untold (hiff.mp hu), ?_, ?_⟩
  · dsimp only
    rw [hphys, hiff]
    exact h.settled
  · rw [hiff]
    exact h.told

theorem follows_step {l : Change} (h : Follows serialId present ls w)
    (hG : w.Supposed l ∧ w.PtyTakes l) (hstep : w.step l = some v) :
    Follows serialId present (ls ++ [l]) v := by
  cases l with
  | plug dev => exact h.plug hstep
  | unplug dev => exact h.unplug hstep
  | other dev => exact h.other hstep
  | receive probe os => exact h.receive hG.1 hstep
  | io fd calls => exact h.io hG.1 hG.2 hstep

end Runs

/-- In surroundings as supposed, and while the PTY takes what is written to it, the worker
follows the device exactly when the device was not there before the monitor was enabled,
or has been unplugged since. -/
theorem follows_device_iff (serialId : String) (pty udev : ℕ) (present : Bool) (ls : List Change)
    (w : World) (hrun : exec World.step (World.start serialId pty udev present) ls = some w)
    (hsup : Every World.step World.Supposed (World.start serialId pty udev present) ls)
    (hpty : Every World.step World.PtyTakes (World.start serialId pty udev present) ls)
    (hdone : w.pending = []) :
    (0 ≤ w.tty.physFd ↔ w.present = true) ↔ ¬ Untold present ls := by
  have h : Follows serialId present ls w :=
    guarded_invariant (Follows serialId present) (follows_start serialId pty udev present)
      (fun _ _ _ _ h hG hstep => follows_step h hG hstep) hrun (every_and hsup hpty)
  have hsettled := h.settled (by rw [hdone]; rfl)
  constructor
  · intro hfollows hu
    exact (hsettled.mp (hfollows.mpr (h.untold hu))).2 hu
  · intro hnot
    rw [hsettled, and_iff_left hnot]

/-- The calls of a worker that opens a device. -/
def found (ofd : ℕ) : AttachCalls := ⟨some ofd, true, true, true⟩

/-- The calls of a worker that forwards a chunk of the device. -/
def chunk (bytes : List Byte) (os : List TtyWrite) : EventCalls :=
  ⟨none, ⟨none, true, true, true⟩, .data bytes, os⟩

/-- The device is plugged in, goes and comes back before the worker looks, and is read from.
The probe of an event that is overtaken finds no tag. -/
def bounce : List Change :=
  [.plug (ttyNode "add" "/dev/ttyUSB0"), .receive none (found 10),
    .unplug (ttyNode "remove" "/dev/ttyUSB0"), .other (ttyNode "change" "/dev/ttyUSB0"),
    .plug (ttyNode "add" "/dev/ttyUSB0"), .receive (some none) (found 11),
    .receive none (found 11), .receive (some (some "usb")) (found 11),
    .io 11 (chunk [1, 2] [.accepted 0, .again, .accepted 0])]

theorem follows_device_bounce : ∃ w,
    exec World.step (World.start "usb" 4 5 false) bounce = some w ∧
      w.pending = [] ∧ w.present = true ∧ 0 ≤ w.tty.physFd := by
  have hout : (exec World.step (World.start "usb" 4 5 false) bounce).map
      (fun w => (w.pending, w.present)) = some ([], true) := by
    decide +kernel
  obtain ⟨w, hrun, hw⟩ := Option.map_eq_some_iff.mp hout
  have hdone : w.pending = [] := congrArg Prod.fst hw
  have hpres : w.present = true := congrArg Prod.snd hw
  have hiff := follows_device_iff "usb" 4 5 false bounce w hrun (by decide +kernel)
    (by decide +kernel) hdone
  exact ⟨w, hrun, hdone, hpres, (hiff.mpr fun hu => by cases hu.1).mpr hpres⟩

/-- A device that is plugged in already is never attached, and one that is attached is lost
when the PTY refuses a byte. -/
theorem present_device_not_followed :
    (∃ w, exec World.step (World.start "usb" 4 5 true) [] = some w ∧ w.pending = [] ∧
      ¬ (0 ≤ w.tty.physFd ↔ w.present = true)) ∧
    ∃ w, exec World.step (World.start "usb" 4 5 false)
        [.plug (ttyNode "add" "/dev/ttyUSB0"), .receive none (found 10),
          .io 10 (chunk [1] [.failed])] = some w ∧ w.pending = [] ∧
      ¬ (0 ≤ w.tty.physFd ↔ w.present = true) := by
  have lost {present : Bool} {ls : List Change}
      (h : (exec World.step (World.start "usb" 4 5 present) ls).map
        (fun w => (w.pending, w.tty.physFd, w.present)) = some ([], -1, true)) :
      ∃ w, exec World.step (World.start "usb" 4 5 present) ls = some w ∧ w.pending = [] ∧
        ¬ (0 ≤ w.tty.physFd ↔ w.present = true) := by
    obtain ⟨w, hrun, hw⟩ := Option.map_eq_some_iff.mp h
    obtain ⟨hdone, hrest⟩ := Prod.mk.inj hw
    obtain ⟨hphys, hpres⟩ := Prod.mk.inj hrest
    refine ⟨w, hrun, hdone, fun hiff => ?_⟩
    rw [hphys, hpres] at hiff
    exact absurd (hiff.mpr rfl) (by decide)
  exact ⟨lost (by decide +kernel), lost (by decide +kernel)⟩

end MctpSerial.ManagedUsbTty
