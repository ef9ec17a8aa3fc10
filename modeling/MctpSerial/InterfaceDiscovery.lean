import Mathlib.Data.List.Basic
import Mathlib.Tactic.Common

/-!
# Finding the interface that the line discipline created

`initialize` polls the network devices up to ten times, compares each listing with the one
taken before, and keeps or renames what is new. The loop is meant to end when a device has
been found. Its exit test is the wrong way round: it ends when none has been found, so that
the first listing decides between a timeout and ten turns, each of which may choose again.
-/
namespace MctpSerial.LinuxMctpSerial

/-- An entry of `/sys/class/net/`; `isLink` says whether its type is `DT_LNK`. -/
structure DirEntry where
  name : String
  isLink : Bool
  deriving DecidableEq

/-- The pattern `^mctpserial[0-9]+$`. -/
def isMctpSerial (name : String) : Bool :=
  let cs := name.toList
  cs.take 10 = "mctpserial".toList && !(cs.drop 10).isEmpty && (cs.drop 10).all Char.isDigit

/-- `list_mctp_devices`; a directory that does not open has no devices. -/
def listMctpDevices (dir : Option (List DirEntry)) : List String :=
  match dir with
  | none => []
  | some entries => (entries.filter fun e => e.isLink && isMctpSerial e.name).map DirEntry.name

/-- One turn of the polling loop: what the scan finds, and whether the rename that the turn
may make succeeds. -/
structure Poll where
  dir : Option (List DirEntry)
  renameOk : Bool
  deriving DecidableEq

/-- The device a name was chosen for: the listing it was taken from, and its name there. -/
structure Picked where
  listing : ℕ
  dev : String
  deriving DecidableEq

/-- What `initialize` throws out of the polling part. -/
inductive DiscoveryError where
  | renameFailed (name : String)
  | timedOut
  deriving DecidableEq

def DiscoveryError.what : DiscoveryError → String
  | .renameFailed name => "Failed to set mctpserial interface name to " ++ name
  | .timedOut => "Timed out waiting for new mctpserial device"

/-- How the polling part ends. -/
inductive Outcome where
  | goesOn (picked : Option Picked) (ifName : String)
  | throws (e : DiscoveryError)
  deriving DecidableEq

/-- The field `mctp_if_name`, and the device it stands for. -/
structure Discovery where
  ifName : String
  picked : Option Picked
  deriving DecidableEq

/-- The loop over one listing: the name it leaves in `mctp_if_name` and the device it took
last. A requested name ends the loop at the first new device. -/
def takeNew (before : List String) (requested : String) (renameOk : Bool) :
    String × Option String → List String → Except DiscoveryError (String × Option String)
  | r, [] => .ok r
  | r, dev :: after =>
    if dev ∈ before then takeNew before requested renameOk r after
    else if requested ≠ "" then
      if !renameOk then .error (.renameFailed requested) else .ok (requested, some dev)
    else takeNew before requested renameOk (dev, some dev) after

/-- A device that already has the name in `mctp_if_name` is the one chosen before. -/
def Discovery.update (d : Discovery) (i : ℕ) (r : String × Option String) : Discovery where
  ifName := r.1
  picked :=
    match r.2 with
    | none => d.picked
    | some dev => if dev = d.ifName then d.picked else some ⟨i, dev⟩

/-- The end of the loop. -/
def Discovery.finish (d : Discovery) : Outcome :=
  if d.ifName = "" then .throws .timedOut else .goesOn d.picked d.ifName

/-- The turns of the polling loop from the `i`-th on. -/
def pollLoop (before : List String) (requested : String) : ℕ → Discovery → List Poll → Outcome
  | _, d, [] => d.finish
  | i, d, p :: ps =>
    match takeNew before requested p.renameOk (d.ifName, none) (listMctpDevices p.dir) with
    | .error e => .throws e
    | .ok r =>
      if (d.update i r).ifName = "" then (d.update i r).finish
      else pollLoop before requested (i + 1) (d.update i r) ps

/-- The polling part of `initialize`, with the name field empty: ten turns at most. -/
def discover (before : List String) (requested : String) (polls : List Poll) : Outcome :=
  pollLoop before requested 0 ⟨"", none⟩ (polls.take 10)

/-- The devices of a listing that were not there before. -/
def newDevices (before : List String) (p : Poll) : List String :=
  (listMctpDevices p.dir).filter (· ∉ before)

/-- The earliest listing with a new device. -/
def Earliest (before : List String) (polls : List Poll) (k : ℕ) (p : Poll) : Prop :=
  polls[k]? = some p ∧ newDevices before p ≠ [] ∧
    ∀ j < k, ∀ q, polls[j]? = some q → newDevices before q = []

/-- The outcome is decided by the earliest listing with a new device: `initialize` goes on
with one of these devices, renamed if that was requested, or the rename fails at once. It
times out only if there is no such listing. -/
structure PicksOwnDevice (before : List String) (requested : String) (polls : List Poll)
    (o : Outcome) : Prop where
  earliest : ∀ k p, Earliest before polls k p →
    (∃ dev ∈ newDevices before p,
      o = .goesOn (some ⟨k, dev⟩) (if requested = "" then dev else requested)) ∨
    requested ≠ "" ∧ p.renameOk = false ∧ o = .throws (.renameFailed requested)
  timedOut : o = .throws .timedOut → ∀ p ∈ polls, newDevices before p = []

/-- The device of a listing that the loop over it settles on. -/
def settles (before : List String) (requested : String) (p : Poll) : Option String :=
  if requested = "" then (newDevices before p).getLast? else (newDevices before p).head?

/-- A turn after the choice of `ifName` confirms it: whatever it settles on has that name
already, and a rename to the same name succeeds. -/
def Confirms (before : List String) (requested ifName : String) (p : Poll) : Prop :=
  ∀ dev, settles before requested p = some dev →
    dev = ifName ∧ (requested ≠ "" → p.renameOk = true)

/-- No listing has a new device, or the first one has and all later ones confirm the choice
made there, unless that choice already failed. -/
def Decided (before : List String) (requested : String) (polls : List Poll) : Prop :=
  (∀ p ∈ polls, newDevices before p = []) ∨
    ∃ p ps dev, polls = p :: ps ∧ settles before requested p = some dev ∧
      (requested ≠ "" ∧ p.renameOk = false ∨
        ∀ q ∈ ps, Confirms before requested (if requested = "" then dev else requested) q)

section Turns

variable {before : List String} {requested : String}

theorem isMctpSerial_ne_empty {name : String} (h : isMctpSerial name = true) : name ≠ "" := by
  rintro rfl
  exact absurd h (by decide)

theorem ne_empty_of_new {p : Poll} {dev : String} (h : dev ∈ newDevices before p) : dev ≠ "" := by
  have hlist := (List.mem_filter.mp h).1
  cases hdir : p.dir with
  | none =>
    rw [hdir] at hlist
    cases hlist
  | some entries =>
    rw [hdir] at hlist
    obtain ⟨e, he, rfl⟩ := List.mem_map.mp hlist
    have hcond := (List.mem_filter.mp he).2
    simp only [Bool.and_eq_true] at hcond
    exact isMctpSerial_ne_empty hcond.2

theorem takeNew_plain (renameOk : Bool) (r : String × Option String) (after : List String) :
    takeNew before "" renameOk r after =
      match (after.filter (· ∉ before)).getLast? with
      | none => .ok r
      | some dev => .ok (dev, some dev) := by
  induction after generalizing r with
  | nil => rfl
  | cons dev after ih =>
    rw [takeNew]
    by_cases hold : dev ∈ before
    · rw [if_pos hold, ih, List.filter_cons_of_neg (by simpa using hold)]
    · rw [if_neg hold, if_neg (by simp), ih, List.filter_cons_of_pos (by simpa using hold)]
      cases hrest : after.filter (· ∉ before) with
      | nil => rfl
      | cons x xs => rw [List.getLast?_cons_cons, List.getLast?_eq_some_getLast (List.cons_ne_nil x xs)]

theorem takeNew_named (hreq : requested ≠ "") (renameOk : Bool) (r : String × Option String)
    (after : List String) :
    takeNew before requested renameOk r after =
      match (after.filter (· ∉ before)).head? with
      | none => .ok r
      | some dev =>
        if renameOk then .ok (requested, some dev) else .error (.renameFailed requested) := by
  induction after generalizing r with
  | nil => rfl
  | cons dev after ih =>
    rw [takeNew]
    by_cases hold : dev ∈ before
    · rw [if_pos hold, ih, List.filter_cons_of_neg (by simpa using hold)]
    · rw [if_neg hold, if_pos hreq, List.filter_cons_of_pos (by simpa using hold), List.head?_cons]
      cases renameOk with
      | false => rfl
      | true => rfl

/-- What one turn does, by the device it settles on. -/
theorem takeNew_settles (p : Poll) (name : String) :
    takeNew before requested p.renameOk (name, none) (listMctpDevices p.dir) =
      match settles before requested p with
      | none => .ok (name, none)
      | some dev =>
        if requested ≠ "" ∧ p.renameOk = false then .error (.renameFailed requested)
        else .ok (if requested = "" then dev else requested, some dev) := by
  rw [settles]
  by_cases hreq : requested = ""
  · subst hreq
    rw [takeNew_plain, if_pos rfl, newDevices]
    simp
  · rw [takeNew_named hreq, if_neg hreq, newDevices]
    split
    next => rfl
    next dev _ =>
      cases p.renameOk with
      | false => simp [hreq]
      | true => simp [hreq]

theorem settles_eq_none_iff {p : Poll} :
    settles before requested p = none ↔ newDevices before p = [] := by
  rw [settles]
  split
  next => exact List.getLast?_eq_none_iff
  next => exact List.head?_eq_none_iff

theorem mem_of_settles {p : Poll} {dev : String} (h : settles before requested p = some dev) :
    dev ∈ newDevices before p := by
  rw [settles] at h
  split at h
  next => exact List.mem_of_getLast? h
  next => exact List.mem_of_head? h

/-- The name chosen for a device. -/
theorem chosen_ne_empty {p : Poll} {dev : String} (h : settles before requested p = some dev) :
    (if requested = "" then dev else requested) ≠ "" := by
  split
  next => exact ne_empty_of_new (mem_of_settles h)
  next hreq => exact hreq

variable {i : ℕ} {d : Discovery} {p : Poll} {ps : List Poll} {dev : String}

/-- The three turns a loop with a name can make. -/
theorem pollLoop_silent (hname : d.ifName ≠ "") (h : settles before requested p = none) :
    pollLoop before requested i d (p :: ps) = pollLoop before requested (i + 1) d ps := by
  rw [pollLoop, takeNew_settles, h]
  exact if_neg hname

theorem pollLoop_failed (h : settles before requested p = some dev)
    (hfail : requested ≠ "" ∧ p.renameOk = false) :
    pollLoop before requested i d (p :: ps) = .throws (.renameFailed requested) := by
  rw [pollLoop, takeNew_settles, h]
  simp only [if_pos hfail]

theorem pollLoop_taken (h : settles before requested p = some dev)
    (hok : ¬ (requested ≠ "" ∧ p.renameOk = false)) :
    pollLoop before requested i d (p :: ps) = pollLoop before requested (i + 1)
      (d.update i (if requested = "" then dev else requested, some dev)) ps := by
  rw [pollLoop, takeNew_settles, h]
  simp only [if_neg hok]
  exact if_neg (chosen_ne_empty h)

/-- The first listing decides that there is nothing to wait for. -/
theorem pollLoop_nothing (h : settles before requested p = none) :
    pollLoop before requested i ⟨"", none⟩ (p :: ps) = .throws .timedOut := by
  rw [pollLoop, takeNew_settles, h]
  rfl

theorem update_same {name : String} (hdev : dev = d.ifName) (hname : name = d.ifName) :
    d.update i (name, some dev) = d := by
  obtain ⟨ifName, picked⟩ := d
  simp only [Discovery.update, hdev, hname, if_true]

theorem update_other {name : String} (hdev : dev ≠ d.ifName) :
    d.update i (name, some dev) = ⟨name, some ⟨i, dev⟩⟩ := by
  simp only [Discovery.update, if_neg hdev]

/-- A choice that is replaced is replaced from a later listing. -/
theorem listing_of_goesOn {picked : Option Picked} {name : String} (hname : d.ifName ≠ "")
    (h : pollLoop before requested i d ps = .goesOn picked name) :
    picked = d.picked ∨ ∃ pk, picked = some pk ∧ i ≤ pk.listing := by
  induction ps generalizing i d with
  | nil =>
    rw [pollLoop, Discovery.finish, if_neg hname] at h
    cases h
    exact Or.inl rfl
  | cons p ps ih =>
    cases hset : settles before requested p with
    | none =>
      rw [pollLoop_silent hname hset] at h
      refine (ih hname h).imp_right ?_
      rintro ⟨pk, hpk, hle⟩
      exact ⟨pk, hpk, by omega⟩
    | some dev =>
      by_cases hfail : requested ≠ "" ∧ p.renameOk = false
      · rw [pollLoop_failed hset hfail] at h
        cases h
      · rw [pollLoop_taken hset hfail] at h
        rcases ih (chosen_ne_empty hset) h with hpk | ⟨pk, hpk, hle⟩
        · by_cases hdev : dev = d.ifName
          · refine Or.inl (hpk.trans ?_)
            simp only [Discovery.update, if_pos hdev]
          · rw [update_other hdev] at hpk
            exact Or.inr ⟨⟨i, dev⟩, hpk, Nat.le_refl i⟩
        · exact Or.inr ⟨pk, hpk, by omega⟩

theorem not_timedOut (hname : d.ifName ≠ "") :
    pollLoop before requested i d ps ≠ .throws .timedOut := by
  induction ps generalizing i d with
  | nil =>
    rw [pollLoop, Discovery.finish, if_neg hname]
    nofun
  | cons p ps ih =>
    cases hset : settles before requested p with
    | none =>
      rw [pollLoop_silent hname hset]
      exact ih hname
    | some dev =>
      by_cases hfail : requested ≠ "" ∧ p.renameOk = false
      · rw [pollLoop_failed hset hfail]
        nofun
      · rw [pollLoop_taken hset hfail]
        exact ih (chosen_ne_empty hset)

/-- Turns that confirm the choice leave it alone. -/
theorem pollLoop_confirmed (hname : d.ifName ≠ "") (hreq : requested ≠ "" → d.ifName = requested)
    (h : ∀ q ∈ ps, Confirms before requested d.ifName q) :
    pollLoop before requested i d ps = .goesOn d.picked d.ifName := by
  induction ps generalizing i with
  | nil => rw [pollLoop, Discovery.finish, if_neg hname]
  | cons p ps ih =>
    have hrest (q : Poll) (hq : q ∈ ps) := h q (List.mem_cons_of_mem p hq)
    cases hset : settles before requested p with
    | none =>
      rw [pollLoop_silent hname hset]
      exact ih hrest
    | some dev =>
      obtain ⟨hdev, hok⟩ := h p List.mem_cons_self dev hset
      have hfail : ¬ (requested ≠ "" ∧ p.renameOk = false) := fun hcon => by
        rw [hok hcon.1] at hcon
        cases hcon.2
      have hchosen : (if requested = "" then dev else requested) = d.ifName := by
        split
        next => exact hdev
        next hne => exact (hreq hne).symm
      rw [pollLoop_taken hset hfail, update_same hdev hchosen]
      exact ih hrest

/-- A loop that ends with a device from an earlier listing has met only turns that confirm
the choice. -/
theorem confirms_of_goesOn {picked : Picked} {name : String} (hname : d.ifName ≠ "")
    (hreq : requested ≠ "" → d.ifName = requested) (hold : picked.listing < i)
    (h : pollLoop before requested i d ps = .goesOn (some picked) name) :
    ∀ q ∈ ps, Confirms before requested d.ifName q := by
  induction ps generalizing i with
  | nil => nofun
  | cons p ps ih =>
    cases hset : settles before requested p with
    | none =>
      rw [pollLoop_silent hname hset] at h
      refine List.forall_mem_cons.mpr ⟨fun dev hdev => ?_, ih (by omega) h⟩
      rw [hset] at hdev
      cases hdev
    | some dev =>
      by_cases hfail : requested ≠ "" ∧ p.renameOk = false
      · rw [pollLoop_failed hset hfail] at h
        cases h
      · rw [pollLoop_taken hset hfail] at h
        by_cases hdev : dev = d.ifName
        · have hchosen : (if requested = "" then dev else requested) = d.ifName := by
            split
            next => exact hdev
            next hne => exact (hreq hne).symm
          rw [update_same hdev hchosen] at h
          refine List.forall_mem_cons.mpr ⟨fun dev' hdev' => ?_, ih (by omega) h⟩
          obtain rfl : dev = dev' := Option.some.inj (hset.symm.trans hdev')
          exact ⟨hdev, fun hne => by simpa [hne] using hfail⟩
        · rw [update_other hdev] at h
          rcases listing_of_goesOn (chosen_ne_empty hset) h with hpk | ⟨pk, hpk, hle⟩
          · cases hpk
            exact absurd hold (Nat.lt_irrefl i)
          · cases hpk
            omega

theorem earliest_cons {k : ℕ} {q : Poll} (hset : settles before requested p = some dev)
    (h : Earliest before (p :: ps) k q) : k = 0 ∧ q = p := by
  obtain ⟨hk, -, hbefore⟩ := h
  cases k with
  | zero => exact ⟨rfl, (Option.some.inj hk).symm⟩
  | succ k =>
    have hnone : settles before requested p = none :=
      settles_eq_none_iff.mpr (hbefore 0 (Nat.succ_pos k) p rfl)
    rw [hset] at hnone
    cases hnone

/-- After a choice in the first listing, what is left to be asked is that it is kept. -/
theorem picksOwnDevice_taken_iff (hset : settles before requested p = some dev)
    (hfail : ¬ (requested ≠ "" ∧ p.renameOk = false)) :
    PicksOwnDevice before requested (p :: ps) (pollLoop before requested 0 ⟨"", none⟩ (p :: ps)) ↔
      ∀ q ∈ ps, Confirms before requested (if requested = "" then dev else requested) q := by
  have hdev := mem_of_settles hset
  have hne := chosen_ne_empty hset
  have hreq : requested ≠ "" → (if requested = "" then dev else requested) = requested :=
    fun hreq => if_neg hreq
  rw [pollLoop_taken hset hfail, update_other (ne_empty_of_new hdev)]
  constructor
  · intro h
    have hnew : newDevices before p ≠ [] := List.ne_nil_of_mem hdev
    rcases h.earliest 0 p ⟨rfl, hnew, nofun⟩ with ⟨dev', -, hout⟩ | ⟨hr, hok, -⟩
    · exact confirms_of_goesOn (d := ⟨_, some ⟨0, dev⟩⟩) hne hreq (Nat.lt_succ_self 0) hout
    · exact absurd ⟨hr, hok⟩ hfail
  · intro hrest
    have hout := pollLoop_confirmed (i := 1) (d := ⟨_, some ⟨0, dev⟩⟩) hne hreq hrest
    refine ⟨fun k q h => ?_, fun hto => absurd hto (not_timedOut hne)⟩
    obtain ⟨rfl, rfl⟩ := earliest_cons hset h
    exact Or.inl ⟨dev, hdev, hout⟩

end Turns

/-- The polling part of `initialize` picks the device that this call created, and keeps it,
exactly when it finds none at all or the first listing shows one and no later listing shows
another choice. -/
theorem discover_picks_own_iff (before : List String) (requested : String) (polls : List Poll) :
    PicksOwnDevice before requested (polls.take 10) (discover before requested polls) ↔
      Decided before requested (polls.take 10) := by
  rw [discover]
  generalize polls.take 10 = polls
  by_cases hall : ∀ p ∈ polls, newDevices before p = []
  · refine iff_of_true ⟨fun k p h => ?_, fun _ => hall⟩ (Or.inl hall)
    exact absurd (hall p (List.mem_of_getElem? h.1)) h.2.1
  cases polls with
  | nil => exact absurd (fun p hp => by cases hp) hall
  | cons p ps =>
    cases hset : settles before requested p with
    | none =>
      rw [pollLoop_nothing hset]
      refine iff_of_false (fun h => hall (h.timedOut rfl)) ?_
      rintro (hnone | ⟨p', ps', dev, heq, hset', -⟩)
      · exact hall hnone
      · cases heq
        rw [hset] at hset'
        cases hset'
    | some dev =>
      by_cases hfail : requested ≠ "" ∧ p.renameOk = false
      · rw [pollLoop_failed hset hfail]
        refine iff_of_true ⟨fun k q h => ?_, nofun⟩ (Or.inr ⟨p, ps, dev, rfl, hset, Or.inl hfail⟩)
        obtain ⟨-, rfl⟩ := earliest_cons hset h
        exact Or.inr ⟨hfail.1, hfail.2, rfl⟩
      · rw [picksOwnDevice_taken_iff hset hfail]
        constructor
        · intro hrest
          exact Or.inr ⟨p, ps, dev, rfl, hset, Or.inr hrest⟩
        · rintro (hnone | ⟨p', ps', dev', heq, hset', hrest⟩)
          · exact absurd hnone hall
          · cases heq
            obtain rfl : dev = dev' := Option.some.inj (hset.symm.trans hset')
            exact hrest.resolve_left hfail

/-- A turn that lists the given devices, and whose rename succeeds. -/
def listed (names : List String) : Poll := ⟨some (names.map fun name => ⟨name, true⟩), true⟩

/-- A device that shows up in the second listing is never seen, and one that another process
adds in the second listing replaces the one found in the first. -/
theorem discover_picks_wrongly :
    (discover [] "" [listed [], listed ["mctpserial0"]] = .throws .timedOut ∧
      ¬ PicksOwnDevice [] "" [listed [], listed ["mctpserial0"]]
        (discover [] "" [listed [], listed ["mctpserial0"]])) ∧
    discover [] "" [listed ["mctpserial0"], listed ["mctpserial0", "mctpserial1"]] =
        .goesOn (some ⟨1, "mctpserial1"⟩) "mctpserial1" ∧
      ¬ PicksOwnDevice [] "" [listed ["mctpserial0"], listed ["mctpserial0", "mctpserial1"]]
        (discover [] "" [listed ["mctpserial0"], listed ["mctpserial0", "mctpserial1"]]) := by
  have hlate : discover [] "" [listed [], listed ["mctpserial0"]] = .throws .timedOut := by
    decide +kernel
  have hother : discover [] "" [listed ["mctpserial0"], listed ["mctpserial0", "mctpserial1"]] =
      .goesOn (some ⟨1, "mctpserial1"⟩) "mctpserial1" := by
    decide +kernel
  refine ⟨⟨hlate, fun h => ?_⟩, hother, fun h => ?_⟩
  · have hnone := h.timedOut hlate (listed ["mctpserial0"]) (by simp)
    exact absurd hnone (by decide +kernel)
  · rw [hother] at h
    have hnew : newDevices [] (listed ["mctpserial0"]) ≠ [] := by decide +kernel
    rcases h.earliest 0 (listed ["mctpserial0"]) ⟨rfl, hnew, nofun⟩ with ⟨dev, -, hout⟩ | ⟨hr, -⟩
    · cases hout
    · exact hr rfl

end MctpSerial.LinuxMctpSerial
