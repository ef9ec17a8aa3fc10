import MctpSerial.EndpointLifecycle

/-!
# The device that an endpoint configures

The name field is the only memory of an endpoint that a `close` may leave behind: it keeps
the name when fifty listings have not shown the device gone. A later `initialize` then takes
the old name for the one it waits for. As long as each `close` sees its device go, every
device that is configured, and every name returned, is one that the call itself has found.
-/
namespace MctpSerial.LinuxMctpSerial
open MctpFramer DescriptorLedgers GuardedRuns

/-! ## The polling loop -/

section Polling

variable {before : List String} {requested : String}

theorem scanListing_plain (renameOk : Bool) (name : String) (after : List String) :
    scanListing before "" renameOk name after =
      match (after.filter (· ∉ before)).getLast? with
      | none => (name, [], true)
      | some dev => (dev, [], true) := by
  induction after generalizing name with
  | nil => rfl
  | cons dev after ih =>
    rw [scanListing]
    by_cases hold : dev ∈ before
    · rw [if_pos hold, ih, List.filter_cons_of_neg (by simpa using hold)]
    · rw [if_neg hold, if_neg (by simp), ih, List.filter_cons_of_pos (by simpa using hold)]
      cases hrest : after.filter (· ∉ before) with
      | nil => rfl
      | cons x xs =>
        rw [List.getLast?_cons_cons, List.getLast?_eq_some_getLast (List.cons_ne_nil x xs)]

theorem scanListing_named (hreq : requested ≠ "") (renameOk : Bool) (name : String)
    (after : List String) :
    scanListing before requested renameOk name after =
      match (after.filter (· ∉ before)).head? with
      | none => (name, [], true)
      | some dev =>
        (if renameOk then requested else dev, [.setInterfaceName dev requested], renameOk) := by
  induction after with
  | nil => rfl
  | cons dev after ih =>
    rw [scanListing]
    by_cases hold : dev ∈ before
    · rw [if_pos hold, ih, List.filter_cons_of_neg (by simpa using hold)]
    · rw [if_neg hold, if_pos hreq, List.filter_cons_of_pos (by simpa using hold), List.head?_cons]
      cases renameOk with
      | false => rfl
      | true => rfl

/-- What a turn does with its listing: nothing new, a name that cannot be given, or a name. -/
theorem scanListing_cases (before : List String) (requested : String) (p : Poll) (name : String) :
    (settles before requested p = none ∧
      scanListing before requested p.renameOk name (listMctpDevices p.dir) = (name, [], true)) ∨
    ∃ dev, settles before requested p = some dev ∧
      ((requested ≠ "" ∧ p.renameOk = false) ∧
        scanListing before requested p.renameOk name (listMctpDevices p.dir) =
          (dev, [.setInterfaceName dev requested], false) ∨
      ¬ (requested ≠ "" ∧ p.renameOk = false) ∧
        scanListing before requested p.renameOk name (listMctpDevices p.dir) =
          (if requested = "" then dev else requested,
            if requested = "" then [] else [.setInterfaceName dev requested], true)) := by
  by_cases hreq : requested = ""
  · subst hreq
    rw [scanListing_plain, settles, if_pos rfl, newDevices]
    cases ((listMctpDevices p.dir).filter (· ∉ before)).getLast? with
    | none => exact Or.inl ⟨rfl, rfl⟩
    | some dev => exact Or.inr ⟨dev, rfl, Or.inr ⟨fun hcon => hcon.1 rfl, rfl⟩⟩
  · rw [scanListing_named hreq, settles, if_neg hreq, newDevices]
    cases ((listMctpDevices p.dir).filter (· ∉ before)).head? with
    | none => exact Or.inl ⟨rfl, rfl⟩
    | some dev =>
      refine Or.inr ⟨dev, rfl, ?_⟩
      cases hok : p.renameOk with
      | false => exact Or.inl ⟨⟨hreq, rfl⟩, rfl⟩
      | true => exact Or.inr ⟨by simp, by simp [hreq]⟩

/-- The turns of a loop, by what the listing does. -/
theorem awaitDevice_failed {name name' : String} {log : List Effect} {p : Poll} {ps : List Poll}
    (hscan : scanListing before requested p.renameOk name (listMctpDevices p.dir) =
      (name', log, false)) :
    awaitDevice before requested name (p :: ps) =
      (name', log, .error (.renameFailed requested)) := by
  rw [awaitDevice, hscan]

theorem awaitDevice_nothing {name : String} {log : List Effect} {p : Poll} {ps : List Poll}
    (hscan : scanListing before requested p.renameOk name (listMctpDevices p.dir) =
      ("", log, true)) :
    awaitDevice before requested name (p :: ps) = ("", log, .error .timedOut) := by
  rw [awaitDevice, hscan]
  rfl

theorem awaitDevice_goesOn {name name' : String} {log : List Effect} {p : Poll} {ps : List Poll}
    (hscan : scanListing before requested p.renameOk name (listMctpDevices p.dir) =
      (name', log, true)) (hname : name' ≠ "") :
    awaitDevice before requested name (p :: ps) =
      ((awaitDevice before requested name' ps).1,
        log ++ (awaitDevice before requested name' ps).2.1,
        (awaitDevice before requested name' ps).2.2) := by
  rw [awaitDevice, hscan]
  dsimp only
  rw [if_neg hname]

/-- The loop with its requests goes the way of the loop without them. -/
theorem awaitDevice_pollLoop (i : ℕ) (d : Discovery) (ps : List Poll) :
    (awaitDevice before requested d.ifName ps).2.2.map
        (fun _ => (awaitDevice before requested d.ifName ps).1) =
      match pollLoop before requested i d ps with
      | .goesOn _ name => .ok name
      | .throws e => .error e := by
  induction ps generalizing i d with
  | nil =>
    rw [pollLoop, Discovery.finish, awaitDevice]
    by_cases hname : d.ifName = ""
    · rw [if_pos hname, if_pos hname]
      rfl
    · rw [if_neg hname, if_neg hname]
      rfl
  | cons p ps ih =>
    obtain ⟨hset, hscan⟩ | ⟨dev, hset, ⟨hfail, hscan⟩ | ⟨hok, hscan⟩⟩ :=
      scanListing_cases before requested p d.ifName
    · by_cases hname : d.ifName = ""
      · obtain ⟨ifName, picked⟩ := d
        obtain rfl : ifName = "" := hname
        rw [awaitDevice_nothing hscan, pollLoop, takeNew_settles, hset]
        rfl
      · rw [awaitDevice_goesOn hscan hname, pollLoop_silent hname hset]
        exact ih (i + 1) d
    · rw [awaitDevice_failed hscan, pollLoop_failed hset hfail]
      rfl
    · rw [awaitDevice_goesOn hscan (chosen_ne_empty hset), pollLoop_taken hset hok]
      exact ih (i + 1) (d.update i (if requested = "" then dev else requested, some dev))

/-- A name that the call may choose: that of a device that was not there before, or the
requested one that such a device has been given. -/
def Offered (before : List String) (requested : String) (ps : List Poll) (name : String) : Prop :=
  ∃ p ∈ ps, ∃ dev ∈ newDevices before p, (requested ≠ "" → p.renameOk = true) ∧
    name = if requested = "" then dev else requested

/-- The names that the field can get in a call. -/
def candidates (before : List String) (requested : String) (ps : List Poll) : List String :=
  requested :: ps.flatMap (newDevices before)

theorem Offered.cons {p : Poll} {ps : List Poll} {name : String}
    (h : Offered before requested ps name) : Offered before requested (p :: ps) name := by
  obtain ⟨q, hq, hrest⟩ := h
  exact ⟨q, List.mem_cons_of_mem p hq, hrest⟩

theorem Offered.mem_candidates {ps : List Poll} {name : String}
    (h : Offered before requested ps name) : name ∈ candidates before requested ps := by
  obtain ⟨p, hp, dev, hdev, -, rfl⟩ := h
  split
  next => exact List.mem_cons_of_mem _ (List.mem_flatMap.mpr ⟨p, hp, hdev⟩)
  next => exact List.mem_cons_self

theorem candidates_cons {p : Poll} {ps : List Poll} {name : String}
    (h : name ∈ candidates before requested ps) : name ∈ candidates before requested (p :: ps) := by
  rw [candidates, List.mem_cons] at h ⊢
  refine h.imp_right fun h => ?_
  rw [List.flatMap_cons]
  exact List.mem_append_right _ h

/-- What the loop leaves: the name it had, or one that it was offered; if it throws, at
least one that the field can get. -/
theorem awaitDevice_offered (before : List String) (requested name : String) (ps : List Poll) :
    (awaitDevice before requested name ps).1 = name ∨
      Offered before requested ps (awaitDevice before requested name ps).1 ∨
      (awaitDevice before requested name ps).2.2 ≠ .ok () ∧
        (awaitDevice before requested name ps).1 ∈ candidates before requested ps := by
  induction ps generalizing name with
  | nil => exact Or.inl rfl
  | cons p ps ih =>
    obtain ⟨hset, hscan⟩ | ⟨dev, hset, ⟨hfail, hscan⟩ | ⟨hok, hscan⟩⟩ :=
      scanListing_cases before requested p name
    · by_cases hname : name = ""
      · subst hname
        rw [awaitDevice_nothing hscan]
        exact Or.inl rfl
      · rw [awaitDevice_goesOn hscan hname]
        exact (ih name).imp_right (Or.imp Offered.cons (And.imp_right candidates_cons))
    · rw [awaitDevice_failed hscan]
      refine Or.inr (Or.inr ⟨by simp, List.mem_cons_of_mem _ ?_⟩)
      exact List.mem_flatMap.mpr ⟨p, List.mem_cons_self, mem_of_settles hset⟩
    · rw [awaitDevice_goesOn hscan (chosen_ne_empty hset)]
      refine Or.inr ((ih _).elim (fun hkeep => Or.inl ?_)
        (Or.imp Offered.cons (And.imp_right candidates_cons)))
      refine ⟨p, List.mem_cons_self, dev, mem_of_settles hset, fun hreq => ?_, hkeep⟩
      exact eq_true_of_ne_false fun hfail => hok ⟨hreq, hfail⟩

theorem awaitDevice_ok_ne_empty (before : List String) (requested name : String) (ps : List Poll)
    (hok : (awaitDevice before requested name ps).2.2 = .ok ()) :
    (awaitDevice before requested name ps).1 ≠ "" := by
  induction ps generalizing name with
  | nil =>
    intro hname
    rw [awaitDevice] at hok hname
    rw [if_pos hname] at hok
    cases hok
  | cons p ps ih =>
    obtain ⟨hset, hscan⟩ | ⟨dev, hset, ⟨hfail, hscan⟩ | ⟨hchosen, hscan⟩⟩ :=
      scanListing_cases before requested p name
    · by_cases hname : name = ""
      · subst hname
        rw [awaitDevice_nothing hscan] at hok
        cases hok
      · rw [awaitDevice_goesOn hscan hname] at hok ⊢
        exact ih _ hok
    · rw [awaitDevice_failed hscan] at hok
      cases hok
    · rw [awaitDevice_goesOn hscan (chosen_ne_empty hset)] at hok ⊢
      exact ih _ hok

/-- The loop asks for nothing but the requested name, for devices that were not there before. -/
theorem awaitDevice_renames (before : List String) (requested name : String) (ps : List Poll) :
    ∀ x ∈ (awaitDevice before requested name ps).2.1, requested ≠ "" ∧
      ∃ p ∈ ps, ∃ dev ∈ newDevices before p, x = .setInterfaceName dev requested := by
  induction ps generalizing name with
  | nil => nofun
  | cons p ps ih =>
    have later {name : String} {x : Effect} (hx : x ∈ (awaitDevice before requested name ps).2.1) :
        requested ≠ "" ∧ ∃ q ∈ p :: ps, ∃ dev ∈ newDevices before q,
          x = .setInterfaceName dev requested := by
      obtain ⟨hreq, q, hq, hdev⟩ := ih name x hx
      exact ⟨hreq, q, List.mem_cons_of_mem p hq, hdev⟩
    obtain ⟨hset, hscan⟩ | ⟨dev, hset, ⟨hfail, hscan⟩ | ⟨hchosen, hscan⟩⟩ :=
      scanListing_cases before requested p name
    · by_cases hname : name = ""
      · subst hname
        rw [awaitDevice_nothing hscan]
        nofun
      · rw [awaitDevice_goesOn hscan hname]
        exact fun x hx => later hx
    · rw [awaitDevice_failed hscan]
      intro x hx
      rw [List.mem_singleton.mp hx]
      exact ⟨hfail.1, p, List.mem_cons_self, dev, mem_of_settles hset, rfl⟩
    · rw [awaitDevice_goesOn hscan (chosen_ne_empty hset)]
      intro x hx
      rcases List.mem_append.mp hx with hx | hx
      · split at hx
        next => cases hx
        next hreq =>
          rw [List.mem_singleton.mp hx]
          exact ⟨hreq, p, List.mem_cons_self, dev, mem_of_settles hset, rfl⟩
      · exact later hx

end Polling

/-- A request that configures the device, other than its name. -/
def Effect.isConfiguration : Effect → Bool
  | .setLocalEid _ _ => true
  | .setInterfaceStatus _ _ => true
  | .addRoute _ _ => true
  | _ => false

/-- Nothing has been configured. -/
def Quiet (log : List Effect) : Prop := log.filter Effect.isConfiguration = []

/-- A result that leaves a name as described, or none at all if it is an exception; but a
thread that cannot be created leaves everything as it is. -/
def Leaves {α : Type} (r : Result α) (P : String → Prop) : Prop :=
  match r.2.2 with
  | .ok _ => P r.1.mctpIfName
  | .error err => err = .thread ∨ r.1.mctpIfName = ""

section Names

variable {α β : Type} {e : LinuxMctpSerial}

theorem Quiet.append {log log' : List Effect} (h : Quiet log) (h' : Quiet log') :
    Quiet (log ++ log') := by
  rw [Quiet, List.filter_append, h, h', List.append_nil]

/-- Nothing is asked for over netlink. -/
def Wordless (log : List Effect) : Prop := ∀ x ∈ log, x.isRequest = false

/-- What holds of every effect of both parts. -/
theorem forall_andThen {P : Effect → Prop} {r : Result α} {next : LinuxMctpSerial → α → Result β}
    (h : ∀ x ∈ r.2.1, P x) (hnext : ∀ e a, ∀ x ∈ (next e a).2.1, P x) :
    ∀ x ∈ (r.andThen next).2.1, P x := by
  obtain ⟨e, log, x⟩ := r
  cases x with
  | error err => exact h
  | ok a => exact List.forall_mem_append.mpr ⟨h, hnext e a⟩

theorem wordless_close (e : LinuxMctpSerial) (cs : ClosingCalls) : Wordless (e.close cs).2 := by
  unfold LinuxMctpSerial.close Wordless
  split <;> split <;> simp [Effect.isRequest]

theorem Wordless.quiet {log : List Effect} (h : Wordless log) : Quiet log := by
  refine List.filter_eq_nil_iff.mpr fun x hx => ?_
  have hno := h x hx
  cases x with
  | setLocalEid ifName eid => cases hno
  | setInterfaceStatus ifName up => cases hno
  | addRoute ifName eid => cases hno
  | _ => exact Bool.false_ne_true

theorem Leaves.mono {P Q : String → Prop} {r : Result α} (h : Leaves r P)
    (himp : ∀ name, P name → Q name) : Leaves r Q := by
  obtain ⟨e', log, x⟩ := r
  cases x with
  | error err => exact h
  | ok a => exact himp _ h

/-- A part of `initialize` that configures nothing. -/
theorem andThen_quiet {P Q : String → Prop} {r : Result α} {next : LinuxMctpSerial → α → Result β}
    (h : Quiet r.2.1 ∧ Leaves r P)
    (hnext : ∀ e' a, P e'.mctpIfName → Quiet (next e' a).2.1 ∧ Leaves (next e' a) Q) :
    Quiet (r.andThen next).2.1 ∧ Leaves (r.andThen next) Q := by
  obtain ⟨e', log, x⟩ := r
  obtain ⟨hquiet, hleaves⟩ := h
  cases x with
  | error err => exact ⟨hquiet, hleaves⟩
  | ok a =>
    obtain ⟨hquiet', hleaves'⟩ := hnext e' a hleaves
    exact ⟨hquiet.append hquiet', hleaves'⟩

theorem awaitGone_empty (listings : Listings) (turns i : ℕ) :
    awaitGone "" listings turns i = "" := by
  induction turns generalizing i with
  | zero => rfl
  | succ turns ih =>
    rw [awaitGone]
    split
    next => rfl
    next => exact ih (i + 1)

theorem abandon_leaves {P : String → Prop} (cs : SetupCalls) (err : InitError)
    (hgone : awaitGone e.mctpIfName cs.closeLast.listings 50 0 = "") :
    Quiet (e.abandon cs err : Result α).2.1 ∧ Leaves (e.abandon cs err : Result α) P :=
  ⟨(wordless_close e cs.closeLast).quiet, Or.inr hgone⟩

theorem openMaster_leaves (hname : e.mctpIfName = "") (cs : SetupCalls) :
    Quiet (e.openMaster cs).2.1 ∧ Leaves (e.openMaster cs) (· = "") := by
  unfold openMaster
  cases cs.openpt with
  | none => exact ⟨rfl, Or.inr hname⟩
  | some m =>
    refine andThen_quiet (P := (· = "")) ⟨rfl, hname⟩ fun e _ hname => ?_
    have hgone : awaitGone e.mctpIfName cs.closeLast.listings 50 0 = "" := by
      rw [hname, awaitGone_empty]
    split
    next => exact abandon_leaves cs _ hgone
    next =>
      cases cs.ptsname with
      | none => exact abandon_leaves cs _ hgone
      | some slaveName => exact ⟨rfl, hname⟩

theorem openSlave_leaves (hname : e.mctpIfName = "") (slaveName : String) (cs : SetupCalls) :
    Quiet (e.openSlave slaveName cs).2.1 ∧ Leaves (e.openSlave slaveName cs) (· = "") := by
  have gone {e : LinuxMctpSerial} (hname : e.mctpIfName = "") :
      awaitGone e.mctpIfName cs.closeLast.listings 50 0 = "" := by
    rw [hname, awaitGone_empty]
  unfold openSlave
  cases cs.openSlave with
  | none => exact abandon_leaves cs _ (gone hname)
  | some slave =>
    refine andThen_quiet (P := (· = "")) ⟨rfl, hname⟩ fun e _ hname => ?_
    split
    next => exact abandon_leaves cs _ (gone hname)
    next =>
      split
      next => exact abandon_leaves cs _ (gone hname)
      next =>
        refine andThen_quiet (P := (· = "")) ⟨rfl, hname⟩ fun e _ hname => ?_
        split
        next => exact abandon_leaves cs _ (gone hname)
        next => exact ⟨rfl, hname⟩

/-- The listings of a call. -/
def SetupCalls.turns (cs : SetupCalls) : List Poll := (List.range 10).map cs.polls

/-- The call may go on with this name. -/
def SetupCalls.Offers (cs : SetupCalls) (requested name : String) : Prop :=
  Offered (listMctpDevices cs.before) requested cs.turns name

theorem awaitDevice_quiet (before : List String) (requested name : String) (ps : List Poll) :
    Quiet (awaitDevice before requested name ps).2.1 := by
  refine List.filter_eq_nil_iff.mpr fun x hx => ?_
  obtain ⟨-, p, -, dev, -, rfl⟩ := awaitDevice_renames before requested name ps x hx
  exact Bool.false_ne_true

/-- The names of the call can all be seen to go. -/
def SetupCalls.SeesGone (cs : SetupCalls) (requested : String) : Prop :=
  ∀ name ∈ candidates (listMctpDevices cs.before) requested cs.turns,
    awaitGone name cs.closeLast.listings 50 0 = ""

theorem findDevice_leaves (hname : e.mctpIfName = "") (requested : String) (cs : SetupCalls)
    (hlast : cs.SeesGone requested) :
    Quiet (e.findDevice requested cs).2.1 ∧
      Leaves (e.findDevice requested cs) (cs.Offers requested) := by
  have hquiet := awaitDevice_quiet (listMctpDevices cs.before) requested e.mctpIfName cs.turns
  have hoffered := awaitDevice_offered (listMctpDevices cs.before) requested e.mctpIfName cs.turns
  have hne := awaitDevice_ok_ne_empty (listMctpDevices cs.before) requested e.mctpIfName cs.turns
  rw [findDevice]
  split
  next name log hr =>
    have hturns : awaitDevice (listMctpDevices cs.before) requested e.mctpIfName cs.turns =
        (name, log, .ok ()) := hr
    rw [hturns] at hquiet hoffered hne
    refine ⟨hquiet, ?_⟩
    obtain hkeep | hown | hcon := hoffered
    · exact absurd (hkeep.trans hname) (hne rfl)
    · exact hown
    · exact absurd rfl hcon.1
  next name log err hr =>
    have hturns : awaitDevice (listMctpDevices cs.before) requested e.mctpIfName cs.turns =
        (name, log, .error err) := hr
    rw [hturns] at hquiet hoffered
    refine andThen_quiet (P := (· = name)) ⟨hquiet, rfl⟩ fun e' _ hname' => ?_
    refine abandon_leaves cs _ ?_
    rw [hname']
    obtain hkeep | hown | hcon := hoffered
    · rw [show name = "" from hkeep.trans hname, awaitGone_empty]
    · exact hlast name hown.mem_candidates
    · exact hlast name hcon.2

/-- The call configures nothing and throws, or it makes all its requests for a device that it
was offered; if it returns, it returns the name of this device. -/
def Configures (own : String → Prop) (localEid : Byte) (peerEids : List Byte)
    (r : Result String) : Prop :=
  (Quiet r.2.1 ∧ ∀ n, r.2.2 ≠ .ok n) ∨
    ∃ name, own name ∧ r.2.1.filter Effect.isConfiguration = configuration name localEid peerEids ∧
      ∀ n, r.2.2 = .ok n → n = name

/-! ## The requests of a call -/

/-- The requests of a call are kept when it is looked at for them. -/
theorem filter_configuration (ifName : String) (localEid : Byte) (peerEids : List Byte) :
    (configuration ifName localEid peerEids).filter Effect.isConfiguration =
      configuration ifName localEid peerEids := by
  rw [List.filter_eq_self]
  intro x hx
  simp only [configuration, List.mem_append, List.mem_cons, List.mem_map] at hx
  obtain hx | rfl | ⟨eid, -, rfl⟩ := hx
  · split at hx
    next =>
      rw [List.mem_singleton.mp hx]
      rfl
    next => cases hx
  · rfl
  · rfl

theorem wordless_abandon (cs : SetupCalls) (err : InitError) :
    Wordless (e.abandon cs err : Result α).2.1 :=
  wordless_close e cs.closeLast

theorem wordless_openMaster (cs : SetupCalls) : Wordless (e.openMaster cs).2.1 := by
  unfold openMaster
  cases cs.openpt with
  | none => exact List.forall_mem_nil _
  | some m =>
    refine forall_andThen (List.forall_mem_singleton.mpr rfl) fun e _ => ?_
    split
    next => exact wordless_abandon cs _
    next =>
      cases cs.ptsname with
      | none => exact wordless_abandon cs _
      | some slaveName => exact List.forall_mem_nil _

theorem wordless_openSlave (slaveName : String) (cs : SetupCalls) :
    Wordless (e.openSlave slaveName cs).2.1 := by
  unfold openSlave
  cases cs.openSlave with
  | none => exact wordless_abandon cs _
  | some slave =>
    refine forall_andThen (List.forall_mem_singleton.mpr rfl) fun e _ => ?_
    split
    next => exact wordless_abandon cs _
    next =>
      split
      next => exact wordless_abandon cs _
      next =>
        refine forall_andThen (List.forall_mem_singleton.mpr rfl) fun e _ => ?_
        split
        next => exact wordless_abandon cs _
        next => exact List.forall_mem_nil _

theorem wordless_attach (cs : SetupCalls) : Wordless (e.attach cs).2.1 := by
  unfold attach
  dsimp only
  refine forall_andThen (List.forall_mem_singleton.mpr rfl) fun e _ => ?_
  split
  next => exact List.forall_mem_nil _
  next =>
    split
    next => exact wordless_abandon cs _
    next =>
      split
      next => exact wordless_abandon cs _
      next =>
        split
        next => exact wordless_abandon cs _
        next => exact List.forall_mem_nil _

/-- A request to give the requested name to a device that has appeared during the call. -/
def SetupCalls.Renames (cs : SetupCalls) (requested : String) (x : Effect) : Prop :=
  requested ≠ "" ∧ ∃ p ∈ cs.turns, ∃ dev ∈ newDevices (listMctpDevices cs.before) p,
    x = .setInterfaceName dev requested

/-- Every request of the log is one of these, or configures a device that has its name. -/
def Asks (cs : SetupCalls) (requested : String) (log : List Effect) : Prop :=
  ∀ x ∈ log, x.isRequest = true → cs.Renames requested x ∨ x.isConfiguration = true

theorem Wordless.asks {cs : SetupCalls} {requested : String} {log : List Effect}
    (h : Wordless log) : Asks cs requested log :=
  fun x hx hreq => absurd ((h x hx).symm.trans hreq) Bool.false_ne_true

theorem findDevice_asks (requested : String) (cs : SetupCalls) :
    Asks cs requested (e.findDevice requested cs).2.1 := by
  have hturns : Asks cs requested (awaitDevice (listMctpDevices cs.before) requested e.mctpIfName
      cs.turns).2.1 :=
    fun x hx _ => Or.inl (awaitDevice_renames _ _ _ _ x hx)
  rw [findDevice]
  split
  next name log hr =>
    rw [SetupCalls.turns, hr] at hturns
    exact hturns
  next name log err hr =>
    rw [SetupCalls.turns, hr] at hturns
    exact forall_andThen hturns fun e _ => (wordless_abandon cs _).asks

theorem initializeLink_asks (requested : String) (localEid : Byte) (peerEids : List Byte)
    (cs : SetupCalls) :
    Asks cs requested (e.initializeLink requested localEid peerEids cs).2.1 := by
  unfold initializeLink
  have hclosed : Wordless (if e.isUp then e.close cs.closeFirst else (e, [])).2 := by
    split
    next => exact wordless_close e cs.closeFirst
    next => exact List.forall_mem_nil _
  refine forall_andThen hclosed.asks fun e₁ _ => ?_
  refine forall_andThen (wordless_openMaster cs).asks fun e₂ slaveName => ?_
  refine forall_andThen (wordless_openSlave slaveName cs).asks fun e₃ _ => ?_
  refine forall_andThen (findDevice_asks requested cs) fun e₄ _ => ?_
  refine forall_andThen (fun x hx _ => Or.inr ?_) fun e₅ _ => (wordless_attach cs).asks
  have hkept := filter_configuration e₄.mctpIfName localEid peerEids
  exact List.filter_eq_self.mp hkept x hx

theorem andThen_configures {P own : String → Prop} {localEid : Byte} {peerEids : List Byte}
    {r : Result α} {next : LinuxMctpSerial → α → Result String} (h : Quiet r.2.1 ∧ Leaves r P)
    (hnext : ∀ e' a, P e'.mctpIfName →
      Configures own localEid peerEids (next e' a) ∧ Leaves (next e' a) own) :
    Configures own localEid peerEids (r.andThen next) ∧ Leaves (r.andThen next) own := by
  obtain ⟨e', log, x⟩ := r
  obtain ⟨hquiet, hleaves⟩ := h
  cases x with
  | error err =>
    refine ⟨Or.inl ⟨hquiet, fun n hn => ?_⟩, hleaves⟩
    cases hn
  | ok a =>
    obtain ⟨hconf, hleaves'⟩ := hnext e' a hleaves
    refine ⟨hconf.imp (fun hno => ⟨hquiet.append hno.1, hno.2⟩) ?_, hleaves'⟩
    rintro ⟨name, hown, hlog, hret⟩
    refine ⟨name, hown, ?_, hret⟩
    rw [Result.andThen, List.filter_append, hquiet, List.nil_append, hlog]

theorem attach_leaves {name : String} (hname : e.mctpIfName = name) (cs : SetupCalls)
    (hgone : awaitGone name cs.closeLast.listings 50 0 = "") :
    Quiet (e.attach cs).2.1 ∧ Leaves (e.attach cs) (· = name) := by
  unfold attach
  dsimp only
  refine andThen_quiet (P := (· = name)) ⟨rfl, hname⟩ fun e _ hname => ?_
  rw [← hname] at hgone
  split
  next => exact ⟨rfl, Or.inl rfl⟩
  next =>
    split
    next => exact abandon_leaves cs _ hgone
    next =>
      split
      next => exact abandon_leaves cs _ hgone
      next =>
        split
        next => exact abandon_leaves cs _ hgone
        next => exact ⟨rfl, hname⟩

theorem attach_returns (cs : SetupCalls) {n : String} (h : (e.attach cs).2.2 = .ok n) :
    n = e.mctpIfName := by
  unfold attach at h
  dsimp only [Result.andThen] at h
  split at h
  next => cases h
  next =>
    split at h
    next => cases h
    next =>
      split at h
      next => cases h
      next =>
        split at h
        next => cases h
        next =>
          cases h
          rfl

theorem initializeLink_configures (hdown : e.isUp = false → e.mctpIfName = "")
    (requested : String) (localEid : Byte) (peerEids : List Byte) (cs : SetupCalls)
    (hfirst : e.isUp = true → awaitGone e.mctpIfName cs.closeFirst.listings 50 0 = "")
    (hlast : cs.SeesGone requested) :
    Configures (cs.Offers requested) localEid peerEids
        (e.initializeLink requested localEid peerEids cs) ∧
      Leaves (e.initializeLink requested localEid peerEids cs) (cs.Offers requested) := by
  unfold initializeLink
  have hclosed : Quiet (if e.isUp then e.close cs.closeFirst else (e, [])).2 ∧
      (if e.isUp then e.close cs.closeFirst else (e, [])).1.mctpIfName = "" := by
    cases hup : e.isUp with
    | true => exact ⟨(wordless_close e cs.closeFirst).quiet, hfirst hup⟩
    | false => exact ⟨rfl, hdown hup⟩
  refine andThen_configures (P := (· = "")) hclosed fun e₁ _ h₁ => ?_
  refine andThen_configures (openMaster_leaves h₁ cs) fun e₂ slaveName h₂ => ?_
  refine andThen_configures (openSlave_leaves h₂ slaveName cs) fun e₃ _ h₃ => ?_
  refine andThen_configures (findDevice_leaves h₃ requested cs hlast) fun e₄ _ hown => ?_
  obtain ⟨hquiet, hleaves⟩ := attach_leaves (e := { e₄ with localEid := localEid }) rfl cs
    (hlast _ hown.mem_candidates)
  refine ⟨Or.inr ⟨e₄.mctpIfName, hown, ?_, fun n hn =>
    attach_returns (e := { e₄ with localEid := localEid }) cs hn⟩, ?_⟩
  · rw [configure, Result.andThen, List.filter_append, filter_configuration, hquiet,
      List.append_nil]
  · exact Leaves.mono (r := ({ e₄ with localEid := localEid }).attach cs) hleaves
      fun n hn => hn ▸ hown

end Names

namespace Life

/-- Every `close` of the call sees the device go that the name field names. -/
def SeesGone (s : Life) : Op → Prop
  | .setUp requested _ _ cs =>
    (s.endpoint.isUp = true → awaitGone s.endpoint.mctpIfName cs.closeFirst.listings 50 0 = "") ∧
      cs.SeesGone requested
  | .close cs => awaitGone s.endpoint.mctpIfName cs.listings 50 0 = ""
  | .destroy cs => awaitGone s.endpoint.mctpIfName cs.listings 50 0 = ""

/-- The call configures a device that it has found, with all the requests in their order, and
returns its name, or it configures nothing and throws. All else that it asks for is that devices
that it has found get the requested name. -/
def ConfiguresOwn (s : Life) : Op → Prop
  | .setUp requested localEid peerEids cs =>
    let r := s.endpoint.initializeLink requested localEid peerEids cs
    Configures (cs.Offers requested) localEid peerEids r ∧ Asks cs requested r.2.1
  | _ => True

/-- Without a link there is no name. -/
structure Named (s : Life) : Prop where
  order : ∃ k, InOrder s k
  down : s.endpoint.isUp = false → s.endpoint.mctpIfName = ""

theorem named_step {s t : Life} {op : Op} (h : Named s) (hgone : SeesGone s op)
    (hstep : s.step op = some t) : Named t := by
  obtain ⟨k, horder⟩ := h.order
  obtain ⟨k', horder', -⟩ := inOrder_step horder hstep
  refine ⟨⟨k', horder'⟩, fun hup => ?_⟩
  have happly : t.endpoint = (op.apply s.endpoint).1 := by
    unfold step at hstep
    split at hstep
    next => cases hstep
    next =>
      dsimp only at hstep
      split at hstep
      next =>
        cases hstep
        rfl
      next => cases hstep
  rw [happly] at hup ⊢
  cases op with
  | setUp requested localEid peerEids cs =>
    have hleaves := (initializeLink_configures h.down requested localEid peerEids cs hgone.1
      hgone.2).2
    obtain ⟨k'', -, hphase, hx⟩ := initializeLink_ends horder.phase requested localEid peerEids cs
    have hnone := hphase.of_not_isUp hup
    unfold Leaves at hleaves
    split at hleaves
    next a hr =>
      rw [hr] at hx
      rw [hnone] at hx
      cases hx
    next err hr =>
      rw [hr] at hx
      obtain rfl | hname := hleaves
      · rw [hnone] at hx
        cases hx
      · exact hname
  | close cs => exact hgone
  | destroy cs => exact hgone

/-- As long as every `close` sees its device go, each `initialize` of a life configures only
a device that has appeared during this very call, under its own or the requested name, with
all requests in their order, and returns its name. What it renames has appeared during the call,
too. -/
theorem endpoint_configures_own_device (ops : List Op) (hgone : Every step SeesGone start ops) :
    Every step ConfiguresOwn start ops := by
  refine every_imp Named (fun _ _ _ h hG hstep => named_step h hG hstep) ?_
    ⟨⟨Link.none, inOrder_start⟩, fun _ => rfl⟩ hgone
  intro s op h hG
  cases op with
  | setUp requested localEid peerEids cs =>
    exact ⟨(initializeLink_configures h.down requested localEid peerEids cs hG.1 hG.2).1,
      initializeLink_asks requested localEid peerEids cs⟩
  | close cs => trivial
  | destroy cs => trivial

instance (s : Life) : ∀ op, Decidable (SeesGone s op)
  | .setUp requested _ _ cs => inferInstanceAs (Decidable
      ((s.endpoint.isUp = true → awaitGone s.endpoint.mctpIfName cs.closeFirst.listings 50 0 = "") ∧
        ∀ name ∈ candidates (listMctpDevices cs.before) requested cs.turns,
          awaitGone name cs.closeLast.listings 50 0 = ""))
  | .close cs =>
    inferInstanceAs (Decidable (awaitGone s.endpoint.mctpIfName cs.listings 50 0 = ""))
  | .destroy cs =>
    inferInstanceAs (Decidable (awaitGone s.endpoint.mctpIfName cs.listings 50 0 = ""))

theorem endpoint_configures_own_device_uses :
    Every step SeesGone start uses ∧ Every step ConfiguresOwn start uses := by
  have hgone : Every step SeesGone start uses := by decide +kernel
  exact ⟨hgone, endpoint_configures_own_device uses hgone⟩

/-- Calls that find no new device. -/
def lateSetup : SetupCalls := { goodSetup with before := some [⟨"mctpserial0", true⟩] }

/-- A device that is slow to go: the next call finds no device of its own and takes the
one that is left. -/
theorem endpoint_configures_stale_device :
    ¬ Every step ConfiguresOwn start ([.setUp "" 9 [10] goodSetup,
      .close ⟨true, fun _ => some [⟨"mctpserial0", true⟩]⟩] ++ [.setUp "" 11 [] lateSetup]) := by
  have hdone : (exec step start [.setUp "" 9 [10] goodSetup,
      .close ⟨true, fun _ => some [⟨"mctpserial0", true⟩]⟩]).map (fun s =>
        (s.endpoint.initializeLink "" 11 [] lateSetup).2.2.toOption) =
      some (some "mctpserial0") := by
    decide +kernel
  have hnew : ∀ p ∈ lateSetup.turns, newDevices (listMctpDevices lateSetup.before) p = [] := by
    decide +kernel
  obtain ⟨s, hrun, hret⟩ := Option.map_eq_some_iff.mp hdone
  intro h
  rw [every_concat] at h
  rcases (h.2 s hrun).1 with ⟨-, hno⟩ | ⟨name, ⟨p, hp, dev, hdev, -⟩, -⟩
  · cases hr : (s.endpoint.initializeLink "" 11 [] lateSetup).2.2 with
    | ok n => exact hno n hr
    | error err =>
      rw [hr] at hret
      cases hret
  · rw [hnew p hp] at hdev
    cases hdev

end Life

end MctpSerial.LinuxMctpSerial
