import Mathlib.Logic.Function.Basic
import Mathlib.Data.Option.Basic

/-!
# Ledgers of descriptors

A ledger follows a log of descriptors obtained and closed. It remembers for each number
that is held where it came from, and every number that was closed while it was not held.
A party that obtains only numbers it does not hold closes each descriptor exactly once
when its ledger ends with nothing held and no stray close.
-/
namespace MctpSerial.DescriptorLedgers

/-- A descriptor `a` is obtained from the source `t`, or closed by its number. -/
inductive Event (α τ : Type) where
  | obtained (a : α) (t : τ)
  | closed (a : α)

structure Ledger (α τ : Type) where
  held : α → Option τ
  strays : List α

variable {α τ : Type}

/-- Nothing obtained yet. -/
def Ledger.empty : Ledger α τ := ⟨fun _ => none, []⟩

variable [DecidableEq α]

def Ledger.post (L : Ledger α τ) : Event α τ → Ledger α τ
  | .obtained a t => { L with held := Function.update L.held a (some t) }
  | .closed a =>
    { held := Function.update L.held a none
      strays := if (L.held a).isSome then L.strays else L.strays ++ [a] }

def Ledger.postAll (L : Ledger α τ) (es : List (Event α τ)) : Ledger α τ := es.foldl Ledger.post L

@[simp] theorem Ledger.postAll_nil (L : Ledger α τ) : L.postAll [] = L := rfl

@[simp] theorem Ledger.postAll_cons (L : Ledger α τ) (e : Event α τ) (es : List (Event α τ)) :
    L.postAll (e :: es) = (L.post e).postAll es := rfl

@[simp] theorem Ledger.held_obtained (L : Ledger α τ) (a : α) (t : τ) :
    (L.post (.obtained a t)).held = Function.update L.held a (some t) := rfl

@[simp] theorem Ledger.held_closed (L : Ledger α τ) (a : α) :
    (L.post (.closed a)).held = Function.update L.held a none := rfl

theorem Ledger.strays_closed {L : Ledger α τ} {a : α} (h : (L.held a).isSome = true) :
    (L.post (.closed a)).strays = L.strays := by
  simp [Ledger.post, h]

theorem Ledger.postAll_append (L : Ledger α τ) (es es' : List (Event α τ)) :
    L.postAll (es ++ es') = (L.postAll es).postAll es' :=
  List.foldl_append

section CloseIf

variable (L : Ledger α τ) (c : Prop) [Decidable c] (a : α)

/-- The number `a` is closed if the condition `c` holds. -/
theorem Ledger.held_closeIf (b : α) :
    (L.postAll (if c then [.closed a] else [])).held b =
      if c ∧ b = a then none else L.held b := by
  by_cases hc : c
  · by_cases hb : b = a
    · subst hb
      simp [hc]
    · simp [hc, hb]
  · simp [hc]

theorem Ledger.strays_closeIf (h : c → (L.held a).isSome = true) :
    (L.postAll (if c then [.closed a] else [])).strays = L.strays := by
  by_cases hc : c
  · rw [if_pos hc]
    exact Ledger.strays_closed (h hc)
  · rw [if_neg hc]
    rfl

end CloseIf

/-- A descriptor obtained and closed again leaves no trace. -/
theorem Ledger.post_obtained_closed {L : Ledger α τ} {a : α} (h : L.held a = none) (t : τ) :
    (L.post (.obtained a t)).post (.closed a) = L := by
  have hheld : Function.update (Function.update L.held a (some t)) a none = L.held := by
    rw [Function.update_idem, ← h, Function.update_eq_self]
  simp [Ledger.post, hheld]

/-! ## Logs whose entries say more than the event -/

/-- The number that is closed. -/
def Event.number : Event α τ → Option α
  | .obtained _ _ => none
  | .closed a => some a

section Entries

variable {ε : Type} (event : ε → Event α τ)

/-- The entries that close what nobody holds when their turn comes. -/
def Ledger.misses (L : Ledger α τ) : List ε → List ε
  | [] => []
  | e :: log =>
    let later := Ledger.misses (L.post (event e)) log
    match event e with
    | .obtained _ _ => later
    | .closed a => if (L.held a).isSome then later else e :: later

variable {event} {L : Ledger α τ} {log log' : List ε}

theorem Ledger.misses_cons (event : ε → Event α τ) (L : Ledger α τ) (e : ε) (log : List ε) :
    Ledger.misses event L (e :: log) = Ledger.misses event (L.post (event e)) log ∨
      Ledger.misses event L (e :: log) = e :: Ledger.misses event (L.post (event e)) log ∧
        ∃ a, event e = .closed a := by
  rw [Ledger.misses]
  cases he : event e with
  | obtained a t => exact Or.inl rfl
  | closed a =>
    dsimp only
    cases hheld : L.held a with
    | none => exact Or.inr ⟨rfl, a, rfl⟩
    | some t => exact Or.inl rfl

theorem Ledger.misses_append : Ledger.misses event L (log ++ log') =
    Ledger.misses event L log ++ Ledger.misses event (L.postAll (log.map event)) log' := by
  induction log generalizing L with
  | nil => rfl
  | cons e log ih =>
    simp only [List.cons_append, Ledger.misses, ih, List.map_cons, Ledger.postAll_cons]
    cases event e with
    | obtained a t => rfl
    | closed a =>
      dsimp only
      split
      next => rfl
      next => rfl

theorem Ledger.mem_misses {e : ε} (h : e ∈ Ledger.misses event L log) :
    e ∈ log ∧ ∃ a, event e = .closed a := by
  induction log generalizing L with
  | nil => exact absurd h List.not_mem_nil
  | cons d log ih =>
    rcases Ledger.misses_cons event L d log with hd | ⟨hd, a, hclosed⟩
    · rw [hd] at h
      exact (ih h).imp_left (List.mem_cons_of_mem d)
    · rw [hd, List.mem_cons] at h
      rcases h with rfl | h
      · exact ⟨List.mem_cons_self, a, hclosed⟩
      · exact (ih h).imp_left (List.mem_cons_of_mem d)

/-- The ledger remembers their numbers. -/
theorem Ledger.strays_postAll : (L.postAll (log.map event)).strays =
    L.strays ++ (Ledger.misses event L log).filterMap fun e => (event e).number := by
  induction log generalizing L with
  | nil => simp [Ledger.misses]
  | cons e log ih =>
    rw [List.map_cons, Ledger.postAll_cons, ih, Ledger.misses]
    cases he : event e with
    | obtained a t => rfl
    | closed a =>
      cases hheld : L.held a with
      | none => simp [Ledger.post, hheld, he, Event.number]
      | some t => simp [Ledger.post, hheld]

/-- A log that adds no stray close has no entry that makes one. -/
theorem Ledger.misses_eq_nil (h : (L.postAll (log.map event)).strays = L.strays) :
    Ledger.misses event L log = [] := by
  rw [Ledger.strays_postAll, List.append_right_eq_self, List.filterMap_eq_nil_iff] at h
  refine List.eq_nil_iff_forall_not_mem.mpr fun e he => ?_
  obtain ⟨-, a, hclosed⟩ := Ledger.mem_misses he
  have hnone := h e he
  rw [hclosed] at hnone
  cases hnone

end Entries

end MctpSerial.DescriptorLedgers
