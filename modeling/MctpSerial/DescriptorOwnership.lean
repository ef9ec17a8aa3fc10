import MctpSerial.DescriptorLedgers
import Mathlib.Algebra.Order.Group.Multiset

/-!
# Ownership of descriptors

A party owns a multiset of descriptors, each with its source. `Turns xs es ys` says that a
party which owns `xs` obtains and closes what the log `es` tells, closes only what it owns
at that time, and owns `ys` in the end. The rules are those of a logic of resources: logs
compose in sequence, what a log does not touch is framed, and two parties that own
different descriptors may interleave their logs in any way. `Turns.holds` connects them to
the ledger, under the one promise of the system that `Fresh` states: a number is handed
out only while nobody holds it.
-/
namespace MctpSerial.DescriptorLedgers

variable {α τ : Type}

inductive Turns : Multiset (α × τ) → List (Event α τ) → Multiset (α × τ) → Prop
  | nil (xs : Multiset (α × τ)) : Turns xs [] xs
  | obtained {xs ys : Multiset (α × τ)} {es : List (Event α τ)} (a : α) (t : τ)
      (h : Turns ((a, t) ::ₘ xs) es ys) : Turns xs (.obtained a t :: es) ys
  | closed {xs ys : Multiset (α × τ)} {es : List (Event α τ)} (a : α) (t : τ)
      (h : Turns xs es ys) : Turns ((a, t) ::ₘ xs) (.closed a :: es) ys

/-- A log that keeps the order of two logs and takes each entry from one of them. -/
inductive Woven {ε : Type} : List ε → List ε → List ε → Prop
  | nil : Woven [] [] []
  | left {es es' fs : List ε} (e : ε) (h : Woven es es' fs) : Woven (e :: es) es' (e :: fs)
  | right {es es' fs : List ε} (e : ε) (h : Woven es es' fs) : Woven es (e :: es') (e :: fs)

theorem Woven.of_left {ε : Type} (es : List ε) : Woven es [] es := by
  induction es with
  | nil => exact .nil
  | cons e es ih => exact ih.left e

namespace Turns

variable {xs xs' ys ys' zs : Multiset (α × τ)} {es es' fs : List (Event α τ)}

/-- Two parties that own different descriptors do not get in each other's way, however
their logs are interleaved. -/
theorem weave (hw : Woven es es' fs) (h : Turns xs es ys) (h' : Turns xs' es' ys') :
    Turns (xs + xs') fs (ys + ys') := by
  induction hw generalizing xs xs' with
  | nil =>
    cases h
    cases h'
    exact .nil _
  | left e hw ih =>
    cases h with
    | obtained a t h =>
      have hrest := ih h h'
      rw [Multiset.cons_add] at hrest
      exact hrest.obtained a t
    | closed a t h =>
      rw [Multiset.cons_add]
      exact (ih h h').closed a t
  | right e hw ih =>
    cases h' with
    | obtained a t h' =>
      have hrest := ih h h'
      rw [Multiset.add_cons] at hrest
      exact hrest.obtained a t
    | closed a t h' =>
      rw [Multiset.add_cons]
      exact (ih h h').closed a t

/-- What a log does not touch stays as it is. -/
theorem frame (h : Turns xs es ys) (zs : Multiset (α × τ)) : Turns (xs + zs) es (ys + zs) :=
  h.weave (Woven.of_left es) (.nil zs)

theorem trans (h : Turns xs es ys) (h' : Turns ys es' zs) : Turns xs (es ++ es') zs := by
  induction h with
  | nil xs => exact h'
  | obtained a t h ih => exact (ih h').obtained a t
  | closed a t h ih => exact (ih h').closed a t

/-- One log after the other, on descriptors of their own. -/
theorem append (h : Turns xs es ys) (h' : Turns xs' es' ys') :
    Turns (xs + xs') (es ++ es') (ys + ys') := by
  have hsecond := h'.frame ys
  rw [add_comm xs', add_comm ys'] at hsecond
  exact (h.frame xs').trans hsecond

theorem of_eq (h : Turns xs es ys) (hx : xs = xs') (hy : ys = ys') : Turns xs' es ys' := by
  rw [← hx, ← hy]
  exact h

/-- A single descriptor is obtained. -/
theorem obtain_one (a : α) (t : τ) : Turns 0 [.obtained a t] {(a, t)} :=
  .obtained a t (.nil _)

/-- A single descriptor is closed. -/
theorem close_one (a : α) (t : τ) : Turns {(a, t)} [.closed a] 0 :=
  .closed a t (.nil 0)

end Turns

section Sound

/-- The ledger holds the descriptors `xs` and no others, each once. -/
structure Ledger.Holds (L : Ledger α τ) (xs : Multiset (α × τ)) : Prop where
  nodup : (xs.map Prod.fst).Nodup
  held_iff : ∀ a t, L.held a = some t ↔ (a, t) ∈ xs

theorem Ledger.holds_empty : (Ledger.empty : Ledger α τ).Holds 0 :=
  ⟨Multiset.nodup_zero, fun _ _ => iff_of_false (by simp [Ledger.empty]) (Multiset.notMem_zero _)⟩

theorem Ledger.Holds.held_eq_none_iff {L : Ledger α τ} {xs : Multiset (α × τ)} {a : α}
    (h : L.Holds xs) :
    L.held a = none ↔ a ∉ xs.map Prod.fst := by
  rw [Option.eq_none_iff_forall_ne_some, Multiset.mem_map]
  constructor
  · rintro hnone ⟨⟨b, t⟩, hmem, rfl⟩
    exact hnone t ((h.held_iff b t).mpr hmem)
  · intro hnot t hheld
    exact hnot ⟨(a, t), (h.held_iff a t).mp hheld, rfl⟩

variable [DecidableEq α]

/-- Each number is handed out while it is not held. -/
def Ledger.Fresh (L : Ledger α τ) : List (Event α τ) → Prop
  | [] => True
  | .obtained a t :: es => L.held a = none ∧ (L.post (.obtained a t)).Fresh es
  | .closed a :: es => (L.post (.closed a)).Fresh es

instance Ledger.decidableFresh (L : Ledger α τ) : ∀ es, Decidable (L.Fresh es)
  | [] => isTrue trivial
  | .obtained a t :: es =>
    have : Decidable ((L.post (.obtained a t)).Fresh es) := Ledger.decidableFresh _ es
    inferInstanceAs (Decidable (_ ∧ _))
  | .closed a :: es => Ledger.decidableFresh (L.post (.closed a)) es

theorem Ledger.fresh_append (L : Ledger α τ) (es es' : List (Event α τ)) :
    L.Fresh (es ++ es') ↔ L.Fresh es ∧ (L.postAll es).Fresh es' := by
  induction es generalizing L with
  | nil => simp [Fresh]
  | cons e es ih =>
    cases e with
    | obtained a t => simp only [List.cons_append, Fresh, ih, postAll_cons, and_assoc]
    | closed a => simp only [List.cons_append, Fresh, ih, postAll_cons]

variable {L : Ledger α τ} {xs ys : Multiset (α × τ)} {a : α} {t : τ}

theorem Ledger.Holds.obtained (h : L.Holds xs) (hfresh : L.held a = none) :
    (L.post (.obtained a t)).Holds ((a, t) ::ₘ xs) where
  nodup := by
    rw [Multiset.map_cons, Multiset.nodup_cons]
    exact ⟨h.held_eq_none_iff.mp hfresh, h.nodup⟩
  held_iff b u := by
    rw [Ledger.held_obtained, Multiset.mem_cons, Prod.mk.injEq]
    by_cases hb : b = a
    · subst hb
      have hnot : (b, u) ∉ xs := fun hmem => by simp [(h.held_iff b u).mpr hmem] at hfresh
      rw [Function.update_self, Option.some.injEq, or_iff_left hnot, eq_self, true_and, eq_comm]
    · rw [Function.update_of_ne hb, h.held_iff, or_iff_right fun hcon => hb hcon.1]

theorem Ledger.Holds.closed (h : L.Holds ((a, t) ::ₘ xs)) : (L.post (.closed a)).Holds xs := by
  have hnodup := h.nodup
  rw [Multiset.map_cons, Multiset.nodup_cons] at hnodup
  refine ⟨hnodup.2, fun b u => ?_⟩
  rw [Ledger.held_closed]
  by_cases hb : b = a
  · subst hb
    rw [Function.update_self]
    refine iff_of_false (fun hcon => by cases hcon) fun hmem => hnodup.1 ?_
    exact Multiset.mem_map.mpr ⟨(b, u), hmem, rfl⟩
  · rw [Function.update_of_ne hb, h.held_iff, Multiset.mem_cons, Prod.mk.injEq,
      or_iff_right fun hcon => hb hcon.1]

/-- A number that is not held is closed: nothing else changes. -/
theorem Ledger.Holds.stray (h : L.Holds xs) (hnone : L.held a = none) :
    (L.post (.closed a)).Holds xs := by
  refine ⟨h.nodup, fun b u => ?_⟩
  rw [Ledger.held_closed, ← hnone, Function.update_eq_self, h.held_iff]

/-- Whoever held the number before, nobody does afterwards, and nothing else changes. -/
theorem Ledger.Holds.close_any (h : L.Holds xs) (a : α) : ∃ ys, (L.post (.closed a)).Holds ys ∧
    ∀ p, p ∈ ys ↔ p ∈ xs ∧ p.1 ≠ a := by
  cases hheld : L.held a with
  | none =>
    refine ⟨xs, h.stray hheld, fun p => (and_iff_left_of_imp ?_).symm⟩
    rintro hp rfl
    rw [(h.held_iff p.1 p.2).mpr hp] at hheld
    cases hheld
  | some t =>
    obtain ⟨ys, rfl⟩ := Multiset.exists_cons_of_mem ((h.held_iff a t).mp hheld)
    have hnodup := h.nodup
    rw [Multiset.map_cons, Multiset.nodup_cons] at hnodup
    refine ⟨ys, h.closed, fun p => ?_⟩
    rw [Multiset.mem_cons]
    constructor
    · intro hp
      exact ⟨Or.inr hp, fun heq => hnodup.1 (Multiset.mem_map.mpr ⟨p, hp, heq⟩)⟩
    · rintro ⟨rfl | hp, hne⟩
      · exact absurd rfl hne
      · exact hp

/-- On a ledger with fresh numbers the log of a party leads from what it owned to what it
owns, with no stray close. -/
theorem Turns.holds {es : List (Event α τ)} (hturns : Turns xs es ys) (h : L.Holds xs)
    (hfresh : L.Fresh es) : (L.postAll es).Holds ys ∧ (L.postAll es).strays = L.strays := by
  induction hturns generalizing L with
  | nil xs => exact ⟨h, rfl⟩
  | obtained a t hturns ih =>
    obtain ⟨hholds, hstrays⟩ := ih (h.obtained hfresh.1) hfresh.2
    exact ⟨hholds, hstrays⟩
  | closed a t hturns ih =>
    obtain ⟨hholds, hstrays⟩ := ih h.closed hfresh
    have hheld : (L.held a).isSome = true := by
      rw [(h.held_iff a t).mpr (Multiset.mem_cons_self _ _)]
      rfl
    exact ⟨hholds, hstrays.trans (Ledger.strays_closed hheld)⟩

end Sound

/-! ## Fields that hold a descriptor or a negative number -/

/-- What a field names. -/
def named (fd : ℤ) (t : τ) : Multiset (ℤ × τ) := if 0 ≤ fd then {(fd, t)} else 0

/-- The close of a field that is set. -/
def closing (fd : ℤ) : List (Event ℤ τ) := if 0 ≤ fd then [.closed fd] else []

@[simp] theorem named_natCast (n : ℕ) (t : τ) : named (n : ℤ) t = {((n : ℤ), t)} :=
  if_pos (Int.natCast_nonneg n)

theorem named_of_neg {fd : ℤ} (h : fd < 0) (t : τ) : named fd t = 0 := if_neg (not_le.mpr h)

@[simp] theorem named_neg_one (t : τ) : named (-1) t = 0 := rfl

theorem Turns.closing (fd : ℤ) (t : τ) : Turns (named fd t) (closing fd) 0 := by
  unfold named DescriptorLedgers.closing
  split
  next => exact .close_one fd t
  next => exact .nil 0

end MctpSerial.DescriptorLedgers
