/-
# Trees of parent pointers

A table of nodes in which every node but one points to its parent.  `Behind` is the walk up the
pointers, and `walk` is the loop that makes it; it ends because a parent always ranks below its
children (`Rooted.falls`), as it does where nodes are made one by one and the parent was there
first.

Two operations keep such a table a tree: a new leaf (`Rooted.insert`), and the removal of a node
with all that is behind it (`Rooted.prune`), where nothing that stays points to what went.
-/
import Mathlib.Logic.Relation
import Mathlib.Data.Set.Insert

namespace ParentTree

variable {ι : Type*} (parent : ι → Option ι)

/-- Going up the parents from `s`, one comes to `a`. -/
def Behind (s a : ι) : Prop := Relation.ReflTransGen (fun x y => parent x = some y) s a

/-- What the walk up from `s` meets, in at most `n` steps. -/
def walk : Nat → ι → List ι
  | 0, s => [s]
  | n + 1, s => s :: (parent s).elim [] (walk n)

/-- The nodes `S` are a tree under `root`; a parent ranks below its children, so no walk up comes
round. -/
structure Rooted (rank : ι → ℕ) (S : Set ι) (root : ι) : Prop where
  root_mem : root ∈ S
  root_top : parent root = none
  up : ∀ s ∈ S, s ≠ root → ∃ p ∈ S, parent s = some p
  falls : ∀ s p, parent s = some p → rank p < rank s

variable {parent}

/-! ## 1. The walk

The walk is bounded by the rank of where it starts, so a bound on the number of nodes need not be
known. -/

theorem behind_of_mem_walk : ∀ {n : ℕ} {s a : ι}, a ∈ walk parent n s → Behind parent s a
  | 0, s, a, h => by
    rw [List.mem_singleton.mp h]
    exact Relation.ReflTransGen.refl
  | n + 1, s, a, h => by
    rcases List.mem_cons.mp h with rfl | h
    · exact Relation.ReflTransGen.refl
    · cases hp : parent s with
      | none =>
        rw [hp] at h
        exact absurd h List.not_mem_nil
      | some p =>
        rw [hp] at h
        exact Relation.ReflTransGen.head hp (behind_of_mem_walk (n := n) h)

/-- From a node without a parent the walk goes nowhere. -/
theorem eq_of_behind_top {s a : ι} (hs : parent s = none) (h : Behind parent s a) : a = s := by
  rcases Relation.ReflTransGen.cases_head h with rfl | ⟨p, hp, -⟩
  · rfl
  · rw [hs] at hp
    exact absurd hp (by simp)

section Rank

variable {rank : ι → ℕ} (falls : ∀ s p, parent s = some p → rank p < rank s)

include falls

/-- A walk as long as the rank meets everything above. -/
theorem mem_walk_of_behind {n : ℕ} {s a : ι} (hn : rank s ≤ n) (h : Behind parent s a) :
    a ∈ walk parent n s := by
  induction n generalizing s with
  | zero =>
    rcases Relation.ReflTransGen.cases_head h with rfl | ⟨p, hp, -⟩
    · exact List.mem_singleton_self _
    · have := falls s p hp
      omega
  | succ n ih =>
    rcases Relation.ReflTransGen.cases_head h with rfl | ⟨p, hp, hpa⟩
    · exact List.mem_cons_self ..
    · have hrank := falls s p hp
      have hmem := ih (by omega) hpa
      rw [walk, hp]
      exact List.mem_cons_of_mem _ hmem

/-- A longer walk meets nothing more: it has ended. -/
theorem walk_ends {n : ℕ} {s : ι} (hn : rank s ≤ n) : walk parent (n + 1) s = walk parent n s := by
  induction n generalizing s with
  | zero =>
    have htop : parent s = none := by
      cases hp : parent s with
      | none => rfl
      | some p =>
        have := falls s p hp
        omega
    simp only [walk, htop, Option.elim_none]
  | succ n ih =>
    rw [walk, walk]
    cases hp : parent s with
    | none => rfl
    | some p =>
      have hrank := falls s p hp
      have hstep := ih (s := p) (by omega)
      rw [Option.elim_some, Option.elim_some, hstep]

end Rank

/-- What holds at `a`, and of a node with its parent, holds behind `a`. -/
theorem of_behind {P : ι → Prop} {s a : ι} (h : Behind parent s a) (ha : P a)
    (step : ∀ x p, parent x = some p → Behind parent p a → P p → P x) : P s := by
  induction h using Relation.ReflTransGen.head_induction_on with
  | refl => exact ha
  | head hp hpa ih => exact step _ _ hp hpa ih

/-- Parents that agree above `s` make the same walk. -/
theorem Behind.congr {parent' : ι → Option ι} {S : Set ι} (hS : ∀ x ∈ S, parent' x = parent x)
    (hup : ∀ x ∈ S, ∀ p, parent x = some p → p ∈ S) {s a : ι} (hs : s ∈ S) :
    Behind parent' s a ↔ Behind parent s a := by
  constructor
  · intro h
    induction h using Relation.ReflTransGen.head_induction_on with
    | refl => exact Relation.ReflTransGen.refl
    | head hp hpa ih =>
      rw [hS _ hs] at hp
      exact Relation.ReflTransGen.head hp (ih (hup _ hs _ hp))
  · intro h
    induction h using Relation.ReflTransGen.head_induction_on with
    | refl => exact Relation.ReflTransGen.refl
    | head hp hpa ih =>
      exact Relation.ReflTransGen.head ((hS _ hs).trans hp) (ih (hup _ hs _ hp))

/-! ## 2. The tree

What the two operations keep, and what the tree gives: every node has the root behind it, and a
last node before the root. -/

namespace Rooted

variable {rank : ι → ℕ} {S : Set ι} {root : ι} (h : Rooted parent rank S root)

include h

theorem parent_mem {s p : ι} (hs : s ∈ S) (hp : parent s = some p) : p ∈ S := by
  by_cases hroot : s = root
  · rw [hroot, h.root_top] at hp
    exact absurd hp (by simp)
  · obtain ⟨q, hq, hsq⟩ := h.up s hs hroot
    rw [hp] at hsq
    rw [Option.some.inj hsq]
    exact hq

theorem behind_root {s : ι} (hs : s ∈ S) : Behind parent s root := by
  induction hr : rank s using Nat.strong_induction_on generalizing s with
  | _ n ih =>
    by_cases hroot : s = root
    · rw [hroot]
      exact Relation.ReflTransGen.refl
    · obtain ⟨p, hp, hsp⟩ := h.up s hs hroot
      exact Relation.ReflTransGen.head hsp (ih (rank p) (hr ▸ h.falls s p hsp) hp rfl)

theorem eq_root_of_root_behind {a : ι} (ha : Behind parent root a) : a = root :=
  eq_of_behind_top h.root_top ha

theorem behind_mem {s a : ι} (hs : s ∈ S) (ha : Behind parent s a) : a ∈ S := by
  induction ha with
  | refl => exact hs
  | tail _ hp ih => exact h.parent_mem ih hp

theorem first_hop {s : ι} (hs : s ∈ S) (hroot : s ≠ root) :
    ∃ a ∈ S, a ≠ root ∧ Behind parent s a ∧ parent a = some root := by
  rcases Relation.ReflTransGen.cases_tail (h.behind_root hs) with e | ⟨a, hsa, ha⟩
  · exact absurd e.symm hroot
  · refine ⟨a, h.behind_mem hs hsa, ?_, hsa, ha⟩
    rintro rfl
    rw [h.root_top] at ha
    exact absurd ha (by simp)

theorem insert {parent' : ι → Option ι} {x p : ι} (hp : p ∈ S) (hx : x ∉ S)
    (hold : ∀ s ∈ S, parent' s = parent s) (hnew : parent' x = some p)
    (hfalls : ∀ s p, parent' s = some p → rank p < rank s) :
    Rooted parent' rank (Insert.insert x S) root where
  root_mem := Set.mem_insert_of_mem x h.root_mem
  root_top := (hold root h.root_mem).trans h.root_top
  falls := hfalls
  up := by
    intro s hs hroot
    rcases Set.mem_insert_iff.mp hs with rfl | hs
    · exact ⟨p, Set.mem_insert_of_mem _ hp, hnew⟩
    · obtain ⟨q, hq, hsq⟩ := h.up s hs hroot
      exact ⟨q, Set.mem_insert_of_mem _ hq, (hold s hs).trans hsq⟩

/-- A node goes with all that is behind it. The others keep their parents, none of
which has gone. -/
theorem prune {parent' : ι → Option ι} {r : ι} (hr : r ≠ root)
    (hold : ∀ s ∈ S, ¬ Behind parent s r → parent' s = parent s)
    (hfalls : ∀ s p, parent' s = some p → rank p < rank s) :
    Rooted parent' rank {s ∈ S | ¬ Behind parent s r} root := by
  have hroot : ¬ Behind parent root r := fun hb => hr (h.eq_root_of_root_behind hb)
  refine ⟨⟨h.root_mem, hroot⟩, (hold root h.root_mem hroot).trans h.root_top, ?_, hfalls⟩
  rintro s ⟨hs, hb⟩ hne
  obtain ⟨p, hp, hsp⟩ := h.up s hs hne
  exact ⟨p, ⟨hp, fun hpr => hb (Relation.ReflTransGen.head hsp hpr)⟩, (hold s hs hb).trans hsp⟩

end Rooted

end ParentTree
