/-
# Counts under keys

A table has an entry with a count for each key that something is counted under.  The first one makes
the entry, for which there may be no memory, and the last one takes it out.

`Counts t ks` says that the table is exact for a list of keys: the count of a key is how often it
stands in the list, and there is no entry for any other.  Each increment and each decrement of a
key in the list keeps that (`Counts.inc`, `Counts.dec`); a decrement of any other entry never does
(`Counts.not_dec`).
-/
import Mathlib.Data.List.Count
import Mathlib.Algebra.Order.Group.Int

namespace Tally

variable {K : Type*} [DecidableEq K]

/-- The entries. -/
abbrev Table (K : Type*) := List (K × Int)

namespace Table

variable (t : Table K) (k : K)

def find : Option Int := t.lookup k

/-- The entry of a key, changed. -/
def change (f : Int → Int) : Table K := t.map fun e => if e.1 = k then (e.1, f e.2) else e

/-- One more under a key; `alloc` says whether there is memory for a new entry. -/
def inc (alloc : Bool) : Table K :=
  match t.find k with
  | some _ => t.change k (· + 1)
  | none => if alloc then (k, 1) :: t else t

/-- One less. -/
def dec : Table K :=
  match t.find k with
  | none => t
  | some n => if n - 1 ≤ 0 then t.filter fun e => e.1 ≠ k else t.change k (· - 1)

end Table

/-- The table is exact for a list of keys: each key has the count of its occurrences, and one that
does not occur has no entry. -/
def Counts (t : Table K) (ks : List K) : Prop :=
  ∀ k, t.find k = if ks.count k = 0 then none else some (ks.count k : Int)

/-! ## 1. Entries

What stands under the key of an operation, before and after. Other keys keep what they have. -/

section Find

variable {t : Table K} {k k' : K}

theorem find_cons (e : K × Int) (t : Table K) (k : K) :
    Table.find (e :: t) k = if k = e.1 then some e.2 else t.find k := by
  rw [Table.find, List.lookup_cons]
  by_cases h : k = e.1
  · rw [if_pos h, beq_iff_eq.mpr h]
  · rw [if_neg h, beq_eq_false_iff_ne.mpr h]
    rfl

theorem find_change_of_ne (h : k' ≠ k) (f : Int → Int) : (t.change k f).find k' = t.find k' := by
  induction t with
  | nil => rfl
  | cons e t ih =>
    rw [Table.change, List.map_cons, find_cons, find_cons]
    by_cases he : e.1 = k
    · rw [if_pos he, if_neg (he ▸ h), if_neg (he ▸ h)]
      exact ih
    · rw [if_neg he]
      exact if_congr Iff.rfl rfl ih

theorem find_change (f : Int → Int) : (t.change k f).find k = (t.find k).map f := by
  induction t with
  | nil => rfl
  | cons e t ih =>
    rw [Table.change, List.map_cons, find_cons, find_cons]
    by_cases he : e.1 = k
    · rw [if_pos he, if_pos he.symm, if_pos he.symm]
      rfl
    · rw [if_neg he, if_neg (Ne.symm he), if_neg (Ne.symm he)]
      exact ih

theorem find_filter_of_ne (h : k' ≠ k) :
    Table.find (t.filter fun e => e.1 ≠ k) k' = t.find k' := by
  induction t with
  | nil => rfl
  | cons e t ih =>
    by_cases he : e.1 = k
    · rw [List.filter_cons_of_neg (by simp [he]), ih, find_cons, if_neg (he ▸ h)]
    · rw [List.filter_cons_of_pos (by simp [he]), find_cons, find_cons]
      exact if_congr Iff.rfl rfl ih

theorem find_filter_self : Table.find (t.filter fun e => e.1 ≠ k) k = none := by
  induction t with
  | nil => rfl
  | cons e t ih =>
    by_cases he : e.1 = k
    · rw [List.filter_cons_of_neg (by simp [he]), ih]
    · rw [List.filter_cons_of_pos (by simp [he]), find_cons, if_neg (Ne.symm he)]
      exact ih

theorem find_inc_of_ne (h : k' ≠ k) (alloc : Bool) : (t.inc k alloc).find k' = t.find k' := by
  rw [Table.inc]
  split
  · exact find_change_of_ne h _
  · split
    · rw [find_cons, if_neg h]
    · rfl

theorem find_inc : (t.inc k true).find k = some ((t.find k).getD 0 + 1) := by
  rw [Table.inc]
  cases hfind : t.find k with
  | some n => rw [find_change, hfind]; rfl
  | none =>
    rw [if_pos rfl, find_cons, if_pos rfl]
    rfl

/-- Memory is asked for only when there is no entry. -/
theorem inc_of_some (h : t.find k ≠ none) (alloc : Bool) : t.inc k alloc = t.inc k true := by
  obtain ⟨n, hn⟩ := Option.ne_none_iff_exists'.mp h
  rw [Table.inc, Table.inc, hn]

theorem find_dec_of_ne (h : k' ≠ k) : (t.dec k).find k' = t.find k' := by
  rw [Table.dec]
  split
  · rfl
  · split
    · exact find_filter_of_ne h
    · exact find_change_of_ne h _

/-- There is one less, and no entry for nothing. -/
theorem find_dec {n : Int} (h : t.find k = some n) :
    (t.dec k).find k = if n - 1 ≤ 0 then none else some (n - 1) := by
  rw [Table.dec, h]
  simp only
  split
  · exact find_filter_self
  · rw [find_change, h]
    rfl

end Find

/-! ## 2. Exact counts

Exactness is a statement about all keys at once: the table is the multiset of a list. A decrement
that is not for a key of the list breaks it, and this is proved too. -/

namespace Counts

variable {t : Table K} {ks : List K} {k : K}

theorem nil : Counts ([] : Table K) [] := fun _ => rfl

theorem perm {ks' : List K} (h : Counts t ks) (hp : ks.Perm ks') : Counts t ks' := by
  intro k
  rw [h k, hp.count_eq k]

/-- There is an entry for the keys of the list. -/
theorem find_eq_none (h : Counts t ks) : t.find k = none ↔ k ∉ ks := by
  rw [h k, ← List.count_eq_zero]
  split
  · next hz => exact iff_of_true rfl hz
  · next hz => exact iff_of_false (Option.some_ne_none _) hz

/-- **One more** is counted. -/
theorem inc (h : Counts t ks) : Counts (t.inc k true) (k :: ks) := by
  intro k'
  by_cases hk : k' = k
  · subst hk
    rw [find_inc, h k', List.count_cons_self, if_neg (Nat.succ_ne_zero _)]
    split
    · next hz => rw [hz]; rfl
    · rfl
  · rw [find_inc_of_ne hk, h k', List.count_cons_of_ne (Ne.symm hk)]

/-- **One less** is counted. -/
theorem dec (h : Counts t ks) (hk : k ∈ ks) : Counts (t.dec k) (ks.erase k) := by
  have hpos : ks.count k ≠ 0 := fun hz => List.count_eq_zero.mp hz hk
  intro k'
  by_cases hkk : k' = k
  · subst hkk
    rw [find_dec ((h k').trans (if_neg hpos)), List.count_erase_self]
    by_cases hone : ks.count k' - 1 = 0
    · rw [if_pos hone, if_pos (by omega)]
    · rw [if_neg hone, if_neg (by omega)]
      refine congrArg some ?_
      omega
  · rw [find_dec_of_ne hkk, h k', List.count_erase_of_ne hkk]

theorem dec_cons (h : Counts t (k :: ks)) : Counts (t.dec k) ks := by
  have hdec := h.dec List.mem_cons_self
  rwa [List.erase_cons_head] at hdec

theorem dec_of_notMem (h : Counts t ks) (hk : k ∉ ks) : t.dec k = t := by
  rw [Table.dec, h.find_eq_none.mpr hk]

/-- What is not in the list cannot be taken out of its entry: where one decrement too many is made,
the count is wrong from then on. -/
theorem not_dec (h : Counts t ks) (hk : k ∈ ks) : ¬ Counts (t.dec k) ks := by
  intro hdec
  have hpos : ks.count k ≠ 0 := fun hz => List.count_eq_zero.mp hz hk
  have hfind := (find_dec ((h k).trans (if_neg hpos))).symm.trans ((hdec k).trans (if_neg hpos))
  split at hfind
  · exact Option.some_ne_none _ hfind.symm
  · have hlt := Option.some.inj hfind
    omega

end Counts

end Tally
