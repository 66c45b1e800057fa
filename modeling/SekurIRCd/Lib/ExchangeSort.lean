/-
# Sorting by exchange, and the top of a list

`sort` is the sort with two nested loops: each place in turn is compared with all behind it, and
exchanged with what is greater.  What comes out is in descending order (`desc_sort`).

Only the first few are wanted in the end.  If what does not fit has been left out before the list
is sorted, then the first few are those of the whole exactly if each one left out has that many
among the others that are at least as great (`top_iff`).
-/
import Mathlib.Data.List.Count
import Mathlib.Data.List.Perm.Basic
import Mathlib.Order.Lattice

namespace ExchangeSort

variable {α κ : Type*} [LinearOrder κ] (key : α → κ)

/-- One place is compared with all behind it: what stands there in the end, and what behind. -/
def pass (x : α) : List α → α × List α
  | [] => (x, [])
  | y :: ys =>
    if key x < key y then ((pass y ys).1, x :: (pass y ys).2)
    else ((pass x ys).1, y :: (pass x ys).2)

/-- The first `n` places in turn. -/
def sort : Nat → List α → List α
  | _, [] => []
  | 0, l => l
  | n + 1, x :: xs => (pass key x xs).1 :: sort n (pass key x xs).2

/-- The greatest first. -/
def Desc (l : List α) : Prop := l.Pairwise fun a b => key b ≤ key a

variable {key}

/-! ## 1. The sort

One pass leaves the greatest of what it compared in its place; after as many passes as there are
elements the list descends. The sort is not stable, and nothing below needs it to be. -/

theorem pass_perm (x : α) (l : List α) : ((pass key x l).1 :: (pass key x l).2).Perm (x :: l) := by
  induction l generalizing x with
  | nil => exact .refl _
  | cons y ys ih =>
    rw [pass]
    split
    · exact (List.Perm.swap ..).trans ((ih y).cons x)
    · exact (List.Perm.swap ..).trans (((ih x).cons y).trans (List.Perm.swap ..))

/-- What stands at the place in the end is the greatest. -/
theorem le_pass (x : α) (l : List α) : ∀ y ∈ x :: l, key y ≤ key (pass key x l).1 := by
  induction l generalizing x with
  | nil =>
    intro y hy
    rw [List.mem_singleton.mp hy]
    exact le_refl _
  | cons z zs ih =>
    intro y hy
    rw [pass]
    split
    · next hlt =>
      rcases List.mem_cons.mp hy with rfl | hy
      · exact hlt.le.trans (ih z z List.mem_cons_self)
      · exact ih z y hy
    · next hge =>
      rcases List.mem_cons.mp hy with rfl | hy
      · exact ih y y List.mem_cons_self
      · rcases List.mem_cons.mp hy with rfl | hy
        · exact (not_lt.mp hge).trans (ih x x List.mem_cons_self)
        · exact ih x y (List.mem_cons_of_mem x hy)

theorem sort_perm (n : Nat) (l : List α) : (sort key n l).Perm l := by
  induction n generalizing l with
  | zero => cases l <;> exact .refl _
  | succ n ih =>
    cases l with
    | nil => exact .refl _
    | cons x xs => exact ((ih _).cons _).trans (pass_perm x xs)

/-- **Descending.** -/
theorem desc_sort {n : Nat} {l : List α} (h : l.length ≤ n) : Desc key (sort key n l) := by
  induction n generalizing l with
  | zero =>
    rw [List.length_eq_zero_iff.mp (Nat.le_zero.mp h)]
    exact List.Pairwise.nil
  | succ n ih =>
    cases l with
    | nil => exact List.Pairwise.nil
    | cons x xs =>
      have hperm : ((pass key x xs).1 :: (pass key x xs).2).Perm (x :: xs) := pass_perm x xs
      have hlen := hperm.length_eq
      rw [List.length_cons, List.length_cons] at hlen
      rw [List.length_cons] at h
      refine List.Pairwise.cons (fun y hy => ?_) (ih (by omega))
      refine le_pass x xs y (hperm.mem_iff.mp (List.mem_cons_of_mem _ ?_))
      exact (sort_perm n _).mem_iff.mp hy

/-! ## 2. The first few

A table of fixed size is filled before it is sorted. Whether the first few of it are right is a
question about what was left out. -/

/-- If so many are that great, then the first so many are. -/
theorem Desc.le_of_mem_take {s : List α} (hs : Desc key s) {c : κ} {k : Nat}
    (hk : k ≤ s.countP fun y => decide (c ≤ key y)) : ∀ y ∈ s.take k, c ≤ key y := by
  induction s generalizing k with
  | nil => exact fun y hy => absurd hy (by simp)
  | cons a s ih =>
    obtain ⟨hhead, htail⟩ := List.pairwise_cons.mp hs
    cases k with
    | zero => exact fun y hy => absurd hy (by simp)
    | succ k =>
      have ha : c ≤ key a := by
        by_contra hlt
        have hnone : s.countP (fun y => decide (c ≤ key y)) = 0 := by
          refine List.countP_eq_zero.mpr fun y hy hc => ?_
          exact hlt ((of_decide_eq_true hc).trans (hhead y hy))
        rw [List.countP_cons_of_neg (by simpa using hlt), hnone] at hk
        omega
      rw [List.countP_cons_of_pos (by simpa using ha)] at hk
      intro y hy
      rw [List.take_succ_cons] at hy
      rcases List.mem_cons.mp hy with rfl | hy
      · exact ha
      · exact ih htail (by omega) y hy

/-- **The top of a part is the top of the whole** exactly if each that was left out has so many in
the part that are at least as great. Ties may be ordered either way, so `m` is any descending order
of the whole. -/
theorem top_iff {part out s : List α} {k : Nat} (hp : s.Perm part) (hs : Desc key s) :
    (∃ m, m.Perm (part ++ out) ∧ Desc key m ∧ m.take k = s.take k) ↔
      ∀ x ∈ out, k ≤ part.countP fun y => decide (key x ≤ key y) := by
  constructor
  · rintro ⟨m, hm, hdesc, htake⟩ x hx
    have hrest : (m.drop k).Perm (s.drop k ++ out) := by
      refine (List.perm_append_left_iff (s.take k)).mp ?_
      rw [← List.append_assoc, List.take_append_drop, ← htake, List.take_append_drop]
      exact hm.trans (hp.symm.append_right out)
    have hmem : x ∈ m.drop k := hrest.mem_iff.mpr (List.mem_append_right _ hx)
    have hsplit : Desc key (m.take k ++ m.drop k) := by rwa [List.take_append_drop]
    have hge : ∀ y ∈ s.take k, key x ≤ key y := fun y hy =>
      (List.pairwise_append.mp hsplit).2.2 y (htake ▸ hy) x hmem
    have hlen : (s.take k).length = k := by
      have hpos := List.length_pos_of_mem hmem
      rw [List.length_drop] at hpos
      rw [← htake, List.length_take]
      omega
    have hall : (s.take k).countP (fun y => decide (key x ≤ key y)) = k := by
      rw [List.countP_eq_length.mpr fun y hy => decide_eq_true (hge y hy), hlen]
    calc k = (s.take k).countP fun y => decide (key x ≤ key y) := hall.symm
      _ ≤ s.countP fun y => decide (key x ≤ key y) := (List.take_sublist k s).countP_le
      _ = part.countP fun y => decide (key x ≤ key y) := hp.countP_eq _
  · intro hout
    have hge : ∀ x ∈ out, ∀ y ∈ s.take k, key x ≤ key y := fun x hx =>
      hs.le_of_mem_take (by rw [hp.countP_eq]; exact hout x hx)
    have hsplit : Desc key (s.take k ++ s.drop k) := by rwa [List.take_append_drop]
    let rest := sort key (s.drop k ++ out).length (s.drop k ++ out)
    have hrest : rest.Perm (s.drop k ++ out) := sort_perm _ _
    refine ⟨s.take k ++ rest, ?_, ?_, ?_⟩
    · refine (hrest.append_left _).trans ?_
      rw [← List.append_assoc, List.take_append_drop]
      exact hp.append_right out
    · refine List.pairwise_append.mpr ⟨?_, desc_sort (Nat.le_refl _), fun y hy x hx => ?_⟩
      · exact (List.pairwise_append.mp hsplit).1
      · rcases List.mem_append.mp (hrest.mem_iff.mp hx) with hx | hx
        · exact (List.pairwise_append.mp hsplit).2.2 y hy x hx
        · exact hge x hx y hy
    · by_cases hk : k ≤ s.length
      · rw [List.take_append_of_le_length (by rw [List.length_take]; omega), List.take_take,
          Nat.min_self]
      · -- there are fewer than wanted, so nothing was left out
        have hnil : out = [] := by
          refine List.eq_nil_iff_forall_not_mem.mpr fun x hx => ?_
          have hcount := Nat.le_trans (hout x hx) List.countP_le_length
          rw [← hp.length_eq] at hcount
          exact hk hcount
        have hempty : rest = [] := by
          refine List.Perm.nil_eq ?_ |>.symm
          rw [hnil, List.drop_eq_nil_of_le (by omega)] at hrest
          exact hrest.symm
        rw [hempty, List.append_nil, List.take_take, Nat.min_self]

end ExchangeSort
