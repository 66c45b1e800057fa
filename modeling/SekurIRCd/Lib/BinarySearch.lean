/-
# Searching a sorted list by halves

`search` looks at the middle of a list, and then only at the half in which the key must be.  On a
list whose keys ascend it finds the element of that key, if there is one (`search_eq_some_iff`),
and it looks no more often than the length has binary digits.
-/
import Mathlib.Algebra.Group.Nat.Defs
import Mathlib.Data.List.Sort

namespace BinarySearch

variable {α κ : Type*} [LinearOrder κ] (key : α → κ) (k : κ)

/-- `bsearch` of the C library, with at most `n` looks. It compares with the element in the middle
and goes on in the half in front of it or behind it, so nothing but the order of the keys can make
it find an element. -/
def search : Nat → List α → Option α
  | 0, _ => none
  | n + 1, l =>
    match l.drop (l.length / 2) with
    | [] => none
    | m :: above =>
      match compare k (key m) with
      | .lt => search n (l.take (l.length / 2))
      | .gt => search n above
      | .eq => some m

variable {key k}

/-- **By halves**: the element of that key is found, if there is one. What is left of the list has
fewer than `2 ^ n` elements after each look, so a list that ascends is searched to the end. -/
theorem search_eq_some_iff {n : Nat} {l : List α} (hl : l.Pairwise fun a b => key a < key b)
    (hn : l.length < 2 ^ n) {x : α} : search key k n l = some x ↔ x ∈ l ∧ key x = k := by
  induction n generalizing l with
  | zero =>
    have hnil : l = [] := List.length_eq_zero_iff.mp (by omega)
    rw [hnil, search]
    exact iff_of_false nofun fun h => absurd h.1 List.not_mem_nil
  | succ n ih =>
    rw [Nat.pow_succ] at hn
    have hsplit : l.take (l.length / 2) ++ l.drop (l.length / 2) = l := List.take_append_drop ..
    have hbelow : (l.take (l.length / 2)).length < 2 ^ n := by
      rw [List.length_take]
      omega
    have hdrop : (l.drop (l.length / 2)).length = l.length - l.length / 2 := List.length_drop
    rw [search]
    split
    · next hnil =>
      rw [hnil, List.length_nil] at hdrop
      have hempty : l = [] := List.length_eq_zero_iff.mp (by omega)
      rw [hempty]
      exact iff_of_false nofun fun h => absurd h.1 List.not_mem_nil
    · next m above hcons =>
      rw [hcons] at hsplit
      rw [hcons, List.length_cons] at hdrop
      rw [← hsplit] at hl
      obtain ⟨hltake, hlcons, hcross⟩ := List.pairwise_append.mp hl
      obtain ⟨hm, habove⟩ := List.pairwise_cons.mp hlcons
      have hmem : x ∈ l ↔ x ∈ l.take (l.length / 2) ∨ x = m ∨ x ∈ above := by
        conv_lhs => rw [← hsplit]
        rw [List.mem_append, List.mem_cons]
      have hlow : x ∈ l.take (l.length / 2) → key x < key m := fun hx =>
        hcross x hx m List.mem_cons_self
      rw [hmem]
      split
      · next hcmp =>
        have hlt : k < key m := compare_lt_iff_lt.mp hcmp
        rw [ih hltake hbelow]
        refine and_congr_left fun hx => ⟨.inl, ?_⟩
        rintro (h | rfl | h)
        · exact h
        · exact absurd hx hlt.ne'
        · exact absurd hx (hlt.trans (hm x h)).ne'
      · next hcmp =>
        have hgt : key m < k := compare_gt_iff_gt.mp hcmp
        rw [ih habove (by omega)]
        refine and_congr_left fun hx => ⟨fun h => .inr (.inr h), ?_⟩
        rintro (h | rfl | h)
        · exact absurd hx ((hlow h).trans hgt).ne
        · exact absurd hx hgt.ne
        · exact h
      · next hcmp =>
        have heq : k = key m := compare_eq_iff_eq.mp hcmp
        rw [Option.some.injEq]
        constructor
        · rintro rfl
          exact ⟨.inr (.inl rfl), heq.symm⟩
        · rintro ⟨h | h | h, hx⟩
          · exact absurd (hx.trans heq) (hlow h).ne
          · exact h.symm
          · exact absurd (heq.symm.trans hx.symm) (hm x h).ne

/-- Sorting what has no key twice makes the keys ascend. -/
theorem ascends_insertionSort [DecidableLE κ] {l : List α} (h : (l.map key).Nodup) :
    (l.insertionSort fun a b => key a ≤ key b).Pairwise fun a b => key a < key b := by
  have hperm := List.perm_insertionSort (fun a b => key a ≤ key b) l
  have hnodup : ((l.insertionSort fun a b => key a ≤ key b).map key).Nodup :=
    ((hperm.map key).nodup_iff).mpr h
  have : Std.Total fun a b : α => key a ≤ key b := ⟨fun a b => le_total (key a) (key b)⟩
  have : IsTrans α fun a b => key a ≤ key b := ⟨fun _ _ _ => le_trans⟩
  have hle := List.pairwise_insertionSort (fun a b => key a ≤ key b) l
  refine (hle.and (List.pairwise_map.mp hnodup)).imp fun ⟨h1, h2⟩ => lt_of_le_of_ne h1 h2

end BinarySearch
