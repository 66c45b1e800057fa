/-
# An index into lists

Every pointer has a list of keys, and an index leads from each key to the pointers that list it.
The index has one entry a key, made with the first pointer and freed with the last; a pointer goes
out of an entry by the last one taking its place.

`Mirrors ix row` says that the index is the lists read the other way: in the entry of a key stands
each pointer that lists the key, once, and no entry is empty.  An operation on one list keeps this
when the index follows it.
-/
import Mathlib.Data.List.Nodup
import Mathlib.Data.List.Perm.Basic
import Mathlib.Logic.Function.Basic

namespace Buckets

variable {K P : Type*} [DecidableEq K] [DecidableEq P]

/-- The pointers under a key. -/
structure Entry (K P : Type*) where
  key : K
  ptrs : List P

abbrev Index (K P : Type*) := List (Entry K P)

/-! ## 1. Taking a pointer out

A pointer goes out of an entry by the last one taking its place, so an entry is a list only up to
its order; everything below is stated of the pointers in it, or of permutations. -/

/-- The last pointer takes the place of the first `p`, as an array is kept dense without moving the
others. -/
def swapRemove (p : P) : List P → List P
  | [] => []
  | x :: xs =>
    if x = p then
      match xs.getLast? with
      | none => []
      | some l => l :: xs.dropLast
    else x :: swapRemove p xs

theorem perm_swapRemove (p : P) : ∀ xs : List P, (swapRemove p xs).Perm (xs.erase p)
  | [] => .nil
  | x :: xs => by
    rw [swapRemove]
    split
    · next h =>
      rw [h, List.erase_cons_head]
      cases hl : xs.getLast? with
      | none => rw [List.getLast?_eq_none_iff.mp hl]
      | some l =>
        have hxs : xs.dropLast ++ [l] = xs := List.dropLast_append_getLast? l hl
        have hperm : (l :: xs.dropLast).Perm (xs.dropLast ++ [l]) :=
          (List.perm_append_singleton l xs.dropLast).symm
        rwa [hxs] at hperm
    · next h =>
      rw [List.erase_cons_tail (by simpa using h)]
      exact (perm_swapRemove p xs).cons x

/-- The first `k` goes from a list of keys. -/
def strike (k : K) (l : List K) : List K := l.erase k

/-! ## 2. The index

The index is a list of entries. A key that nobody lists has no entry, which is what keeps the index
from growing with the names that were ever looked at. -/

namespace Index

/-- The entry of a key. -/
def entryOf (ix : Index K P) (k : K) : Option (Entry K P) := ix.find? fun e => e.key = k

/-- The pointers a key leads to. -/
def under (ix : Index K P) (k : K) : List P := (ix.entryOf k).elim [] Entry.ptrs

/-- The entry of a key gets another list. -/
def put (ix : Index K P) (k : K) (ps : List P) : Index K P :=
  ix.map fun e => if e.key = k then { e with ptrs := ps } else e

/-- `p` goes under `k`. -/
def add (ix : Index K P) (p : P) (k : K) : Index K P :=
  match ix.entryOf k with
  | none => ix ++ [⟨k, [p]⟩]
  | some e => if e.ptrs.contains p then ix else ix.put k (e.ptrs ++ [p])

/-- `p` goes from under `k`. -/
def del (ix : Index K P) (p : P) (k : K) : Index K P :=
  match ix.entryOf k with
  | none => ix
  | some e =>
    if (swapRemove p e.ptrs).isEmpty then ix.filter fun e => e.key ≠ k
    else ix.put k (swapRemove p e.ptrs)

/-- One entry a key, and something in each: an entry is made with its first pointer and freed with
its last. -/
structure Tidy (ix : Index K P) : Prop where
  once : (ix.map Entry.key).Nodup
  filled : ∀ e ∈ ix, e.ptrs ≠ []

variable {ix : Index K P} {p : P} {k k' : K}

omit [DecidableEq K] [DecidableEq P] in
theorem tidy_nil : Tidy ([] : Index K P) := ⟨List.nodup_nil, fun _ h => absurd h List.not_mem_nil⟩

omit [DecidableEq P] in
theorem entryOf_some {e : Entry K P} (h : ix.entryOf k = some e) : e ∈ ix ∧ e.key = k :=
  ⟨List.mem_of_find?_eq_some h, by simpa using List.find?_some h⟩

omit [DecidableEq P] in
theorem key_ne_of_none (h : ix.entryOf k = none) : ∀ e ∈ ix, e.key ≠ k := fun e he => by
  simpa using List.find?_eq_none.mp h e he

omit [DecidableEq P] in
theorem entryOf_put (ps : List P) : (ix.put k ps).entryOf k' =
    (ix.entryOf k').map fun e => if k' = k then { e with ptrs := ps } else e := by
  induction ix with
  | nil => rfl
  | cons e ix ih =>
    have hkey : (if e.key = k then { e with ptrs := ps } else e).key = e.key := by
      split <;> rfl
    rw [put, List.map_cons, entryOf, List.find?_cons, hkey, entryOf, List.find?_cons]
    by_cases he : e.key = k'
    · rw [decide_eq_true he]
      simp only [Option.map_some, he]
    · rw [decide_eq_false he]
      exact ih

omit [DecidableEq P] in
theorem under_put (h : (ix.entryOf k).isSome = true) (ps : List P) :
    (ix.put k ps).under k' = if k' = k then ps else ix.under k' := by
  rw [under, entryOf_put, under]
  by_cases hk : k' = k
  · obtain ⟨e, he⟩ := Option.isSome_iff_exists.mp h
    rw [hk, he, if_pos rfl]
    simp
  · simp [hk]

omit [DecidableEq P] in
theorem Tidy.put (h : ix.Tidy) {ps : List P} (hps : ps ≠ []) : (ix.put k ps).Tidy := by
  refine ⟨?_, fun e he => ?_⟩
  · have hkeys : (ix.put k ps).map Entry.key = ix.map Entry.key := by
      rw [Index.put, List.map_map]
      refine List.map_congr_left fun e _ => ?_
      simp only [Function.comp]
      split <;> rfl
    rw [hkeys]
    exact h.once
  · obtain ⟨e', he', rfl⟩ := List.mem_map.mp he
    split
    · exact hps
    · exact h.filled e' he'

omit [DecidableEq P] in
theorem Tidy.under_key (h : ix.Tidy) {e : Entry K P} (he : e ∈ ix) : ix.under e.key = e.ptrs := by
  cases hf : ix.entryOf e.key with
  | none => exact absurd rfl (key_ne_of_none hf e he)
  | some e' =>
    obtain ⟨he', hkey⟩ := entryOf_some hf
    rw [under, hf, List.inj_on_of_nodup_map h.once he' he hkey]
    rfl

/-! ## 3. One operation

What one operation does to what stands under each key. The proofs below use only these two lemmas
and never look at the entries. -/

/-- What is under the keys behind `add`. -/
theorem under_add : (ix.add p k).under k' =
    if k' = k ∧ p ∉ ix.under k then ix.under k ++ [p] else ix.under k' := by
  unfold add
  split
  · next hnone =>
    have hnil : ix.under k = [] := by rw [under, hnone]; rfl
    have hnew : (ix ++ [⟨k, [p]⟩] : Index K P).entryOf k' =
        (ix.entryOf k').or (if k = k' then some ⟨k, [p]⟩ else none) := by
      rw [entryOf, List.find?_append, entryOf, List.find?_singleton]
      simp only [decide_eq_true_eq]
    rw [hnil, under, hnew, under]
    by_cases hk : k' = k
    · rw [hk, hnone]
      simp
    · simp [hk, Ne.symm hk]
  · next e he =>
    have hunder : ix.under k = e.ptrs := by rw [under, he]; rfl
    rw [hunder]
    split
    · next hin => simp [List.contains_iff_mem.mp hin]
    · next hin =>
      have hout : p ∉ e.ptrs := fun hp => hin (List.contains_iff_mem.mpr hp)
      rw [under_put (by rw [he]; rfl)]
      simp [hout]

theorem Tidy.add (h : ix.Tidy) (p : P) (k : K) : (ix.add p k).Tidy := by
  unfold Index.add
  split
  · next hnone =>
    refine ⟨?_, fun e he => ?_⟩
    · rw [List.map_append, List.nodup_append]
      refine ⟨h.once, by simp, ?_⟩
      simp only [List.map_cons, List.map_nil, List.mem_singleton, List.mem_map]
      rintro _ ⟨e, he, rfl⟩ _ rfl
      exact key_ne_of_none hnone e he
    · rcases List.mem_append.mp he with he | he
      · exact h.filled e he
      · rw [List.mem_singleton.mp he]
        simp
  · split
    · exact h
    · exact h.put (by simp)

/-- What is under the keys behind `del`. -/
theorem under_del : ((ix.del p k).under k').Perm
    (if k' = k then (ix.under k).erase p else ix.under k') := by
  unfold del
  split
  · next hnone =>
    have hnil : ix.under k = [] := by rw [under, hnone]; rfl
    split
    · next hk => rw [hk, hnil]; rfl
    · rfl
  · next e he =>
    have hunder : ix.under k = e.ptrs := by rw [under, he]; rfl
    have hperm := perm_swapRemove p e.ptrs
    rw [hunder]
    split
    · next hempty =>
      have hnil : e.ptrs.erase p = [] := by
        rw [List.isEmpty_iff.mp hempty] at hperm
        exact hperm.nil_eq.symm
      have hfilter : under (ix.filter fun e => decide (e.key ≠ k)) k' =
          if k' = k then [] else ix.under k' := by
        rw [under, entryOf, List.find?_filter, under, entryOf]
        split
        · next hk =>
          rw [hk, List.find?_eq_none.mpr (by simp)]
          rfl
        · next hk =>
          congr 2
          funext e
          by_cases he : e.key = k'
          · simp [he, hk]
          · simp [he]
      rw [hfilter, hnil]
    · rw [under_put (by rw [he]; rfl)]
      split
      · exact hperm
      · rfl

theorem Tidy.del (h : ix.Tidy) (p : P) (k : K) : (ix.del p k).Tidy := by
  unfold Index.del
  split
  · exact h
  · split
    · refine ⟨?_, fun e he => h.filled e (List.mem_filter.mp he).1⟩
      exact h.once.sublist (List.filter_sublist.map _)
    · next hne => exact h.put (by simpa using hne)

end Index

/-! ## 4. The index and the lists

`row p` is the list of keys of `p`. The relation between the lists and the index is kept by each
operation that changes both. -/

/-- **The index is the lists read the other way.** Under a key stands exactly who lists it, once;
no list has a key twice, and no entry is left empty. -/
structure Mirrors (ix : Index K P) (row : P → List K) : Prop where
  tidy : ix.Tidy
  rows : ∀ p, (row p).Nodup
  count : ∀ p k, (ix.under k).count p = if k ∈ row p then 1 else 0

namespace Mirrors

variable {ix : Index K P} {row : P → List K}

theorem empty : Mirrors ([] : Index K P) fun _ => [] :=
  ⟨Index.tidy_nil, fun _ => List.nodup_nil, fun _ _ => by simp [Index.under, Index.entryOf]⟩

theorem mem_iff (h : Mirrors ix row) (p : P) (k : K) : p ∈ ix.under k ↔ k ∈ row p := by
  rw [← List.count_pos_iff, h.count]
  split <;> simp [*]

theorem add (h : Mirrors ix row) {p : P} {k : K} (hk : k ∉ row p) :
    Mirrors (ix.add p k) (Function.update row p (row p ++ [k])) where
  tidy := h.tidy.add p k
  rows := fun q => by
    by_cases hq : q = p
    · rw [hq, Function.update_self]
      exact List.nodup_append.mpr ⟨h.rows p, by simp, fun x hx y hy => by
      rw [List.mem_singleton.mp hy]
      rintro rfl
      exact hk hx⟩
    · rw [Function.update_of_ne hq]
      exact h.rows q
  count := fun q k' => by
    have hout : p ∉ ix.under k := fun hp => hk ((h.mem_iff p k).mp hp)
    rw [Index.under_add]
    by_cases hq : q = p
    · subst hq
      rw [Function.update_self]
      by_cases hk' : k' = k
      · rw [hk', if_pos ⟨rfl, hout⟩, List.count_append, h.count]
        simp [hk]
      · rw [if_neg fun hc => hk' hc.1, h.count]
        simp [hk']
    · rw [Function.update_of_ne hq]
      split
      · next hc => rw [List.count_append, h.count, hc.1, List.count_singleton]; simp [Ne.symm hq]
      · exact h.count q k'

theorem del (h : Mirrors ix row) (p : P) (k : K) :
    Mirrors (ix.del p k) (Function.update row p (strike k (row p))) where
  tidy := h.tidy.del p k
  rows := fun q => by
    by_cases hq : q = p
    · rw [hq, Function.update_self]
      exact (h.rows p).erase k
    · rw [Function.update_of_ne hq]
      exact h.rows q
  count := fun q k' => by
    rw [Index.under_del.count_eq]
    by_cases hq : q = p
    · subst hq
      rw [Function.update_self]
      by_cases hk' : k' = k
      · have hout : k ∉ strike k (row q) := (h.rows q).not_mem_erase
        rw [hk', if_pos rfl, List.count_erase_self, h.count, if_neg hout]
        split <;> rfl
      · have hin : k' ∈ strike k (row q) ↔ k' ∈ row q := List.mem_erase_of_ne hk'
        rw [if_neg hk', h.count]
        simp only [hin]
    · rw [Function.update_of_ne hq]
      split
      · next hk' => rw [hk', List.count_erase_of_ne hq, h.count]
      · exact h.count q k'

/-- Keys that go from a list, one after another. -/
theorem delAll (ks : List K) (p : P) : ∀ {ix : Index K P} {row : P → List K}, Mirrors ix row →
    Mirrors (ks.foldl (fun ix k => ix.del p k) ix) (Function.update row p ((row p).diff ks)) := by
  induction ks with
  | nil =>
    intro ix row h
    rw [List.diff_nil, Function.update_eq_self]
    exact h
  | cons k ks ih =>
    intro ix row h
    have := ih (h.del p k)
    rwa [Function.update_self, Function.update_idem, strike, ← List.diff_cons] at this

omit [DecidableEq P] in
theorem diff_self : ∀ ks : List K, ks.diff ks = []
  | [] => rfl
  | k :: ks => by rw [List.diff_cons, List.erase_cons_head, diff_self ks]

theorem clear (h : Mirrors ix row) (p : P) :
    Mirrors ((row p).foldl (fun ix k => ix.del p k) ix) (Function.update row p []) := by
  have := h.delAll (row p) p
  rwa [diff_self] at this

end Mirrors

end Buckets
