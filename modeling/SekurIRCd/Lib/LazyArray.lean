/-
# An array without a capacity field

A list of `n` entries in a heap block whose size is kept nowhere.  Before entry number `n` is
written, the block is taken to have room unless there is none or `n` is a power of two from
`start` on; it is then reallocated for `start` or for `2 * n` entries.  The count may go down at any
time, which leaves the block as it is, so the size is not a function of the count: a block may be
larger than its count says, and growing it may even make it smaller.

What does hold is `Roomy`: every power of two that lies below the count has been passed, and was
doubled when it was.  No operation reaches outside its block, and the block holds the list it
stands for (`Holds.run`).
-/
import Mathlib.Algebra.Order.Ring.Nat
import Mathlib.Data.List.Basic
import Mathlib.Data.Nat.Log

namespace LazyArray

variable {α : Type*} {start : Nat}

/-! ## 1. Blocks -/

/-- The cells of a block; one that was never written is `none`. -/
abbrev Block (α : Type*) := List (Option α)

/-- `realloc` to `m` cells: what both sizes have is kept. -/
def resize (b : Option (Block α)) (m : Nat) : Block α :=
  (b.getD []).take m ++ List.replicate (m - (b.getD []).length) none

/-- `memmove` of `m` cells down by one, onto cell `i`; `none` if that leaves the block. -/
def closeGap (b : Block α) (i m : Nat) : Option (Block α) :=
  if i + 1 + m ≤ b.length then some (b.take i ++ (b.drop (i + 1)).take m ++ b.drop (i + m))
  else none

@[simp] theorem length_resize (b : Option (Block α)) (m : Nat) : (resize b m).length = m := by
  simp only [resize, List.length_append, List.length_take, List.length_replicate]
  omega

theorem take_resize {b : Option (Block α)} {n m : Nat} (hn : n ≤ (b.getD []).length) (hm : n ≤ m) :
    (resize b m).take n = (b.getD []).take n := by
  rw [resize, List.take_append_of_le_length (by simp only [List.length_take]; omega),
    List.take_take, Nat.min_eq_left hm]

/-- Closing the gap at `i` in a block that holds `l` leaves `l` without entry `i`. -/
theorem closeGap_of_take {b : Block α} {l : List α} {i : Nat} (hi : i < l.length)
    (hb : b.take l.length = l.map some) :
    ∃ c, closeGap b i (l.length - i - 1) = some c ∧ c.length = b.length ∧
      c.take (l.length - 1) = (l.eraseIdx i).map some := by
  obtain ⟨r, hr⟩ : ∃ r, b = l.map some ++ r :=
    ⟨b.drop l.length, by rw [← hb, List.take_append_drop]⟩
  have hlen : b.length = l.length + r.length := by rw [hr, List.length_append, List.length_map]
  have hlow : b.take i = (l.take i).map some := by
    rw [hr, List.take_append_of_le_length (by rw [List.length_map]; omega), List.map_take]
  have hhigh : (b.drop (i + 1)).take (l.length - i - 1) = (l.drop (i + 1)).map some := by
    rw [hr, List.drop_append_of_le_length (by rw [List.length_map]; omega),
      List.take_append_of_le_length (by simp only [List.length_drop, List.length_map]; omega),
      List.map_drop,
      List.take_of_length_le (by simp only [List.length_drop, List.length_map]; omega)]
  refine ⟨_, if_pos (by omega), ?_, ?_⟩
  · simp only [List.length_append, List.length_take, List.length_drop]
    omega
  · rw [hlow, hhigh, ← List.map_append, ← List.eraseIdx_eq_take_drop_succ]
    rw [List.take_append_of_le_length (by rw [List.length_map, List.length_eraseIdx_of_lt hi])]
    rw [List.take_of_length_le (by rw [List.length_map, List.length_eraseIdx_of_lt hi])]

/-! ## 2. Room

Why a count at which nothing is allocated leaves room for one more: the last power of two below it
was passed, and doubled. -/

/-- `n &&& (n - 1)` is 0 exactly at the powers of two. -/
theorem and_pred_eq_zero {n : Nat} (hn : 0 < n) : n &&& (n - 1) = 0 ↔ ∃ k, n = 2 ^ k :=
  Nat.and_sub_one_eq_zero_iff_isPowerOfTwo (Nat.pos_iff_ne_zero.mp hn)

/-- What the size of a block is known to be from the number of its entries. The block may be
larger, when the count went down after it had grown. -/
structure Roomy (start n cap : Nat) : Prop where
  least : start ≤ cap
  twice : ∀ k, start ≤ 2 ^ k → 2 ^ k < n → 2 * 2 ^ k ≤ cap

namespace Roomy

theorem mono {n m cap : Nat} (h : Roomy start n cap) (hm : m ≤ n) : Roomy start m cap :=
  ⟨h.least, fun k hk hlt => h.twice k hk (hlt.trans_le hm)⟩

/-- Between two powers of two the lower one was doubled. -/
theorem lt_of_not_two_pow {n cap : Nat} (hs : ∃ k, start = 2 ^ k) (h : Roomy start n cap)
    (hn : start ≤ n) (hpow : ¬ ∃ k, n = 2 ^ k) : n < cap := by
  obtain ⟨s, rfl⟩ := hs
  have hpos : n ≠ 0 := by have := Nat.two_pow_pos s; omega
  have hlow : 2 ^ Nat.log 2 n ≤ n := Nat.pow_log_le_self 2 hpos
  have hhigh : n < 2 ^ (Nat.log 2 n + 1) := Nat.lt_pow_succ_log_self (by decide) n
  have hstart : 2 ^ s ≤ 2 ^ Nat.log 2 n :=
    Nat.pow_le_pow_right (by decide) (Nat.le_log_of_pow_le (by decide) hn)
  have hne : 2 ^ Nat.log 2 n ≠ n := fun e => hpow ⟨_, e.symm⟩
  have := h.twice _ hstart (by omega)
  rw [Nat.pow_succ] at hhigh
  omega

/-- A count at which nothing is allocated leaves room for one more. -/
theorem room {n cap : Nat} (hs : ∃ k, start = 2 ^ k) (h : Roomy start n cap)
    (hn : n < start ∨ n &&& (n - 1) ≠ 0) : n < cap ∧ Roomy start (n + 1) cap := by
  by_cases hlow : n < start
  · refine ⟨hlow.trans_le h.least, h.least, fun k hk hlt => ?_⟩
    omega
  · have hstart : 0 < start := by obtain ⟨k, rfl⟩ := hs; exact Nat.two_pow_pos k
    have hpow : ¬ ∃ k, n = 2 ^ k := by
      rw [← and_pred_eq_zero (by omega)]
      exact hn.resolve_left hlow
    refine ⟨h.lt_of_not_two_pow hs (by omega) hpow, h.least, fun k hk hlt => ?_⟩
    have hne : 2 ^ k ≠ n := fun e => hpow ⟨k, e.symm⟩
    exact h.twice k hk (by omega)

/-- A count at which the block is reallocated leaves room in the new one. -/
theorem grown (hs : 0 < start) (n : Nat) :
    n < (if n < start then start else n * 2) ∧
      Roomy start (n + 1) (if n < start then start else n * 2) := by
  split
  · rename_i hlow
    exact ⟨hlow, le_refl _, fun k hk hlt => by omega⟩
  · exact ⟨by omega, by omega, fun k _ hlt => by omega⟩

end Roomy

/-! ## 3. Lists in blocks

The list that a block stands for. An access outside the block, or to a cell that was never written,
is `none`, and each operation on a block that holds a list is shown to be `some`. -/

/-- A list as it is kept: its block, if it has one, and how many entries there are. The size of the
block is kept nowhere. -/
structure Kept (α : Type*) where
  block : Option (Block α)
  n : Nat

/-- The block for entry number `n`; `mem` says whether memory can be had. -/
def grow (start : Nat) (b : Option (Block α)) (n : Nat) (mem : Bool) : Option (Block α) :=
  if b.isSome ∧ (n < start ∨ n &&& (n - 1) ≠ 0) then b
  else if mem then some (resize b (if n < start then start else n * 2)) else none

/-- An emptied list gives its block back. -/
def idle (b : Option (Block α)) (n : Nat) : Option (Block α) := if n > 0 then b else none

namespace Kept

def empty : Kept α := ⟨none, 0⟩

/-- The entries, or `none` if one lies outside the block or was never written. -/
def entries (k : Kept α) : Option (List α) :=
  if k.n ≤ (k.block.getD []).length then ((k.block.getD []).take k.n).mapM id else none

/-- Write entry number `n`.  Without memory the list stays as it was. -/
def append (start : Nat) (k : Kept α) (a : α) (mem : Bool) : Option (Kept α) :=
  match grow start k.block k.n mem with
  | none => some k
  | some b => if k.n < b.length then some ⟨some (b.set k.n (some a)), k.n + 1⟩ else none

/-- Move the `m` entries after `i` down, and count one less. -/
def shift (k : Kept α) (i m : Nat) : Option (Kept α) := do
  let b ← closeGap (k.block.getD []) i m
  some ⟨some b, k.n - 1⟩

/-- Take out entry `i`. -/
def removeAt (k : Kept α) (i : Nat) : Option (Kept α) := k.shift i (k.n - i - 1)

/-- Forget the entries and keep the block. -/
def clear (k : Kept α) : Kept α := ⟨k.block, 0⟩

def settle (k : Kept α) : Kept α := ⟨idle k.block k.n, k.n⟩

/-- `k` stands for the list `l`: they have the same count, its cells are the entries, and its size
is what `Roomy` says. -/
structure Holds (start : Nat) (k : Kept α) (l : List α) : Prop where
  count : k.n = l.length
  cells : (k.block.getD []).take l.length = l.map some
  room : ∀ b, k.block = some b → Roomy start l.length b.length

theorem mapM_some : ∀ l : List α, (l.map some).mapM id = some l
  | [] => rfl
  | a :: l => by rw [List.map_cons, List.mapM_cons, mapM_some l]; rfl

namespace Holds

variable {k : Kept α} {l : List α}

theorem empty : Holds start (Kept.empty : Kept α) [] := ⟨rfl, rfl, nofun⟩

theorem le (h : Holds start k l) : l.length ≤ (k.block.getD []).length := by
  have := congrArg List.length h.cells
  rw [List.length_take, List.length_map] at this
  omega

theorem entries (h : Holds start k l) : k.entries = some l := by
  rw [Kept.entries, if_pos (h.count ▸ h.le), h.count, h.cells, mapM_some]

theorem clear (h : Holds start k l) : Holds start k.clear [] :=
  ⟨rfl, rfl, fun b hb => (h.room b hb).mono (Nat.zero_le _)⟩

theorem settle (h : Holds start k l) : Holds start k.settle l := by
  cases l with
  | nil =>
    have hn : k.n = 0 := h.count
    refine ⟨h.count, rfl, fun b hb => ?_⟩
    simp [Kept.settle, idle, hn] at hb
  | cons a l =>
    have hpos : k.n > 0 := by
      rw [h.count]
      exact Nat.succ_pos _
    have hsame : k.settle = k := by rw [Kept.settle, idle, if_pos hpos]
    rw [hsame]
    exact h

/-- The block an entry is written to has room for it, and holds the entries before. -/
theorem grow (hs : ∃ k, start = 2 ^ k) (h : Holds start k l) (mem : Bool) {b : Block α}
    (hb : LazyArray.grow start k.block k.n mem = some b) :
    b.take l.length = l.map some ∧ l.length < b.length ∧ Roomy start (l.length + 1) b.length := by
  unfold LazyArray.grow at hb
  rw [h.count] at hb
  split at hb
  · rename_i hkeep
    obtain ⟨hlt, hroomy⟩ := (h.room b hb).room hs hkeep.2
    have hcells := h.cells
    rw [hb] at hcells
    exact ⟨hcells, hlt, hroomy⟩
  · split at hb
    · obtain rfl := Option.some.inj hb
      have hpos : 0 < start := by obtain ⟨s, rfl⟩ := hs; exact Nat.two_pow_pos s
      obtain ⟨hlt, hroomy⟩ := Roomy.grown hpos l.length
      rw [length_resize, take_resize h.le hlt.le]
      exact ⟨h.cells, hlt, hroomy⟩
    · cases hb

/-- An entry is written inside the block.  It is left out only for want of memory. -/
theorem append (hs : ∃ k, start = 2 ^ k) (h : Holds start k l) (a : α) (mem : Bool) :
    ∃ m, k.append start a mem = some m ∧
      (Holds start m (l ++ [a]) ∨ mem = false ∧ m = k) := by
  unfold Kept.append
  split
  · rename_i hnone
    refine ⟨k, rfl, .inr ⟨?_, rfl⟩⟩
    unfold LazyArray.grow at hnone
    split at hnone
    · rename_i hkeep
      rw [hnone] at hkeep
      exact absurd hkeep.1 (by simp)
    · cases mem with
      | true => cases hnone
      | false => rfl
  · rename_i b hb
    obtain ⟨hcells, hlt, hroomy⟩ := h.grow hs mem hb
    rw [h.count, if_pos hlt]
    refine ⟨_, rfl, .inl ⟨?_, ?_, ?_⟩⟩
    · rw [List.length_append, List.length_singleton]
    · have hset : (b.set l.length (some a)).take (l.length + 1) = b.take l.length ++ [some a] := by
        rw [List.take_add_one, List.take_set_of_le (le_refl _), List.getElem?_set_self hlt]
        rfl
      rw [Option.getD_some, List.length_append, List.length_singleton, hset, hcells,
        List.map_append]
      rfl
    · rintro c hc
      obtain rfl := Option.some.inj hc
      rwa [List.length_set, List.length_append, List.length_singleton]

theorem removeAt (h : Holds start k l) {i : Nat} (hi : i < l.length) :
    ∃ m, k.removeAt i = some m ∧ Holds start m (l.eraseIdx i) := by
  obtain ⟨c, hc, hlen, hcells⟩ := closeGap_of_take hi h.cells
  refine ⟨⟨some c, k.n - 1⟩, ?_, ?_, ?_, ?_⟩
  · rw [Kept.removeAt, shift, h.count, hc]
    rfl
  · rw [List.length_eraseIdx_of_lt hi, h.count]
  · rw [Option.getD_some, List.length_eraseIdx_of_lt hi, hcells]
  · intro b hb
    obtain rfl := Option.some.inj hb
    have hblock : ∃ b₀, k.block = some b₀ := by
      refine Option.ne_none_iff_exists'.mp fun hnone => ?_
      have := h.le
      rw [hnone, Option.getD_none, List.length_nil] at this
      omega
    obtain ⟨b₀, hb₀⟩ := hblock
    have hroomy := h.room b₀ hb₀
    rw [hb₀, Option.getD_some] at hlen
    rw [hlen, List.length_eraseIdx_of_lt hi]
    exact hroomy.mono (Nat.sub_le _ _)

end Holds

end Kept

/-! ## 4. Runs

What one operation keeps, a run keeps. Where memory runs out an entry is left out, and the list
goes on without it. -/

/-- What is done to a list: an entry at its end, one taken out with what follows an emptied list,
all forgotten. -/
inductive Op (α : Type*)
  | append (a : α) (mem : Bool)
  | remove (p : α → Bool)
  | clear
  | settle

/-- `none` stands for an access outside the block. -/
def Kept.step (start : Nat) (k : Kept α) : Op α → Option (Kept α)
  | .append a mem => k.append start a mem
  | .remove p => do
    let l ← k.entries
    match l.findIdx? p with
    | some i => k.removeAt i
    | none => some k
  | .clear => some k.clear
  | .settle => some k.settle

/-- The same on a plain list. -/
def Op.on (l : List α) : Op α → List α
  | .append a _ => l ++ [a]
  | .remove p => l.eraseP p
  | .clear => []
  | .settle => l

/-- No allocation fails in it. -/
def Op.served : Op α → Prop
  | .append _ mem => mem = true
  | _ => True

namespace Kept.Holds

variable {k : Kept α} {l : List α}

theorem remove (h : Holds start k l) (p : α → Bool) :
    ∃ m, k.step start (.remove p) = some m ∧ Holds start m (l.eraseP p) := by
  simp only [Kept.step, h.entries, Option.bind_eq_bind, Option.bind_some]
  rw [List.eraseP_eq_eraseIdx]
  cases hfind : l.findIdx? p with
  | none => exact ⟨k, rfl, h⟩
  | some i => exact h.removeAt (List.findIdx?_eq_some_iff_getElem.mp hfind).1

theorem step (hs : ∃ k, start = 2 ^ k) (h : Holds start k l) (op : Op α) :
    ∃ m, k.step start op = some m ∧
      (Holds start m (op.on l) ∨ ¬ op.served ∧ m = k) := by
  cases op with
  | append a mem =>
    obtain ⟨m, hm, hor⟩ := h.append hs a mem
    refine ⟨m, hm, hor.imp_right fun ⟨hmem, hk⟩ => ⟨?_, hk⟩⟩
    rw [Op.served, hmem]
    decide
  | remove p =>
    obtain ⟨m, hm, hheld⟩ := h.remove p
    exact ⟨m, hm, .inl hheld⟩
  | clear => exact ⟨_, rfl, .inl h.clear⟩
  | settle => exact ⟨_, rfl, .inl h.settle⟩

/-- A run stays inside the block, and where memory never ran out holds what a plain list would. -/
theorem run (hs : ∃ k, start = 2 ^ k) (ops : List (Op α)) {k : Kept α} {l : List α}
    (h : Holds start k l) :
    ∃ m l', ops.foldlM (Kept.step start) k = some m ∧ Holds start m l' ∧
      ((∀ op ∈ ops, op.served) → l' = ops.foldl Op.on l) := by
  induction ops generalizing k l with
  | nil => exact ⟨k, l, rfl, h, fun _ => rfl⟩
  | cons op ops ih =>
    obtain ⟨m, hm, hor⟩ := h.step hs op
    rw [List.foldlM_cons, hm]
    rcases hor with hheld | ⟨hserved, rfl⟩
    · obtain ⟨m', l', hrun, hheld', hsame⟩ := ih hheld
      exact ⟨m', l', hrun, hheld', fun hall => hsame fun o ho => hall o (.tail _ ho)⟩
    · obtain ⟨m', l', hrun, hheld', -⟩ := ih h
      exact ⟨m', l', hrun, hheld', fun hall => absurd (hall op (.head _)) hserved⟩

end Kept.Holds

end LazyArray
