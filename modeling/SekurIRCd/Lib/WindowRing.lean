/-
# A ring of recent times

Times are recorded as they come in a ring of `size` slots.  When it is full the oldest is
overwritten, and with every time those before a cut are given up.

The ring forgets times that a list without a bound would keep.  Still it is full exactly when at
least `size` of all the times are not before the cut (`Recent.count_eq_size_iff`): as long as it has
room, what it has forgotten is before the cut.
-/
import Mathlib.Data.Nat.ModEq
import Mathlib.Order.Lattice
import Mathlib.Data.List.Pairwise
import Mathlib.Data.List.TakeWhile
import Mathlib.Logic.Function.Basic

namespace WindowRing

/-! ## 1. The ring -/

/-- The `count` slots from `head` on are used. -/
structure Ring (T : Type*) (size : Nat) where
  slots : Nat → T
  head : Nat
  count : Nat
  head_lt : head < size
  count_le : count ≤ size

namespace Ring

variable {T : Type*} {size : Nat}

/-- What the ring holds, oldest first. -/
def contents (r : Ring T size) : List T :=
  (List.range r.count).map fun i => r.slots ((r.head + i) % size)

/-- A time takes the next slot, or that of the oldest. -/
def push (r : Ring T size) (now : T) : Ring T size :=
  if h : r.count < size then
    { r with
      slots := Function.update r.slots ((r.head + r.count) % size) now
      count := r.count + 1
      count_le := h }
  else
    { r with
      slots := Function.update r.slots r.head now
      head := (r.head + 1) % size
      head_lt := Nat.mod_lt _ (Nat.zero_lt_of_lt r.head_lt) }

/-- The oldest is given up. -/
def pop (r : Ring T size) : Ring T size :=
  { r with
    head := (r.head + 1) % size
    count := r.count - 1
    head_lt := Nat.mod_lt _ (Nat.zero_lt_of_lt r.head_lt)
    count_le := (Nat.sub_le ..).trans r.count_le }

variable [LinearOrder T]

/-- Those before the cut are given up, from the oldest on. -/
def expire (r : Ring T size) (cut : T) : Ring T size :=
  if 0 < r.count ∧ r.slots r.head < cut then r.pop.expire cut else r
termination_by r.count
decreasing_by
  simp only [pop]
  omega

/-- A time is recorded, and those before the cut are given up. -/
def record (r : Ring T size) (now cut : T) : Ring T size := (r.push now).expire cut

/-! ## 2. What it holds -/

omit [LinearOrder T] in
@[simp] theorem length_contents (r : Ring T size) : r.contents.length = r.count := by
  simp [contents]

omit [LinearOrder T] in
@[simp] theorem count_pop (r : Ring T size) : r.pop.count = r.count - 1 := rfl

omit [LinearOrder T] in
theorem contents_pop {r : Ring T size} (h : 0 < r.count) :
    r.contents = r.slots r.head :: r.pop.contents := by
  obtain ⟨c, hc⟩ := Nat.exists_eq_succ_of_ne_zero h.ne'
  have hcount : r.pop.count = c := by
    rw [count_pop]
    omega
  rw [contents, contents, hcount, hc, List.range_succ_eq_map, List.map_cons, List.map_map,
    Nat.add_zero, Nat.mod_eq_of_lt r.head_lt]
  refine congrArg (r.slots r.head :: ·) (List.map_congr_left fun i _ => ?_)
  have hnext : (r.head + (i + 1)) % size = ((r.head + 1) % size + i) % size := by
    rw [Nat.mod_add_mod]
    congr 1
    omega
  exact congrArg r.slots hnext

/-- Two slots that are less than a round apart differ. -/
theorem slot_inj {h i j : Nat} (hi : i < size) (hj : j < size)
    (heq : (h + i) % size = (h + j) % size) : i = j :=
  (Nat.ModEq.add_left_cancel' h heq).eq_of_lt_of_lt hi hj

omit [LinearOrder T] in
theorem contents_push (r : Ring T size) (now : T) :
    (r.push now).contents = (if r.count < size then r.contents else r.contents.tail) ++ [now] := by
  unfold push
  split
  next hroom =>
    simp only [contents, List.range_succ, List.map_append, List.map_singleton,
      Function.update_self]
    refine congrArg (· ++ [now]) (List.map_congr_left fun i hi => ?_)
    have hic := List.mem_range.mp hi
    refine Function.update_of_ne (fun heq => ?_) ..
    exact absurd (slot_inj (by omega) hroom heq) (by omega)
  next hfull =>
    have hsize : r.count = size := le_antisymm r.count_le (Nat.le_of_not_lt hfull)
    obtain ⟨c, hc⟩ := Nat.exists_eq_succ_of_ne_zero (Nat.zero_lt_of_lt r.head_lt).ne'
    have htail : r.contents.tail = r.pop.contents := by
      rw [contents_pop (by omega), List.tail_cons]
    have hpop : r.pop.count = c := by
      rw [count_pop]
      omega
    have hlast : ((r.head + 1) % size + c) % size = r.head := by
      rw [Nat.mod_add_mod, show r.head + 1 + c = r.head + size by omega, Nat.add_mod_right,
        Nat.mod_eq_of_lt r.head_lt]
    rw [htail, contents, contents, hpop]
    simp only [show r.count = c + 1 by omega, List.range_succ, List.map_append,
      List.map_singleton]
    rw [hlast, Function.update_self]
    refine congrArg (· ++ [now]) (List.map_congr_left fun i hi => ?_)
    have hic : i < c := List.mem_range.mp hi
    refine Function.update_of_ne (fun heq => ?_) ..
    have hround : (r.head + 1 + i) % size = (r.head + 1 + c) % size := by
      rw [← Nat.mod_add_mod, ← Nat.mod_add_mod (r.head + 1) size c, hlast]
      exact heq
    exact absurd (slot_inj (by omega) (by omega) hround) (by omega)

theorem contents_expire (r : Ring T size) (cut : T) :
    (r.expire cut).contents = r.contents.dropWhile (· < cut) := by
  induction r using expire.induct cut with
  | case1 r h ih =>
    rw [expire, if_pos h, ih, contents_pop h.1, List.dropWhile_cons_of_pos (by simpa using h.2)]
  | case2 r h =>
    rw [expire, if_neg h]
    rcases Nat.eq_zero_or_pos r.count with hzero | hpos
    · rw [List.eq_nil_of_length_eq_zero ((length_contents r).trans hzero), List.dropWhile_nil]
    · have hslot : ¬ r.slots r.head < cut := fun hlt => h ⟨hpos, hlt⟩
      rw [contents_pop hpos, List.dropWhile_cons_of_neg (by simpa using hslot)]

/-! ## 3. What it has forgotten

Times come in order, so what is overwritten is the oldest of all that are held. When that happens
the ring is full, and a full ring is all that a caller asks about. -/

/-- The ring holds the last of the times. As long as it has room, what it has forgotten is before
the cut. -/
def Recent (r : Ring T size) (ts : List T) (cut : T) : Prop :=
  ∃ old, ts = old ++ r.contents ∧ (r.count < size → ∀ t ∈ old, t < cut)

theorem recent_empty {slots : Nat → T} {head : Nat} {hlt : head < size} {hle : 0 ≤ size} (cut : T) :
    (⟨slots, head, 0, hlt, hle⟩ : Ring T size).Recent [] cut :=
  ⟨[], rfl, fun _ _ ht => absurd ht List.not_mem_nil⟩

theorem dropWhile_le {l : List T} (hl : l.Pairwise (· ≤ ·)) (cut : T) :
    ∀ t ∈ l.dropWhile (· < cut), cut ≤ t := by
  induction l with
  | nil => exact fun _ ht => absurd ht List.not_mem_nil
  | cons x l ih =>
    obtain ⟨hx, hrest⟩ := List.pairwise_cons.mp hl
    by_cases hlt : x < cut
    · rw [List.dropWhile_cons_of_pos (by simpa using hlt)]
      exact ih hrest
    · rw [List.dropWhile_cons_of_neg (by simpa using hlt)]
      intro t ht
      rcases List.mem_cons.mp ht with rfl | ht
      · exact not_lt.mp hlt
      · exact (not_lt.mp hlt).trans (hx t ht)

variable {r : Ring T size} {ts : List T} {now cut cut' : T}

theorem Recent.record (h : r.Recent ts cut) (hle : cut ≤ cut')
    (hsorted : (ts ++ [now]).Pairwise (· ≤ ·)) :
    (r.record now cut').Recent (ts ++ [now]) cut' := by
  obtain ⟨old, rfl, hold⟩ := h
  have hheld := contents_push r now
  have hgiven : ∀ t ∈ (r.push now).contents.takeWhile (· < cut'), t < cut' := fun t ht => by
    simpa using List.mem_takeWhile_imp ht
  have hsplit := List.takeWhile_append_dropWhile (p := (· < cut')) (l := (r.push now).contents)
  rw [Ring.record, Recent, contents_expire]
  split at hheld
  next hroom =>
    refine ⟨old ++ (r.push now).contents.takeWhile (· < cut'), ?_, fun _ t ht => ?_⟩
    · rw [List.append_assoc, List.append_assoc, hsplit, hheld]
    · rcases List.mem_append.mp ht with ht | ht
      · exact (hold hroom t ht).trans_le hle
      · exact hgiven t ht
  next hfull =>
    have hsize : r.count = size := le_antisymm r.count_le (Nat.le_of_not_lt hfull)
    have hpos : 0 < r.count := (Nat.zero_lt_of_lt r.head_lt).trans_eq hsize.symm
    have hcontents := contents_pop hpos
    rw [hcontents, List.tail_cons] at hheld
    have hall : (old ++ r.contents) ++ [now] =
        (old ++ [r.slots r.head]) ++ (r.push now).contents := by
      rw [hheld, hcontents]
      simp
    refine ⟨(old ++ [r.slots r.head]) ++ (r.push now).contents.takeWhile (· < cut'), ?_,
      fun hroom t ht => ?_⟩
    · rw [hall, List.append_assoc _ _ (List.dropWhile ..), hsplit]
    · -- something was given up, and what was overwritten before is not later
      have hne : (r.push now).contents.takeWhile (· < cut') ≠ [] := by
        intro hnil
        rw [hnil, List.nil_append] at hsplit
        have hlen := congrArg List.length (contents_expire (r.push now) cut')
        rw [hsplit, length_contents, hheld, List.length_append, List.length_singleton, pop,
          length_contents] at hlen
        simp only at hlen
        omega
      obtain ⟨x, hx⟩ := List.exists_mem_of_ne_nil _ hne
      rcases List.mem_append.mp ht with ht | ht
      · rw [hall, List.pairwise_append] at hsorted
        exact (hsorted.2.2 t ht x (List.takeWhile_sublist _ |>.mem hx)).trans_lt (hgiven x hx)
      · exact hgiven t ht

/-- **The ring is full** exactly when enough of all the times are not before the cut: a limit that
is checked by the ring is the limit on the unbounded list. -/
theorem Recent.count_eq_size_iff (h : r.Recent ts cut) (hcut : ∀ t ∈ r.contents, cut ≤ t) :
    r.count = size ↔ size ≤ ts.countP (cut ≤ ·) := by
  obtain ⟨old, rfl, hold⟩ := h
  have hheld : r.contents.countP (cut ≤ ·) = r.count := by
    rw [List.countP_eq_length.mpr fun t ht => by simpa using hcut t ht, length_contents]
  rw [List.countP_append, hheld]
  constructor
  · intro hfull
    omega
  · intro hle
    by_contra hne
    have hroom : r.count < size := lt_of_le_of_ne r.count_le hne
    have hnone : old.countP (cut ≤ ·) = 0 :=
      List.countP_eq_zero.mpr fun t ht => by simpa using hold hroom t ht
    omega

/-- What is held after a time was recorded is not before the cut. -/
theorem Recent.held (h : r.Recent ts cut) (hsorted : (ts ++ [now]).Pairwise (· ≤ ·)) (cut' : T) :
    ∀ t ∈ (r.record now cut').contents, cut' ≤ t := by
  obtain ⟨old, rfl, -⟩ := h
  have hsub : (r.push now).contents.Sublist ((old ++ r.contents) ++ [now]) := by
    rw [contents_push]
    refine List.Sublist.append ?_ (List.Sublist.refl _)
    split
    · exact List.sublist_append_right ..
    · exact (List.tail_sublist _).trans (List.sublist_append_right ..)
  rw [Ring.record, contents_expire]
  exact dropWhile_le (hsorted.sublist hsub) cut'

end Ring

end WindowRing
