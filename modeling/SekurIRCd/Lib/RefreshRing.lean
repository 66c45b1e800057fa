/-
# A ring of keys that are refreshed in place

Keys are recorded with the time they come at.  A key that is held gets the new time in its slot, any
other takes the next slot of the ring, whatever that holds.

So the order of the slots is not that of the times, and a slot that is overwritten can be newer than
the others.  As long as none is that the window still needs, the ring holds exactly the keys that
came within the window (`Remembers.mem_liveKeys`).
-/
import Mathlib.Data.Fintype.Basic
import Mathlib.Data.Finset.Card
import Mathlib.Data.Finset.Max
import Mathlib.Data.List.FinRange
import Mathlib.Logic.Function.Basic
import Mathlib.Order.Lattice

namespace RefreshRing

/-! ## 1. The ring -/

/-- A key and the time it came at; 0 if there is none. -/
structure Slot (K : Type*) where
  key : K
  time : Nat

/-- The key came, and within the window. -/
def Slot.Live {K : Type*} (window now : Nat) (s : Slot K) : Prop :=
  s.time ≠ 0 ∧ now ≤ s.time + window

instance {K : Type*} (window now : Nat) : DecidablePred (Slot.Live (K := K) window now) :=
  fun s => inferInstanceAs (Decidable (s.time ≠ 0 ∧ now ≤ s.time + window))

/-- The slots, and the one that is next. -/
structure Ring (K : Type*) (size : Nat) where
  slots : Fin size → Slot K
  head : Fin size

namespace Ring

variable {K : Type*} {size : Nat}

/-- All slots are empty, and the first is next. -/
def start (k : K) (h : 0 < size) : Ring K size := ⟨fun _ => ⟨k, 0⟩, ⟨0, h⟩⟩

def next (i : Fin size) : Fin size := ⟨(i + 1) % size, Nat.mod_lt _ i.pos⟩

variable [DecidableEq K]

/-- The slot that holds a key. -/
def find (r : Ring K size) (k : K) : Option (Fin size) :=
  (List.finRange size).find? fun i => decide ((r.slots i).time ≠ 0 ∧ (r.slots i).key = k)

/-- A key comes: in its slot, or in the next one. -/
def record (r : Ring K size) (k : K) (now : Nat) : Ring K size :=
  match r.find k with
  | some i => { r with slots := Function.update r.slots i ⟨k, now⟩ }
  | none => { slots := Function.update r.slots r.head ⟨k, now⟩, head := next r.head }

/-- The slot that a key is recorded in. -/
def place (r : Ring K size) (k : K) : Fin size := (r.find k).getD r.head

/-- How many live slots have a value that none before them has. -/
def distinct {V : Type*} [DecidableEq V] (r : Ring K size) (window now : Nat) (f : K → V) : Nat :=
  (List.finRange size).countP fun i => decide ((r.slots i).Live window now ∧
    ¬ ∃ j < i, (r.slots j).Live window now ∧ f (r.slots j).key = f (r.slots i).key)

/-- How many live slots there are with such a key. -/
def countLive (r : Ring K size) (window now : Nat) (p : K → Prop) [DecidablePred p] : Nat :=
  (List.finRange size).countP fun i =>
    decide ((r.slots i).Live window now ∧ p (r.slots i).key)

/-- Nothing that is live is overwritten by another key. The next slot is the only one at risk, and
only when the key has none. -/
def Spares (r : Ring K size) (window : Nat) (k : K) (now : Nat) : Prop :=
  r.find k = none → ¬ (r.slots r.head).Live window now

instance (r : Ring K size) (window : Nat) (k : K) (now : Nat) : Decidable (r.Spares window k now) :=
  inferInstanceAs (Decidable (r.find k = none → ¬ (r.slots r.head).Live window now))

/-! ## 2. What it holds

A key has at most one slot, since a key that is held is refreshed where it is. What can be lost is
a live key that is overwritten by another; the condition rules out just that, step by step. -/

theorem slots_record (r : Ring K size) (k : K) (now : Nat) :
    (r.record k now).slots = Function.update r.slots (r.place k) ⟨k, now⟩ := by
  rw [record, place]
  cases r.find k <;> rfl

theorem find_some {r : Ring K size} {k : K} {i : Fin size} (h : r.find k = some i) :
    (r.slots i).time ≠ 0 ∧ (r.slots i).key = k := by
  have hi := List.find?_some h
  exact of_decide_eq_true hi

theorem find_none {r : Ring K size} {k : K} (h : r.find k = none) (i : Fin size)
    (hi : (r.slots i).time ≠ 0) : (r.slots i).key ≠ k := fun hk =>
  List.find?_eq_none.mp h i (List.mem_finRange i) (decide_eq_true ⟨hi, hk⟩)

/-- A slot that holds the key is the one where it is recorded. -/
theorem place_unique {r : Ring K size} {k : K}
    (hunique : ∀ i j, (r.slots i).time ≠ 0 → (r.slots j).time ≠ 0 →
      (r.slots i).key = (r.slots j).key → i = j)
    {i : Fin size} (hi : (r.slots i).time ≠ 0) (hk : (r.slots i).key = k) : i = r.place k := by
  rw [place]
  cases hfind : r.find k with
  | none => exact absurd hk (find_none hfind i hi)
  | some j =>
    obtain ⟨hj, hkj⟩ := find_some hfind
    exact hunique i j hi hj (hk.trans hkj.symm)

/-- The keys of the live slots. -/
def liveKeys (r : Ring K size) (window now : Nat) : Finset K :=
  (Finset.univ.filter fun i => (r.slots i).Live window now).image fun i => (r.slots i).key

/-- **The ring remembers** what came, as far as the window goes: a key has one slot, a slot has a
key that came, and a key that came within the window has a slot with its last time. -/
structure Remembers (r : Ring K size) (came : List (K × Nat)) (window now : Nat) : Prop where
  unique : ∀ i j, (r.slots i).time ≠ 0 → (r.slots j).time ≠ 0 →
    (r.slots i).key = (r.slots j).key → i = j
  sound : ∀ i, (r.slots i).time ≠ 0 → ((r.slots i).key, (r.slots i).time) ∈ came
  complete : ∀ c ∈ came, now ≤ c.2 + window →
    ∃ i, (r.slots i).time ≠ 0 ∧ (r.slots i).key = c.1 ∧ c.2 ≤ (r.slots i).time

omit [DecidableEq K] in
theorem remembers_start (k : K) (h : 0 < size) (window now : Nat) :
    (start k h).Remembers [] window now where
  unique _ _ hi := absurd rfl hi
  sound _ hi := absurd rfl hi
  complete _ hc := absurd hc List.not_mem_nil

variable {r : Ring K size} {came : List (K × Nat)} {window now : Nat}

/-- **One key comes** and nothing that is live is overwritten. -/
theorem Remembers.record (h : r.Remembers came window now) {k : K} {now' : Nat} (hle : now ≤ now')
    (hpos : now' ≠ 0) (hcame : ∀ c ∈ came, c.2 ≤ now') (hspares : r.Spares window k now') :
    (r.record k now').Remembers (came ++ [(k, now')]) window now' := by
  have hat : (r.record k now').slots (r.place k) = ⟨k, now'⟩ := by
    rw [slots_record, Function.update_self]
  have hother : ∀ i, i ≠ r.place k → (r.record k now').slots i = r.slots i := by
    intro i hi
    rw [slots_record, Function.update_of_ne hi]
  have hkey : ∀ i, ((r.record k now').slots i).time ≠ 0 → ((r.record k now').slots i).key = k →
      i = r.place k := by
    intro i hi hk
    by_contra hne
    rw [hother i hne] at hi hk
    exact hne (place_unique h.unique hi hk)
  constructor
  · intro i j hi hj hij
    by_cases hip : i = r.place k
    · rw [hip, hat] at hij
      rw [hip]
      exact (hkey j hj hij.symm).symm
    · by_cases hjp : j = r.place k
      · rw [hjp, hat] at hij
        exact absurd (hkey i hi hij) hip
      · rw [hother i hip] at hi hij
        rw [hother j hjp] at hj hij
        exact h.unique i j hi hj hij
  · intro i hi
    by_cases hip : i = r.place k
    · rw [hip, hat]
      exact List.mem_append_right _ List.mem_cons_self
    · rw [hother i hip] at hi ⊢
      exact List.mem_append_left _ (h.sound i hi)
  · intro c hc hlive
    rcases List.mem_append.mp hc with hc | hc
    · obtain ⟨i, hi, hk, htime⟩ := h.complete c hc (hle.trans hlive)
      by_cases hip : i = r.place k
      · -- only a slot of the same key can have been overwritten
        have hck : c.1 = k := by
          rw [← hk, hip]
          rw [hip] at hi hk htime
          cases hfind : r.find k with
          | some j =>
            rw [place, hfind]
            exact (find_some hfind).2
          | none =>
            rw [place, hfind] at hi htime
            exact absurd ⟨hi, hlive.trans (Nat.add_le_add_right htime window)⟩ (hspares hfind)
        refine ⟨r.place k, ?_⟩
        rw [hat]
        exact ⟨hpos, hck.symm, hcame c hc⟩
      · refine ⟨i, ?_⟩
        rw [hother i hip]
        exact ⟨hi, hk, htime⟩
    · rw [List.mem_singleton.mp hc]
      refine ⟨r.place k, ?_⟩
      rw [hat]
      exact ⟨hpos, rfl, le_rfl⟩

/-- **What is live** is what came within the window. -/
theorem Remembers.mem_liveKeys (h : r.Remembers came window now) {k : K} :
    k ∈ r.liveKeys window now ↔ ∃ c ∈ came, now ≤ c.2 + window ∧ c.1 = k := by
  simp only [liveKeys, Finset.mem_image, Finset.mem_filter, Finset.mem_univ, true_and]
  constructor
  · rintro ⟨i, ⟨hi, hlive⟩, rfl⟩
    exact ⟨_, h.sound i hi, hlive, rfl⟩
  · rintro ⟨c, hc, hlive, rfl⟩
    obtain ⟨i, hi, hk, htime⟩ := h.complete c hc hlive
    exact ⟨i, ⟨hi, hlive.trans (Nat.add_le_add_right htime window)⟩, hk⟩

/-! ## 3. Counting

The programs count with loops over the slots: values that no slot before has, or slots with some
property. As no key has two slots these are counts of keys. -/

theorem countP_finRange (p : Fin size → Prop) [DecidablePred p] :
    (List.finRange size).countP (fun i => decide (p i)) = (Finset.univ.filter p).card := by
  rw [List.countP_eq_length_filter, ← List.toFinset_card_of_nodup
    ((List.nodup_finRange size).filter _)]
  congr 1
  ext i
  simp

/-- **Each value is counted once**. -/
theorem distinct_eq {V : Type*} [DecidableEq V] (r : Ring K size) (window now : Nat) (f : K → V) :
    r.distinct window now f = ((r.liveKeys window now).image f).card := by
  rw [distinct, countP_finRange, liveKeys, Finset.image_image]
  have hinj : Set.InjOn (fun i => f (r.slots i).key)
      (Finset.univ.filter fun i => (r.slots i).Live window now ∧
        ¬ ∃ j < i, (r.slots j).Live window now ∧ f (r.slots j).key = f (r.slots i).key) := by
    intro i hi j hj hij
    obtain ⟨hi, hfirst⟩ := (Finset.mem_filter.mp hi).2
    obtain ⟨hj, hfirst'⟩ := (Finset.mem_filter.mp hj).2
    rcases lt_trichotomy i j with hlt | heq | hlt
    · exact absurd ⟨i, hlt, hi, hij⟩ hfirst'
    · exact heq
    · exact absurd ⟨j, hlt, hj, hij.symm⟩ hfirst
  rw [← Finset.card_image_of_injOn hinj]
  congr 1
  ext v
  simp only [Finset.mem_image, Finset.mem_filter, Finset.mem_univ, true_and, Function.comp_apply]
  constructor
  · rintro ⟨i, hi, rfl⟩
    exact ⟨i, hi.1, rfl⟩
  · rintro ⟨i, hi, rfl⟩
    -- the first slot with that value
    induction i using WellFoundedLT.induction with
    | ind i ih =>
      by_cases hfirst : ∃ j < i, (r.slots j).Live window now ∧
          f (r.slots j).key = f (r.slots i).key
      · obtain ⟨j, hlt, hj, hji⟩ := hfirst
        rw [← hji]
        exact ih j hlt hj
      · exact ⟨i, ⟨hi, hfirst⟩, rfl⟩

/-- **Each key is counted once**, if none has two slots. -/
theorem Remembers.countLive_eq (h : r.Remembers came window now) (p : K → Prop) [DecidablePred p] :
    r.countLive window now p = ((r.liveKeys window now).filter p).card := by
  rw [countLive, countP_finRange, liveKeys, Finset.filter_image, Finset.card_image_of_injOn]
  · rw [Finset.filter_filter]
  · intro i hi j hj hij
    have hi := (Finset.mem_filter.mp (Finset.mem_filter.mp hi).1).2
    have hj := (Finset.mem_filter.mp (Finset.mem_filter.mp hj).1).2
    exact h.unique i j hi.1 hj.1 hij

end Ring

end RefreshRing
