/-
# A relation kept from both sides

Two lists say who belongs where: each left-hand member lists what it is in, and each right-hand
one lists who is in it.  Nothing but the order of the operations ties the two together.

`Matched s` says that they are one relation, with every pair listed once on either side.  A pair
that is entered, or struck out, on both sides keeps this; so does taking one left-hand member out
of all it is in, one entry of its list at a time.
-/
import Mathlib.Data.List.Nodup
import Mathlib.Logic.Function.Basic

namespace Incidence

variable {α β : Type*} [DecidableEq α] [DecidableEq β]

/-- What each `a` is in, and who is in each `b`. -/
structure Books (α β : Type*) where
  rows : α → List β
  cols : β → List α

namespace Books

/-- Nobody is in anything. -/
def empty : Books α β := ⟨fun _ => [], fun _ => []⟩

/-- `a` comes into `b`, on both sides. -/
def enter (s : Books α β) (a : α) (b : β) : Books α β where
  rows := Function.update s.rows a (b :: s.rows a)
  cols := Function.update s.cols b (s.cols b ++ [a])

/-- `a` goes from the list of `b`. -/
def dropCol (s : Books α β) (a : α) (b : β) : Books α β :=
  { s with cols := Function.update s.cols b ((s.cols b).filter (· ≠ a)) }

/-- The first `b` goes from the list of `a`. -/
def dropRow (s : Books α β) (a : α) (b : β) : Books α β :=
  { s with rows := Function.update s.rows a ((s.rows a).erase b) }

/-- `a` leaves `b`. -/
def leave (s : Books α β) (a : α) (b : β) : Books α β := (s.dropCol a b).dropRow a b

/-- `a` leaves all it is in, in the order of its list; the list is walked as it was at the start. -/
def leaveAll (s : Books α β) (a : α) : Books α β :=
  let t := (s.rows a).foldl (fun t b => t.dropCol a b) s
  { t with rows := Function.update t.rows a [] }

/-- **The two sides match**: they are one relation, each pair once on either side. -/
structure Matched (s : Books α β) : Prop where
  mirror : ∀ a b, a ∈ s.cols b ↔ b ∈ s.rows a
  rows : ∀ a, (s.rows a).Nodup
  cols : ∀ b, (s.cols b).Nodup

/-! ## 1. Reading the lists back -/

theorem mem_rows_enter (s : Books α β) (a x : α) (b y : β) :
    y ∈ (s.enter a b).rows x ↔ (x = a ∧ y = b) ∨ y ∈ s.rows x := by
  by_cases hx : x = a
  · subst hx
    simp [enter]
  · simp [enter, hx]

theorem mem_cols_enter (s : Books α β) (a x : α) (b y : β) :
    x ∈ (s.enter a b).cols y ↔ (x = a ∧ y = b) ∨ x ∈ s.cols y := by
  by_cases hy : y = b
  · subst hy
    simp [enter, or_comm]
  · simp [enter, hy]

theorem mem_cols_dropCol (s : Books α β) (a x : α) (b y : β) :
    x ∈ (s.dropCol a b).cols y ↔ x ∈ s.cols y ∧ ¬(x = a ∧ y = b) := by
  by_cases hy : y = b
  · subst hy
    simp [dropCol]
  · simp [dropCol, hy]

theorem nodup_cols_dropCol {s : Books α β} (a : α) (b : β) (h : ∀ y, (s.cols y).Nodup) (y : β) :
    ((s.dropCol a b).cols y).Nodup := by
  by_cases hy : y = b
  · subst hy
    simpa [dropCol] using (h y).filter _
  · simpa [dropCol, hy] using h y

/-- Dropping `a` from one list after another. -/
theorem foldl_dropCol (a : α) : ∀ (bs : List β) (s : Books α β),
    (bs.foldl (fun t b => t.dropCol a b) s).rows = s.rows ∧
      (∀ x y, x ∈ (bs.foldl (fun t b => t.dropCol a b) s).cols y ↔
        x ∈ s.cols y ∧ ¬(x = a ∧ y ∈ bs)) ∧
      ((∀ y, (s.cols y).Nodup) →
        ∀ y, ((bs.foldl (fun t b => t.dropCol a b) s).cols y).Nodup)
  | [], s => by simp
  | b :: bs, s => by
    obtain ⟨hrows, hcols, hnodup⟩ := foldl_dropCol a bs (s.dropCol a b)
    refine ⟨hrows, fun x y => ?_, fun h => hnodup (nodup_cols_dropCol a b h)⟩
    rw [List.foldl_cons, hcols, mem_cols_dropCol, List.mem_cons]
    constructor
    · rintro ⟨⟨hx, hb⟩, hbs⟩
      exact ⟨hx, fun ⟨hxa, hy⟩ => hy.elim (fun e => hb ⟨hxa, e⟩) fun e => hbs ⟨hxa, e⟩⟩
    · rintro ⟨hx, hall⟩
      exact ⟨⟨hx, fun ⟨hxa, hy⟩ => hall ⟨hxa, Or.inl hy⟩⟩, fun ⟨hxa, hy⟩ => hall ⟨hxa, Or.inr hy⟩⟩

theorem mem_cols_leaveAll {s : Books α β} (h : s.Matched) (a x : α) (y : β) :
    x ∈ (s.leaveAll a).cols y ↔ x ∈ s.cols y ∧ x ≠ a := by
  have hcols := (foldl_dropCol a (s.rows a) s).2.1 x y
  refine hcols.trans (and_congr_right fun hx => not_congr ?_)
  constructor
  · exact And.left
  · rintro rfl
    exact ⟨rfl, (h.mirror x y).mp hx⟩

theorem rows_leaveAll (s : Books α β) (a : α) :
    (s.leaveAll a).rows = Function.update s.rows a [] := by
  rw [leaveAll]
  simp only
  rw [(foldl_dropCol a (s.rows a) s).1]

/-! ## 2. What keeps the sides matched

Each operation changes both sides, in two steps between which they do not match; what is proved is
that they match again when both are done. -/

omit [DecidableEq α] [DecidableEq β] in
theorem matched_empty : (empty : Books α β).Matched where
  mirror := fun _ _ => by simp [empty]
  rows := fun _ => by simp [empty]
  cols := fun _ => by simp [empty]

theorem Matched.enter {s : Books α β} (h : s.Matched) {a : α} {b : β} (hnot : a ∉ s.cols b) :
    (s.enter a b).Matched where
  mirror := fun x y => by rw [mem_cols_enter, mem_rows_enter, h.mirror]
  rows := fun x => by
    by_cases hx : x = a
    · subst hx
      have hb : b ∉ s.rows x := fun hb => hnot ((h.mirror x b).mpr hb)
      simpa [Books.enter] using ⟨hb, h.rows x⟩
    · simpa [Books.enter, hx] using h.rows x
  cols := fun y => by
    by_cases hy : y = b
    · subst hy
      simpa [Books.enter, List.nodup_append] using
        ⟨h.cols y, fun x hx => fun e : x = a => hnot (e ▸ hx)⟩
    · simpa [Books.enter, hy] using h.cols y

theorem Matched.leave {s : Books α β} (h : s.Matched) (a : α) (b : β) : (s.leave a b).Matched where
  mirror := fun x y => by
    have hcols : x ∈ (s.leave a b).cols y ↔ x ∈ s.cols y ∧ ¬(x = a ∧ y = b) :=
      mem_cols_dropCol s a x b y
    rw [hcols, h.mirror]
    by_cases hx : x = a
    · subst hx
      simp [Books.leave, dropRow, dropCol, (h.rows x).mem_erase_iff, and_comm]
    · simp [Books.leave, dropRow, dropCol, hx]
  rows := fun x => by
    by_cases hx : x = a
    · subst hx
      simpa [Books.leave, dropRow, dropCol] using (h.rows x).erase b
    · simpa [Books.leave, dropRow, dropCol, hx] using h.rows x
  cols := nodup_cols_dropCol a b h.cols

theorem Matched.leaveAll {s : Books α β} (h : s.Matched) (a : α) : (s.leaveAll a).Matched where
  mirror := fun x y => by
    rw [mem_cols_leaveAll h, rows_leaveAll, h.mirror]
    by_cases hx : x = a
    · subst hx
      simp
    · simp [hx]
  rows := fun x => by
    rw [rows_leaveAll]
    by_cases hx : x = a
    · subst hx
      simp
    · simpa [hx] using h.rows x
  cols := (foldl_dropCol a (s.rows a) s).2.2 h.cols

end Books

end Incidence
