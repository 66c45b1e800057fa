/-
# Patterns with wildcards

A pattern is a list of elements.  Some are stars and take any run of symbols; the others take one
symbol that they hit.  `Splits` says that a text can be split along a pattern.

A matcher that tries an element against a symbol before it asks whether the element is a star
gives a star a run of one where it hits the symbol, and no other.  `Held` is what such a matcher
can find, and `Held.of_prefix` is why it may forget all stars but the last: what a pattern finds
from a later place it finds from where its elements were hit one by one.
-/
import Mathlib.Data.List.Infix

namespace Wildcard

variable {κ α : Type*} (hit : κ → α → Bool) (star : κ → Bool)

/-- **A text is split along a pattern.** This is what a pattern means, whatever its elements are. -/
inductive Splits : List κ → List α → Prop
  | nil : Splits [] []
  | one {k c p t} (hk : star k = false) (hc : hit k c = true) (h : Splits p t) :
      Splits (k :: p) (c :: t)
  | run {k p t} (hk : star k = true) (u : List α) (h : Splits p t) : Splits (k :: p) (u ++ t)

/-- The same, where a star that stands before a symbol that it hits takes just that one. A matcher
that tries elements as symbols first finds these splits and no others. -/
inductive Held : List κ → List α → Prop
  | nil : Held [] []
  | one {k c p t} (hc : hit k c = true) (h : Held p t) : Held (k :: p) (c :: t)
  | run {k p t} (hk : star k = true) (u : List α) (hu : ∀ c ∈ (u ++ t).head?, hit k c = false)
      (h : Held p t) : Held (k :: p) (u ++ t)

variable {hit star}

theorem Held.splits {p : List κ} {t : List α} (h : Held hit star p t) : Splits hit star p t := by
  induction h with
  | nil => exact .nil
  | @one k c p t hc _ ih =>
    by_cases hk : star k = true
    · exact .run hk [c] ih
    · exact .one (Bool.eq_false_iff.mpr hk) hc ih
  | run hk u _ _ ih => exact .run hk u ih

/-- Where stars hit no symbol, every split is found. -/
theorem Splits.held {p : List κ} {t : List α} (h : Splits hit star p t)
    (hclear : ∀ k ∈ p, star k = true → ∀ c ∈ t, hit k c = false) : Held hit star p t := by
  induction h with
  | nil => exact .nil
  | one hk hc _ ih =>
    refine .one hc (ih fun k' hk' hs c' hc' => ?_)
    exact hclear k' (List.mem_cons_of_mem _ hk') hs c' (List.mem_cons_of_mem _ hc')
  | run hk u _ ih =>
    refine .run hk u (fun c hc => ?_) (ih fun k' hk' hs c' hc' => ?_)
    · exact hclear _ List.mem_cons_self hk c (List.mem_of_mem_head? hc)
    · exact hclear k' (List.mem_cons_of_mem _ hk') hs c' (List.mem_append_right _ hc')

theorem Held.nil_left {t : List α} (h : Held hit star [] t) : t = [] := by
  cases h
  rfl

theorem Held.rest {k : κ} {p : List κ} {t : List α} (h : Held hit star (k :: p) t) :
    ∃ v, v <:+ t ∧ Held hit star p v := by
  cases h with
  | one _ h => exact ⟨_, List.suffix_cons _ _, h⟩
  | run _ u _ h => exact ⟨_, List.suffix_append u _, h⟩

theorem held_nil_iff {p : List κ} : Held hit star p [] ↔ ∀ k ∈ p, star k = true := by
  constructor
  · intro h
    generalize ht : ([] : List α) = t at h
    induction h with
    | nil => exact fun k hk => absurd hk List.not_mem_nil
    | one => exact absurd ht (by simp)
    | run hk u _ _ ih =>
      obtain ⟨-, rfl⟩ := List.append_eq_nil_iff.mp ht.symm
      intro k' hk'
      rcases List.mem_cons.mp hk' with rfl | hk'
      · exact hk
      · exact ih rfl k' hk'
  · intro h
    induction p with
    | nil => exact .nil
    | cons k p ih =>
      refine .run (h k List.mem_cons_self) [] (by simp) (ih fun k' hk' => ?_)
      exact h k' (List.mem_cons_of_mem _ hk')

/-- The first element hits the first symbol, and is held to it. -/
theorem held_cons_of_hit {k : κ} {c : α} {p : List κ} {t : List α} (hc : hit k c = true) :
    Held hit star (k :: p) (c :: t) ↔ Held hit star p t := by
  refine ⟨fun h => ?_, .one hc⟩
  generalize hx : c :: t = x at h
  cases h with
  | one _ h =>
    obtain ⟨-, rfl⟩ := List.cons.inj hx
    exact h
  | run _ u hu _ =>
    rw [← hx] at hu
    rw [hu c rfl] at hc
    exact absurd hc (by simp)

/-- A star that does not hit the first symbol takes any run. -/
theorem held_cons_of_star {k : κ} {c : α} {p : List κ} {t : List α} (hk : star k = true)
    (hc : hit k c = false) :
    Held hit star (k :: p) (c :: t) ↔ ∃ v, v <:+ c :: t ∧ Held hit star p v := by
  constructor
  · intro h
    generalize hx : c :: t = x at h
    cases h with
    | one hc' _ =>
      obtain ⟨rfl, -⟩ := List.cons.inj hx
      rw [hc] at hc'
      exact absurd hc' (by simp)
    | run _ u _ h => exact ⟨_, List.suffix_append u _, h⟩
  · rintro ⟨v, ⟨u, hu⟩, h⟩
    rw [← hu]
    refine .run hk u (fun c' hc' => ?_) h
    rw [hu, List.head?_cons] at hc'
    rwa [← Option.some.inj hc']

theorem not_held_cons {k : κ} {c : α} {p : List κ} {t : List α} (hk : star k = false)
    (hc : hit k c = false) : ¬ Held hit star (k :: p) (c :: t) := by
  intro h
  generalize hx : c :: t = x at h
  cases h with
  | one hc' _ =>
    obtain ⟨rfl, -⟩ := List.cons.inj hx
    rw [hc] at hc'
    exact absurd hc' (by simp)
  | run hk' =>
    rw [hk] at hk'
    exact absurd hk' (by simp)

/-- A pattern whose first elements hit the symbols before `t` one by one, found anywhere from there
on, has its rest found from `t` on. So a matcher that goes back goes back to the last star, and the
earlier ones need no second try. -/
theorem Held.of_prefix {w : List κ} {x : List α} (hw : List.Forall₂ (fun k c => hit k c = true) w x)
    {p : List κ} {t v : List α} (hv : v <:+ x ++ t) (h : Held hit star (w ++ p) v) :
    ∃ v', v' <:+ t ∧ Held hit star p v' := by
  induction hw generalizing v with
  | nil => exact ⟨v, hv, h⟩
  | @cons k c w x hkc _ ih =>
    -- the first element takes at least the symbol `c`, or begins after it
    rw [List.cons_append] at h
    rw [List.cons_append, List.suffix_cons_iff] at hv
    rcases hv with rfl | hv
    · exact ih List.suffix_rfl ((held_cons_of_hit hkc).mp h)
    · cases h with
      | one _ h => exact ih ((List.suffix_cons _ _).trans hv) h
      | run _ u _ h => exact ih ((List.suffix_append u _).trans hv) h

end Wildcard
