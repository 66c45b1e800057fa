/-
# A slot that forgets when it was emptied

Writes and deletions come to one slot, each with a stamp.  An operation is taken if what the slot
holds is older, and an empty slot takes any: when it was emptied it does not know.

How old what it holds is, the slot reads off the value (`stamp`), which need not be the stamp the
write came with.  So two things can make the order matter: an old write that comes after a newer
deletion is taken, and a value that says that it is newer than its own write keeps others out.

`same_orders_iff` says exactly when no order does: there is nothing but deletions, or there is a
value that wins (`Wins`).  Where values carry the stamp of their write and no two operations have
the same one, that is to say that the newest operation is a write (`wins_iff_writeLast`).
-/
import Mathlib.Order.Lattice
import Mathlib.Data.List.Induction
import Mathlib.Data.Set.Finite.Lemmas
import Mathlib.Data.Set.Finite.List

namespace Newest

/-! ## 1. Orders of a list

What a list is mapped to comes in another order because the list does, so an order of one slot's
operations is one of all. -/

theorem exists_perm_last {α : Type*} {l : List α} {x : α} (h : x ∈ l) :
    ∃ before, (before ++ [x]).Perm l := by
  obtain ⟨a, b, rfl⟩ := List.append_of_mem h
  refine ⟨a ++ b, ?_⟩
  rw [List.append_assoc]
  exact (List.perm_append_singleton x b).append_left a

/-- Another order of what is found comes from another order of what it is found in. -/
theorem exists_perm_filterMap {α β : Type*} {f : α → Option β} {l : List α} {m : List β}
    (h : m.Perm (l.filterMap f)) : ∃ p : List α, p.Perm l ∧ p.filterMap f = m := by
  induction l generalizing m with
  | nil => exact ⟨[], List.Perm.refl _, h.eq_nil.symm⟩
  | cons x l ih =>
    cases hx : f x with
    | none =>
      rw [List.filterMap_cons_none hx] at h
      obtain ⟨p, hp, rfl⟩ := ih h
      exact ⟨x :: p, hp.cons x, List.filterMap_cons_none hx⟩
    | some y =>
      rw [List.filterMap_cons_some hx] at h
      obtain ⟨a, b, rfl⟩ := List.append_of_mem (h.mem_iff.mpr List.mem_cons_self)
      obtain ⟨p, hp, hab⟩ := ih (List.perm_middle.symm.trans h).cons_inv
      obtain ⟨p₁, p₂, rfl, rfl, rfl⟩ := List.filterMap_eq_append_iff.mp hab
      refine ⟨p₁ ++ x :: p₂, List.perm_middle.trans (hp.cons x), ?_⟩
      rw [List.filterMap_append, List.filterMap_cons_some hx]

/-! ## 2. The slot -/

/-- An operation with its stamp: a write, or a deletion. -/
abbrev Op (T V : Type*) := T × Option V

section Slot

variable {T V : Type*} [LinearOrder T] (stamp : V → T)

/-- What a slot holds after an operation. -/
def apply (s : Option V) (o : Op T V) : Option V :=
  match s with
  | none => o.2
  | some x => if o.1 ≤ stamp x then some x else o.2

/-- The operations as they come, from an empty slot. -/
def run (ops : List (Op T V)) : Option V := ops.foldl (apply stamp) none

/-- **A value that wins wherever it comes**: nothing but itself is newer than it, and one of its
writes is newer than every other value. -/
structure Wins (ops : List (Op T V)) (w : V) : Prop where
  guarded : ∀ o ∈ ops, o.2 = some w ∨ o.1 ≤ stamp w
  taken : ∃ t, (t, some w) ∈ ops ∧ ∀ o ∈ ops, ∀ v, o.2 = some v → v = w ∨ stamp v < t

/-- The newest operation is a write, if there is one. -/
def WriteLast (ops : List (Op T V)) : Prop :=
  ∀ d ∈ ops, d.2 = none → (∃ u ∈ ops, u.2.isSome = true) → ∃ u ∈ ops, u.2.isSome = true ∧ d.1 < u.1

/-! ## 3. What is held

What the slot holds after an operation is what it held or what was written, so whatever is held
was written, and what was not written is not held. -/

theorem apply_cases (s : Option V) (o : Op T V) : apply stamp s o = s ∨ apply stamp s o = o.2 := by
  cases s with
  | none => exact Or.inr rfl
  | some x =>
    rw [apply]
    split
    · exact Or.inl rfl
    · exact Or.inr rfl

theorem run_append (ops : List (Op T V)) (o : Op T V) :
    run stamp (ops ++ [o]) = apply stamp (run stamp ops) o := List.foldl_append

theorem run_write_last (ops : List (Op T V)) (t : T) (v : V) :
    (run stamp (ops ++ [(t, some v)])).isSome = true := by
  rw [run_append]
  cases run stamp ops with
  | none => rfl
  | some y =>
    rw [apply]
    split <;> rfl

variable {stamp}

theorem mem_of_run {ops : List (Op T V)} {x : V} (h : run stamp ops = some x) :
    ∃ o ∈ ops, o.2 = some x := by
  induction ops using List.reverseRecOn with
  | nil => exact absurd h (by simp [run])
  | append_singleton ops o ih =>
    rw [run_append] at h
    rcases apply_cases stamp (run stamp ops) o with hs | ho
    · obtain ⟨o', ho', hx⟩ := ih (hs.symm.trans h)
      exact ⟨o', List.mem_append_left _ ho', hx⟩
    · exact ⟨o, List.mem_append_right _ List.mem_cons_self, ho.symm.trans h⟩

theorem run_eq_none {ops : List (Op T V)} (h : ∀ o ∈ ops, o.2 = none) : run stamp ops = none := by
  cases hr : run stamp ops with
  | none => rfl
  | some y =>
    obtain ⟨o, ho, hy⟩ := mem_of_run hr
    exact absurd ((h o ho).symm.trans hy) (by simp)

/-- What is held stays while only older operations and writes of it come. -/
theorem foldl_guarded {w : V} {ops : List (Op T V)} (h : ∀ o ∈ ops, o.2 = some w ∨ o.1 ≤ stamp w) :
    ops.foldl (apply stamp) (some w) = some w := by
  induction ops with
  | nil => rfl
  | cons o ops ih =>
    have hstep : apply stamp (some w) o = some w := by
      rw [apply]
      rcases h o List.mem_cons_self with hw | hle
      · rw [hw, ite_self]
      · rw [if_pos hle]
    rw [List.foldl_cons, hstep]
    exact ih fun o ho => h o (List.mem_cons_of_mem _ ho)

/-- What is not written does not come to be held. -/
theorem foldl_ne {w : V} {s : Option V} {ops : List (Op T V)} (hs : s ≠ some w)
    (h : ∀ o ∈ ops, o.2 ≠ some w) : ops.foldl (apply stamp) s ≠ some w := by
  induction ops generalizing s with
  | nil => exact hs
  | cons o ops ih =>
    refine ih ?_ fun o ho => h o (List.mem_cons_of_mem _ ho)
    rcases apply_cases stamp s o with he | he
    · rw [he]
      exact hs
    · rw [he]
      exact h o List.mem_cons_self

/-! ## 4. Every order

A value that wins is held in the end whatever the order is.  Where every order ends alike and
there is a write, the value of that end wins: an operation that is not guarded against could come
last, and a value that no write of the winner overtakes could come first. -/

theorem Wins.run {ops : List (Op T V)} {w : V} (h : Wins stamp ops w) :
    run stamp ops = some w := by
  obtain ⟨t, hin, hlt⟩ := h.taken
  obtain ⟨a, b, rfl⟩ := List.append_of_mem hin
  have hheld : apply stamp (Newest.run stamp a) (t, some w) = some w := by
    cases hr : Newest.run stamp a with
    | none => rfl
    | some x =>
      obtain ⟨o, ho, hx⟩ := mem_of_run hr
      rcases hlt o (List.mem_append_left _ ho) x hx with rfl | hlt
      · rw [apply, ite_self]
      · rw [apply, if_neg (not_le.mpr hlt)]
  rw [Newest.run, List.foldl_append, List.foldl_cons, ← Newest.run, hheld]
  exact foldl_guarded fun o ho =>
    h.guarded o (List.mem_append_right _ (List.mem_cons_of_mem _ ho))

theorem Wins.perm {ops ops' : List (Op T V)} {w : V} (h : Wins stamp ops w) (hp : ops'.Perm ops) :
    Wins stamp ops' w := by
  obtain ⟨t, hin, hlt⟩ := h.taken
  exact ⟨fun o ho => h.guarded o (hp.mem_iff.mp ho), t, hp.mem_iff.mpr hin,
    fun o ho => hlt o (hp.mem_iff.mp ho)⟩

theorem exists_newest_write {ops : List (Op T V)} {w : V} (h : ∃ o ∈ ops, o.2 = some w) :
    ∃ t, (t, some w) ∈ ops ∧ ∀ t', (t', some w) ∈ ops → t' ≤ t := by
  have hfinite : {o | o ∈ ops ∧ o.2 = some w}.Finite :=
    (List.finite_toSet ops).subset fun o ho => ho.1
  obtain ⟨o, ⟨ho, hw⟩, hmax⟩ := Set.exists_max_image _ Prod.fst hfinite h
  exact ⟨o.1, by rwa [← hw], fun t' ht' => hmax (t', some w) ⟨ht', rfl⟩⟩

/-- **Where all orders end alike, the value they end with wins.** -/
theorem wins_of_same {ops : List (Op T V)} {w : V}
    (h : ∀ p, p.Perm ops → run stamp p = some w) : Wins stamp ops w := by
  classical
  obtain ⟨t, ht, hmax⟩ := exists_newest_write (mem_of_run (h ops (List.Perm.refl _)))
  refine ⟨fun o ho => ?_, t, ht, fun o ho v hv => ?_⟩
  · -- it comes last, and is not taken or is the value itself
    obtain ⟨before, hp⟩ := exists_perm_last ho
    have hend := h _ hp
    rw [run_append] at hend
    by_contra hnot
    push Not at hnot
    cases hr : run stamp before with
    | none => exact hnot.1 (by rwa [hr] at hend)
    | some x =>
      rw [hr, apply] at hend
      split at hend
      next hle =>
        obtain rfl := Option.some.inj hend
        exact absurd hle (not_le.mpr hnot.2)
      next => exact hnot.1 hend
  · -- it comes first, then the winner's writes, then the others
    by_contra hnot
    push Not at hnot
    obtain ⟨a, b, rfl⟩ := List.append_of_mem ho
    let rest := a ++ b
    have hperm : (o :: (rest.filter (fun x => x.2 = some w) ++
        rest.filter (fun x => ¬ x.2 = some w))).Perm (a ++ o :: b) := by
      refine (List.Perm.cons o ?_).trans List.perm_middle.symm
      simpa using List.filter_append_perm (fun x : Op T V => decide (x.2 = some w)) rest
    refine absurd (h _ hperm) ?_
    have hold : ∀ x ∈ rest.filter (fun x => x.2 = some w), x.2 = some v ∨ x.1 ≤ stamp v := by
      intro x hx
      obtain ⟨hx, hw⟩ := List.mem_filter.mp hx
      have hx' : (x.1, some w) ∈ a ++ o :: b := by
        rw [← of_decide_eq_true hw]
        rcases List.mem_append.mp hx with hx | hx
        · exact List.mem_append_left _ hx
        · exact List.mem_append_right _ (List.mem_cons_of_mem _ hx)
      exact Or.inr ((hmax x.1 hx').trans hnot.2)
    rw [run, List.foldl_cons, show apply stamp none o = some v from hv, List.foldl_append,
      foldl_guarded hold]
    exact foldl_ne (fun he => hnot.1 (Option.some.inj he)) fun x hx =>
      of_decide_eq_true (List.mem_filter.mp hx).2

/-- **The order does not matter** exactly where nothing is written or a value wins. Both ways of
going wrong are covered: a deletion that is forgotten, and a value that says that it is newer than
its write. -/
theorem same_orders_iff {ops : List (Op T V)} :
    (∀ p q : List (Op T V), p.Perm ops → q.Perm ops → run stamp p = run stamp q) ↔
      (∀ o ∈ ops, o.2 = none) ∨ ∃ w, Wins stamp ops w := by
  constructor
  · intro h
    by_cases hnone : ∀ o ∈ ops, o.2 = none
    · exact Or.inl hnone
    · push Not at hnone
      obtain ⟨o, ho, hwrite⟩ := hnone
      obtain ⟨v, hv⟩ := Option.ne_none_iff_exists'.mp hwrite
      obtain ⟨before, hp⟩ := exists_perm_last ho
      obtain ⟨w, hw⟩ := Option.isSome_iff_exists.mp (run_write_last stamp before o.1 v)
      rw [← hv] at hw
      exact Or.inr ⟨w, wins_of_same fun p hq => (h p _ hq hp).trans hw⟩
  · rintro (hnone | ⟨w, hw⟩) p q hp hq
    · rw [run_eq_none fun o ho => hnone o (hp.mem_iff.mp ho),
        run_eq_none fun o ho => hnone o (hq.mem_iff.mp ho)]
    · rw [(hw.perm hp).run, (hw.perm hq).run]

/-! ## 5. Values that carry the stamp of their write

The case that programs hope for. With stamps of their own the values cannot claim to be newer than
they are, and then only a deletion that is the newest of all makes the order matter. -/

theorem exists_newest {ops : List (Op T V)} (h : ∃ u ∈ ops, u.2.isSome = true) :
    ∃ t w, (t, some w) ∈ ops ∧ ∀ u ∈ ops, u.2.isSome = true → u.1 ≤ t := by
  have hfinite : {o | o ∈ ops ∧ o.2.isSome = true}.Finite :=
    (List.finite_toSet ops).subset fun o ho => ho.1
  obtain ⟨o, ⟨ho, hwrite⟩, hmax⟩ := Set.exists_max_image _ Prod.fst hfinite h
  obtain ⟨w, hw⟩ := Option.isSome_iff_exists.mp hwrite
  exact ⟨o.1, w, by rwa [← hw], fun u hu hs => hmax u ⟨hu, hs⟩⟩

/-- **With distinct stamps that the values carry**, a value wins exactly where the newest
operation is a write. -/
theorem wins_iff_writeLast {ops : List (Op T V)}
    (hdistinct : ∀ a ∈ ops, ∀ b ∈ ops, a ≠ b → a.1 ≠ b.1)
    (hown : ∀ o ∈ ops, ∀ v, o.2 = some v → stamp v = o.1) :
    ((∀ o ∈ ops, o.2 = none) ∨ ∃ w, Wins stamp ops w) ↔ WriteLast ops := by
  constructor
  · rintro (hnone | ⟨w, hw⟩) d hd hdelete ⟨u, hu, hwrite⟩
    · rw [hnone u hu] at hwrite
      exact absurd hwrite (by simp)
    · obtain ⟨t, hin, -⟩ := hw.taken
      refine ⟨(t, some w), hin, rfl, lt_of_le_of_ne ?_ (hdistinct d hd _ hin ?_)⟩
      · rcases hw.guarded d hd with he | hle
        · rw [hdelete] at he
          exact absurd he (by simp)
        · exact hle.trans_eq (hown _ hin w rfl)
      · rintro rfl
        exact absurd hdelete (by simp)
  · intro h
    by_cases hwrite : ∃ u ∈ ops, u.2.isSome = true
    · obtain ⟨t, w, hin, hmax⟩ := exists_newest hwrite
      have hstamp : stamp w = t := hown _ hin w rfl
      refine Or.inr ⟨w, fun o ho => ?_, t, hin, fun o ho v hv => ?_⟩
      · rw [hstamp]
        cases hs : o.2 with
        | none =>
          obtain ⟨u, hu, hus, hlt⟩ := h o ho hs hwrite
          exact Or.inr (hlt.le.trans (hmax u hu hus))
        | some v => exact Or.inr (hmax o ho (by rw [hs]; rfl))
      · by_cases heq : o = (t, some w)
        · rw [heq] at hv
          exact Or.inl (Option.some.inj hv).symm
        · rw [hown o ho v hv]
          exact Or.inr (lt_of_le_of_ne (hmax o ho (by rw [hv]; rfl)) (hdistinct o ho _ hin heq))
    · refine Or.inl fun o ho => ?_
      rw [← Option.not_isSome_iff_eq_none]
      exact fun hs => hwrite ⟨o, ho, hs⟩

end Slot

end Newest
