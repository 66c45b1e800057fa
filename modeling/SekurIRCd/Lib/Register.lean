/-
# A last-writer register that its own value does not refresh

A register keeps a value and the stamp it was written at, and takes what it is offered when that
is greater, stamps first and then values.  With one exception: an offer of the value it already
has is ignored, and so its stamp stays as it was.  A blank register takes any value but the blank.

Since the stamp of a repeated value is forgotten, the outcome of a set of offers may depend on
their order.  `settles_iff` says when it does not: every offer of another value has to be below
every offer of the greatest one's value, not only below the greatest.
-/
import Mathlib.Data.Prod.Lex
import Mathlib.Data.List.Basic

namespace Register

variable {T V : Type*} [LinearOrder T] [LinearOrder V] (blank : V)

/-- A value behind its stamp. -/
abbrev Stamped (T V : Type*) := T ×ₗ V

/-- The value. -/
def Stamped.value (a : Stamped T V) : V := (ofLex a).2

/-- What a register keeps when `a` is offered to it. The third case is the exception: the same
value again does not refresh the stamp. -/
def offer (r a : Stamped T V) : Stamped T V :=
  if a.value ≠ r.value ∧ (r.value = blank ∨ r < a) then a else r

/-- The offers, in the order in which they arrive. -/
def fill (r : Stamped T V) (offers : List (Stamped T V)) : Stamped T V := offers.foldl (offer blank) r

/-- Every offer of another value than that of `best` is below every offer of that value. -/
def Separated (offers : List (Stamped T V)) (best : Stamped T V) : Prop :=
  (∀ a ∈ offers, a.value ≠ best.value → ∀ b ∈ offers, b.value = best.value → a < b) ∧
    (best.value = blank → ∀ a ∈ offers, a.value = blank)

variable {blank}

/-! ## 1. One offer

An offer replaces what the register has, or leaves it; offers of the value it has do nothing. -/

theorem offer_same {r a : Stamped T V} (h : a.value = r.value) : offer blank r a = r := by
  rw [offer, if_neg]
  rintro ⟨hne, -⟩
  exact hne h

theorem offer_taken {r a : Stamped T V} (hne : a.value ≠ r.value)
    (h : r.value = blank ∨ r < a) : offer blank r a = a := by
  rw [offer, if_pos ⟨hne, h⟩]

theorem offer_refused {r a : Stamped T V} (hb : r.value ≠ blank) (h : a < r) :
    offer blank r a = r := by
  rw [offer, if_neg]
  rintro ⟨-, hr | hr⟩
  · exact hb hr
  · exact absurd hr (not_lt_of_gt h)

theorem fill_append (r : Stamped T V) (offers more : List (Stamped T V)) :
    fill blank r (offers ++ more) = fill blank (fill blank r offers) more := List.foldl_append

/-- Offers of the value a register has leave it alone. -/
theorem fill_same {r : Stamped T V} : ∀ {offers : List (Stamped T V)},
    (∀ a ∈ offers, a.value = r.value) → fill blank r offers = r
  | [], _ => rfl
  | a :: offers, h => by
    have hstep : offer blank r a = r := offer_same (h a (List.mem_cons_self ..))
    rw [fill, List.foldl_cons, hstep]
    exact fill_same fun b hb => h b (List.mem_cons_of_mem _ hb)

/-- A value that is never offered is not taken. -/
theorem fill_value_ne {v : V} : ∀ {offers : List (Stamped T V)} {r : Stamped T V},
    r.value ≠ v → (∀ a ∈ offers, a.value ≠ v) → (fill blank r offers).value ≠ v
  | [], _, hr, _ => hr
  | a :: offers, r, hr, h => by
    have hstep : (offer blank r a).value ≠ v := by
      rw [offer]
      split
      · exact h a (List.mem_cons_self ..)
      · exact hr
    exact (fill_value_ne hstep fun b hb => h b (List.mem_cons_of_mem _ hb) :
      (fill blank (offer blank r a) offers).value ≠ v)

/-! ## 2. All of them

The condition says what an order could exploit: an offer of the winner's value that some other
offer beats. Where there is one, an order is built in which the winner's later stamp is
never seen. -/

section Sufficient

variable {offers : List (Stamped T V)} {best : Stamped T V} (h : Separated blank offers best)

/-- A register on the way: blank, or with one of the offers. -/
def OnTheWay (blank : V) (offers : List (Stamped T V)) (r : Stamped T V) : Prop :=
  r.value = blank ∨ r ∈ offers

theorem OnTheWay.offer {r a : Stamped T V} (hr : OnTheWay blank offers r) (ha : a ∈ offers) :
    OnTheWay blank offers (offer blank r a) := by
  rw [Register.offer]
  split
  · exact Or.inr ha
  · exact hr

include h

/-- An offer of the greatest value is taken, unless it is there already. -/
theorem Separated.taken {r a : Stamped T V} (hr : OnTheWay blank offers r) (ha : a ∈ offers)
    (hv : a.value = best.value) : (Register.offer blank r a).value = best.value := by
  by_cases hsame : a.value = r.value
  · rw [offer_same hsame, ← hsame, hv]
  · rw [offer_taken hsame, hv]
    rcases hr with hr | hr
    · exact Or.inl hr
    · exact Or.inr (h.1 r hr (fun e => hsame (hv.trans e.symm)) a ha hv)

theorem Separated.stays {r a : Stamped T V} (hr : OnTheWay blank offers r) (ha : a ∈ offers)
    (hv : r.value = best.value) : (Register.offer blank r a).value = best.value := by
  by_cases hsame : a.value = best.value
  · rw [offer_same (hsame.trans hv.symm), hv]
  · have hblank : best.value ≠ blank := by
      intro e
      exact hsame ((h.2 e a ha).trans e.symm)
    have hmem : r ∈ offers := hr.resolve_left fun e => hblank (hv ▸ e)
    rw [offer_refused (hv ▸ hblank) (h.1 a ha hsame r hmem hv), hv]

/-- The same offers in any order and any number leave the greatest value. -/
theorem Separated.fill {r : Stamped T V} {arrivals : List (Stamped T V)}
    (hsub : ∀ a ∈ arrivals, a ∈ offers) (hr : OnTheWay blank offers r)
    (hin : r.value = best.value ∨ best ∈ arrivals) :
    (Register.fill blank r arrivals).value = best.value := by
  induction arrivals generalizing r with
  | nil => exact hin.resolve_right (List.not_mem_nil)
  | cons a arrivals ih =>
    have ha : a ∈ offers := hsub a (List.mem_cons_self ..)
    refine ih (fun b hb => hsub b (List.mem_cons_of_mem _ hb)) (hr.offer ha) ?_
    rcases hin with hin | hin
    · exact Or.inl (h.stays hr ha hin)
    · rcases List.mem_cons.mp hin with e | hin
      · exact Or.inl (h.taken hr ha (congrArg Stamped.value e.symm))
      · exact Or.inr hin

end Sufficient

/-- A value that is overwritten once, and not offered again, is gone. -/
theorem overwritten {r a : Stamped T V} {rest : List (Stamped T V)} (hne : a.value ≠ r.value)
    (h : r.value = blank ∨ r < a) (hrest : ∀ b ∈ rest, b.value ≠ r.value) :
    (fill blank r (a :: rest)).value ≠ r.value := by
  have hstep : fill blank r (a :: rest) = fill blank a rest := by
    rw [fill, List.foldl_cons, offer_taken hne h]
    rfl
  rw [hstep]
  exact fill_value_ne hne hrest

section Necessary

variable {offers : List (Stamped T V)} {best r : Stamped T V} (hr : r.value = blank)
  (hall : ∀ arrivals : List (Stamped T V), arrivals.Perm offers →
    (fill blank r arrivals).value = best.value)

/-- `b` first, then the others of its value, then `a`, then the rest. -/
theorem perm_against {a b : Stamped T V} (ha : a ∈ offers) (hb : b ∈ offers)
    (hne : a.value ≠ b.value) : ∃ like rest : List (Stamped T V),
      (b :: like ++ a :: rest).Perm offers ∧ (∀ x ∈ like, x.value = b.value) ∧
        ∀ x ∈ rest, x.value ≠ b.value := by
  have hsplit := List.filter_append_perm (fun x : Stamped T V => decide (x.value = b.value))
    (offers.erase b)
  have hmem : a ∈ (offers.erase b).filter fun x => !decide (x.value = b.value) := by
    have hab : a ≠ b := by
      rintro rfl
      exact hne rfl
    exact List.mem_filter.mpr ⟨(List.mem_erase_of_ne hab).mpr ha, by simp [hne]⟩
  refine ⟨(offers.erase b).filter fun x => decide (x.value = b.value),
    ((offers.erase b).filter fun x => !decide (x.value = b.value)).erase a, ?_, fun x hx => ?_,
    fun x hx => ?_⟩
  · exact ((List.perm_cons_erase hmem).symm.append_left _).trans
      ((hsplit.cons b).trans (List.perm_cons_erase hb).symm)
  · simpa using List.of_mem_filter hx
  · simpa using List.of_mem_filter (List.mem_of_mem_erase hx)

include hr hall

/-- Whatever stands above an offer of the greatest value shows that an order goes wrong. -/
theorem lt_of_settled {a b : Stamped T V} (ha : a ∈ offers) (hb : b ∈ offers)
    (hne : a.value ≠ best.value) (hv : b.value = best.value) : a < b ∧ b.value ≠ blank := by
  by_contra hnot
  obtain ⟨like, rest, hperm, hlike, hrest⟩ := perm_against ha hb (fun e => hne (e.trans hv))
  have hend : (fill blank (fill blank r (b :: like)) (a :: rest)).value = best.value := by
    rw [← hall _ hperm, ← fill_append]
  by_cases hblank : b.value = blank
  · have hfirst : fill blank r (b :: like) = r := by
      refine fill_same fun x hx => ?_
      rcases List.mem_cons.mp hx with rfl | hx
      · exact hblank.trans hr.symm
      · exact (hlike x hx).trans (hblank.trans hr.symm)
    have hbr : b.value = r.value := hblank.trans hr.symm
    rw [hfirst, ← hv, hbr] at hend
    exact overwritten (fun e => hne (e.trans (hbr ▸ hv))) (Or.inl hr)
      (fun x hx => hbr ▸ hrest x hx) hend
  · have hba : b < a := by
      refine lt_of_le_of_ne (not_lt.mp fun hab => hnot ⟨hab, hblank⟩) ?_
      rintro rfl
      exact hne hv
    have hfirst : fill blank r (b :: like) = b := by
      rw [fill, List.foldl_cons, offer_taken (fun e => hblank (e.trans hr)) (Or.inl hr)]
      exact fill_same hlike
    rw [hfirst, ← hv] at hend
    exact overwritten (fun e => hne (e.trans hv)) (Or.inr hba) hrest hend

end Necessary

/-- **When every order of the offers leaves the value of the greatest.** The condition is on the
offers alone. -/
theorem settles_iff {offers : List (Stamped T V)} {best r : Stamped T V} (hbest : best ∈ offers)
    (hr : r.value = blank) :
    (∀ arrivals : List (Stamped T V), arrivals.Perm offers →
      (fill blank r arrivals).value = best.value) ↔ Separated blank offers best := by
  constructor
  · intro hall
    refine ⟨fun a ha hne b hb hv => (lt_of_settled hr hall ha hb hne hv).1, fun hblank a ha => ?_⟩
    by_contra hne
    exact (lt_of_settled hr hall ha hbest (hblank ▸ hne) rfl).2 hblank
  · intro h arrivals hp
    exact h.fill (fun a ha => hp.mem_iff.mp ha) (Or.inl hr) (Or.inr (hp.mem_iff.mpr hbest))

end Register
