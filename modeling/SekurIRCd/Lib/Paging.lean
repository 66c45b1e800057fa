/-
# Going through a list page by page

A list of entries is asked for in pages: the last `n` of it, the `n` before an entry, the `n` behind
one.  An entry is named by a key that it has alone.  Some entries are hidden, and they are taken out
of a page after its bounds are set.

Going back from the last page until one is empty brings every entry that is shown, once and in
order, exactly when no `n` hidden entries stand behind one that is shown (`back_iff`).  The same
suffices for going on from an entry (`on_complete`).
-/
import Mathlib.Data.List.Basic

namespace Paging

variable {E K : Type*}

/-! ## 1. Pages

A page is cut before the hidden entries are taken out of it, so a page may be shorter than was
asked for, and empty although there is more behind it. -/

/-- The last `n`, less those that are hidden. -/
def lastPage (shown : E → Bool) (n : Nat) (p : List E) : List E :=
  (p.drop (p.length - n)).filter shown

/-- The first `n`, less those that are hidden. -/
def firstPage (shown : E → Bool) (n : Nat) (p : List E) : List E := (p.take n).filter shown

/-- From a page back to an empty one, and what they bring. The entry that the next page is asked
for before is the first one of this page. -/
inductive Back (key : E → K) (ask : K → Option (List E)) : List E → List E → Prop
  | stop : Back key ask [] []
  | more {e : E} {page next older : List E} (h : ask (key e) = some next)
    (hrest : Back key ask next older) : Back key ask (e :: page) (older ++ e :: page)

/-- From a page on to an empty one, and what they bring. Each page is asked for with the key of the
last entry of the one before. -/
inductive On (key : E → K) (ask : K → Option (List E)) : List E → List E → Prop
  | stop : On key ask [] []
  | more {e : E} {page next newer : List E} (h : ask (key e) = some next)
    (hrest : On key ask next newer) : On key ask (page ++ [e]) (page ++ e :: newer)

/-- No `n` hidden entries stand behind one that is shown. A page that falls into such a gap is
empty. -/
def NoGap (shown : E → Bool) (n : Nat) (v : List E) : Prop :=
  ∀ a b c, v = a ++ (b ++ c) → b.length = n → (∀ e ∈ b, shown e = false) → ∀ e ∈ a, shown e = false

variable {key : E → K} {ask : K → Option (List E)} {shown : E → Bool} {n : Nat} {v : List E}

/-! ## 2. Back

Each page is asked for before the first entry of the one that came last. Going back stops at the
first empty page, which a gap of hidden entries makes too early. -/

/-- What is asked for before an entry is the last page of what stands before it. -/
def AsksBefore (key : E → K) (ask : K → Option (List E)) (shown : E → Bool) (n : Nat)
    (v : List E) : Prop :=
  ∀ a e c, v = a ++ e :: c → ask (key e) = some (lastPage shown n a)

/-- An empty page has the whole list behind it, or a gap. -/
theorem hidden_of_lastPage_nil (hgap : NoGap shown n v) {p rest : List E} (hv : v = p ++ rest)
    (hnil : lastPage shown n p = []) : p.filter shown = [] := by
  have hsplit := List.take_append_drop (p.length - n) p
  have hpage : ∀ e ∈ p.drop (p.length - n), shown e = false := by
    simpa [lastPage, List.filter_eq_nil_iff] using hnil
  rw [← hsplit, List.filter_append, show (p.drop (p.length - n)).filter shown = [] from hnil,
    List.append_nil]
  by_cases hn : n ≤ p.length
  · have hall := hgap (p.take (p.length - n)) (p.drop (p.length - n)) rest
      (by rw [← List.append_assoc, hsplit, hv]) (by rw [List.length_drop]; omega) hpage
    exact List.filter_eq_nil_iff.mpr fun e he => by simp [hall e he]
  · rw [show p.length - n = 0 by omega, List.take_zero]
    rfl

/-- **Going back brings everything** that is shown before some point. -/
theorem back_of_noGap (hask : AsksBefore key ask shown n v) (hgap : NoGap shown n v) :
    ∀ {p rest : List E}, v = p ++ rest → Back key ask (lastPage shown n p) (p.filter shown) := by
  intro p
  induction hlen : p.length using Nat.strongRecOn generalizing p with
  | ind len ih =>
    intro rest hv
    cases hpage : lastPage shown n p with
    | nil =>
      rw [hidden_of_lastPage_nil hgap hv hpage]
      exact Back.stop
    | cons e page =>
      obtain ⟨b, c, hbc, hb, he, hc⟩ := List.filter_eq_cons_iff.mp hpage
      -- what stands before the first that is shown
      have hp : p = (p.take (p.length - n) ++ b) ++ e :: c := by
        rw [List.append_assoc, ← hbc, List.take_append_drop]
      generalize p.take (p.length - n) ++ b = a at hp
      have hbefore : v = a ++ e :: (c ++ rest) := by rw [hv, hp, List.append_assoc, List.cons_append]
      have hshort : a.length < len := by
        rw [← hlen, hp, List.length_append, List.length_cons]
        omega
      have hall : p.filter shown = a.filter shown ++ e :: page := by
        rw [hp, List.filter_append, List.filter_cons_of_pos he, hc]
      rw [hall]
      exact Back.more (hask a e _ hbefore) (ih a.length hshort rfl hbefore)

/-- Behind a gap nothing is brought that stands before it. -/
theorem back_length_le (hask : AsksBefore key ask shown n v) {a b : List E} (hb : b.length = n)
    (hhidden : ∀ e ∈ b, shown e = false) : ∀ {c rest r : List E}, v = (a ++ (b ++ c)) ++ rest →
      Back key ask (lastPage shown n (a ++ (b ++ c))) r → r.length ≤ (c.filter shown).length := by
  intro c
  induction hlen : c.length using Nat.strongRecOn generalizing c with
  | ind len ih =>
    intro rest r hv hback
    have hdrop : (a ++ (b ++ c)).drop ((a ++ (b ++ c)).length - n) =
        (b ++ c).drop c.length := by
      rw [List.length_append, List.length_append, List.drop_append, List.drop_eq_nil_of_le
        (by omega), List.nil_append]
      congr 1
      omega
    have hpage : lastPage shown n (a ++ (b ++ c)) = (c.drop (c.length - n)).filter shown := by
      rw [lastPage, hdrop, List.drop_append, List.filter_append, hb,
        List.filter_eq_nil_iff.mpr fun e he => by simp [hhidden e (List.mem_of_mem_drop he)],
        List.nil_append]
    rw [hpage] at hback
    cases hfilter : (c.drop (c.length - n)).filter shown with
    | nil =>
      rw [hfilter] at hback
      cases hback
      exact Nat.zero_le _
    | cons e page =>
      rw [hfilter] at hback
      cases hback with
      | @more _ _ next older h hrest =>
        obtain ⟨x, y, hxy, -, he, hy⟩ := List.filter_eq_cons_iff.mp hfilter
        have hc : c = (c.take (c.length - n) ++ x) ++ e :: y := by
          rw [List.append_assoc, ← hxy, List.take_append_drop]
        generalize c.take (c.length - n) ++ x = c' at hc
        have hbefore : v = (a ++ (b ++ c')) ++ e :: (y ++ rest) := by
          rw [hv, hc]
          simp
        rw [hask _ e _ hbefore] at h
        obtain rfl := Option.some.inj h
        have hshort : c'.length < len := by
          rw [← hlen, hc, List.length_append, List.length_cons]
          omega
        have hle := ih c'.length hshort rfl hbefore hrest
        rw [hc, List.filter_append, List.filter_cons_of_pos he, hy, List.length_append,
          List.length_append]
        omega

/-- **Going back brings everything that is shown** exactly when there is no gap. Nothing less will
do: a gap ends every walk that comes to it. -/
theorem back_iff (hask : AsksBefore key ask shown n v) :
    Back key ask (lastPage shown n v) (v.filter shown) ↔ NoGap shown n v := by
  constructor
  · intro hback a b c hv hb hhidden
    have hnil : v = (a ++ (b ++ c)) ++ [] := by rw [List.append_nil, hv]
    have hle := back_length_le hask hb hhidden hnil (hv ▸ hback)
    rw [List.filter_append, List.filter_append, List.length_append, List.length_append] at hle
    have hnone : a.filter shown = [] := List.length_eq_zero_iff.mp (by omega)
    exact fun e he => by simpa using List.filter_eq_nil_iff.mp hnone e he
  · intro hgap
    exact back_of_noGap hask hgap (List.append_nil v).symm

/-! ## 3. On -/

/-- What is asked for behind an entry is the first page of what stands behind it. -/
def AsksAfter (key : E → K) (ask : K → Option (List E)) (shown : E → Bool) (n : Nat)
    (v : List E) : Prop :=
  ∀ a e c, v = a ++ e :: c → ask (key e) = some (firstPage shown n c)

theorem hidden_of_firstPage_nil (hgap : NoGap shown n v) {a rest : List E} (hv : v = a ++ rest)
    (hshown : ∃ e ∈ a, shown e = true) (hnil : firstPage shown n rest = []) :
    rest.filter shown = [] := by
  have hpage : ∀ e ∈ rest.take n, shown e = false := by
    simpa [firstPage, List.filter_eq_nil_iff] using hnil
  by_cases hn : n ≤ rest.length
  · obtain ⟨e, he, hes⟩ := hshown
    have hall := hgap a (rest.take n) (rest.drop n) (by rw [List.take_append_drop, hv])
      (List.length_take_of_le hn) hpage
    exact absurd (hes.symm.trans (hall e he)) (by decide)
  · rwa [firstPage, List.take_of_length_le (by omega)] at hnil

/-- **Going on brings everything** that is shown behind some point. -/
theorem on_of_noGap (hask : AsksAfter key ask shown n v) (hgap : NoGap shown n v) :
    ∀ {a rest : List E}, v = a ++ rest → (∃ e ∈ a, shown e = true) →
      On key ask (firstPage shown n rest) (rest.filter shown) := by
  intro a rest
  induction hlen : rest.length using Nat.strongRecOn generalizing a rest with
  | ind len ih =>
    intro hv hshown
    rcases List.eq_nil_or_concat (firstPage shown n rest) with hnil | ⟨page, e, hpage⟩
    · rw [hnil, hidden_of_firstPage_nil hgap hv hshown hnil]
      exact On.stop
    · rw [List.concat_eq_append] at hpage
      obtain ⟨x, y, hxy, hx, hy⟩ := List.filter_eq_append_iff.mp hpage
      obtain ⟨b, c, hbc, hb, he, hc⟩ := List.filter_eq_cons_iff.mp hy
      -- what stands behind the last that is shown
      have hrest : rest = (x ++ b) ++ e :: (c ++ rest.drop n) := by
        rw [← List.cons_append, ← List.append_assoc, List.append_assoc x, ← hbc, ← hxy,
          List.take_append_drop]
      generalize c ++ rest.drop n = d at hrest
      have hbehind : v = (a ++ (x ++ b)) ++ e :: d := by rw [hv, hrest, ← List.append_assoc]
      have hshort : d.length < len := by
        rw [← hlen, hrest, List.length_append, List.length_cons]
        omega
      have hall : rest.filter shown = page ++ e :: d.filter shown := by
        rw [hrest, List.filter_append, List.filter_append, hx, List.filter_cons_of_pos he,
          List.filter_eq_nil_iff.mpr hb, List.append_nil]
      rw [hpage, hall]
      refine On.more (hask _ e d hbehind) (ih d.length hshort (a := (a ++ (x ++ b)) ++ [e]) rfl ?_ ?_)
      · exact hbehind.trans (List.append_cons ..)
      · exact ⟨e, List.mem_append_right _ List.mem_cons_self, he⟩

/-- **Going on from an entry that is shown brings everything** that is shown behind it, if there is
no gap. -/
theorem on_complete (hask : AsksAfter key ask shown n v) (hgap : NoGap shown n v) {a c : List E}
    {e : E} (hv : v = a ++ e :: c) (he : shown e = true) :
    ask (key e) = some (firstPage shown n c) ∧
      On key ask (firstPage shown n c) (c.filter shown) := by
  refine ⟨hask a e c hv, on_of_noGap hask hgap (a := a ++ [e]) (hv.trans (List.append_cons ..))
    ⟨e, List.mem_append_right _ List.mem_cons_self, he⟩⟩

end Paging
