/-
# An answer kept with a generation

What an answer was computed from carries a generation that each change increases.  The answer is
kept with the generation it is for, and asked for again, it counts as long as that is the present
one.  A stamp of 0 says that nothing is kept, so the present generation is never 0.

The generations are numbers without end; the program compares them modulo some `wrap`.  Whatever
changes, a kept answer whose stamp is the present generation is right (`Kept.Current`), and what is
asked for is right unless the generation has gone all the way round since (`Kept.ask_fst`).
-/
import Mathlib.Logic.Function.Basic

namespace Generation

/-- An answer, and the generation it is for. It is not dropped when the facts change; the
generation goes on, and so it is no longer for the present one. -/
structure Kept (V : Type*) where
  stamp : Nat
  value : V
deriving DecidableEq, Repr

namespace Kept

variable {V : Type*} {now next wrap : Nat} {truth truth' : V} {k : Kept V}

/-- The answer: the kept one while its generation is the present one, else a new one to keep. The
comparison is of what is stored in a field of limited width, so it is modulo `wrap`. -/
def ask (wrap now : Nat) (truth : V) (k : Kept V) : V × Kept V :=
  if k.stamp % wrap = now % wrap then (k.value, k) else (truth, ⟨now, truth⟩)

/-- An answer for the present generation is right. What an old one says does not matter, for it is
not looked at; and no answer is for a generation that is still to come. -/
def Current (now : Nat) (truth : V) (k : Kept V) : Prop :=
  k.stamp ≤ now ∧ (k.stamp = now → k.value = truth)

theorem Current.of_zero (hnow : 0 < now) (hk : k.stamp = 0) : k.Current now truth :=
  ⟨by omega, fun heq => by omega⟩

/-- In a later generation, what is kept counts for nothing. -/
theorem Current.later (h : k.Current now truth) (hlt : now < next) : k.Current next truth' :=
  ⟨by have := h.1; omega, fun heq => by have := h.1; omega⟩

theorem Current.ask (h : k.Current now truth) : (k.ask wrap now truth).2.Current now truth := by
  rw [Kept.ask]
  split
  · exact h
  · exact ⟨Nat.le_refl now, fun _ => rfl⟩

/-- **What is asked for is right**, less than a round after it was kept. A full round later the
stamp would look like the present generation again. -/
theorem ask_fst (h : k.Current now truth) (hnear : now < k.stamp + wrap) :
    (k.ask wrap now truth).1 = truth := by
  rw [Kept.ask]
  split
  · next hmod =>
    refine h.2 ?_
    have hle := h.1
    have hdiff : (now - k.stamp) % wrap = 0 := Nat.sub_mod_eq_zero_of_mod_eq hmod.symm
    have hsmall : now - k.stamp < wrap := by omega
    rw [Nat.mod_eq_of_lt hsmall] at hdiff
    omega
  · rfl

end Kept

end Generation
