/-
# Runs

A run of a state machine is a list of events, applied one after the other from the left.  What is
proved of one step is carried over to runs here, once for all machines: an invariant that every step
keeps (`invariant_of_step`), also where only the steps that meet a condition keep it, and where the
condition is just what a step needs, a run keeps the invariant in all its states exactly when all
its steps meet the condition (`throughout_iff`).
-/
import Mathlib.Data.List.Infix

namespace Runs

variable {σ ε : Type*} (step : σ → ε → σ) (ok : σ → ε → Prop)

/-- Every step of the run meets the condition, in the state that it meets. -/
def Throughout : σ → List ε → Prop
  | _, [] => True
  | s, e :: es => ok s e ∧ Throughout (step s e) es

instance decidableThroughout [∀ s e, Decidable (ok s e)] :
    ∀ (s : σ) (es : List ε), Decidable (Throughout step ok s es)
  | _, [] => inferInstanceAs (Decidable True)
  | s, e :: es =>
    have := decidableThroughout (step s e) es
    inferInstanceAs (Decidable (ok s e ∧ Throughout step ok (step s e) es))

variable {step ok}

theorem throughout_and {ok' : σ → ε → Prop} : ∀ (es : List ε) (s : σ), Throughout step ok s es →
    Throughout step ok' s es → Throughout step (fun s e => ok s e ∧ ok' s e) s es
  | [], _, _, _ => trivial
  | e :: es, s, h, h' => ⟨⟨h.1, h'.1⟩, throughout_and es (step s e) h.2 h'.2⟩

theorem invariant_of_step {inv : σ → Prop} (h : ∀ s e, inv s → ok s e → inv (step s e)) :
    ∀ (es : List ε) (s : σ), inv s → Throughout step ok s es → inv (es.foldl step s)
  | [], _, hs, _ => hs
  | e :: es, s, hs, hes => invariant_of_step h es (step s e) (h s e hs hes.1) hes.2

/-- **If the condition is just what a step needs, it is just what a run needs.** -/
theorem throughout_iff {kept inv : σ → Prop} (hkept : ∀ s e, kept s → kept (step s e))
    (h : ∀ s e, kept s → inv s → (inv (step s e) ↔ ok s e)) :
    ∀ (es : List ε) (s : σ), kept s → inv s →
      ((∀ pre, pre <+: es → inv (pre.foldl step s)) ↔ Throughout step ok s es)
  | [], s, _, hs => by
    refine ⟨fun _ => trivial, fun _ pre hpre => ?_⟩
    rw [List.prefix_nil.mp hpre]
    exact hs
  | e :: es, s, hk, hs => by
    have hstep := h s e hk hs
    constructor
    · intro hall
      have hnext : inv (step s e) := hall [e] ⟨es, rfl⟩
      refine ⟨hstep.mp hnext, ?_⟩
      refine (throughout_iff hkept h es (step s e) (hkept s e hk) hnext).mp fun pre hpre => ?_
      exact hall (e :: pre) (List.cons_prefix_cons.mpr ⟨rfl, hpre⟩)
    · rintro ⟨hok, hrest⟩ pre hpre
      cases pre with
      | nil => exact hs
      | cons e' pre =>
        obtain ⟨rfl, hrestpre⟩ := List.cons_prefix_cons.mp hpre
        have ih := throughout_iff hkept h es (step s e') (hkept s e' hk) (hstep.mpr hok)
        exact ih.mpr hrest pre hrestpre

end Runs
