/-
# Announced presence

A log says of keys, one entry at a time, that someone is there under them or that no one is.  What
a reader believes of a key is the last word on it.

A belief is good (`Believes`) when there is one, when "there" has someone behind it, and when
whoever is surely there is believed to be.  Between the two lie those who have left without a word:
as long as there are any, a belief may be good and old.  Once there are none it is the truth.
-/
import Mathlib.Data.List.Basic

namespace Presence

variable {N K : Type*} [DecidableEq K] (key : N → K)

/-- The last word on a key. -/
def lastOn (log : List (N × Bool)) (k : K) : Option Bool :=
  ((log.filter fun n => key n.1 = k).getLast?).map Prod.snd

variable {key}

@[simp] theorem lastOn_nil (k : K) : lastOn key [] k = none := rfl

@[simp] theorem lastOn_singleton (n : N) (b : Bool) (k : K) :
    lastOn key [(n, b)] k = if key n = k then some b else none := by
  rw [lastOn, List.filter_singleton]
  split <;> simp_all

/-- The later of two logs has the last word, if it has one. -/
theorem lastOn_append (l m : List (N × Bool)) (k : K) :
    lastOn key (l ++ m) k = (lastOn key m k).or (lastOn key l k) := by
  rw [lastOn, List.filter_append, List.getLast?_append, lastOn, lastOn]
  cases (m.filter fun n => key n.1 = k).getLast? <;> rfl

theorem lastOn_filter (l : List (N × Bool)) {k : K} {p : K → Bool} (hk : p k = true) :
    lastOn key (l.filter fun n => p (key n.1)) k = lastOn key l k := by
  rw [lastOn, List.filter_filter, lastOn]
  congr 2
  refine List.filter_congr fun n _ => ?_
  by_cases hn : key n.1 = k
  · simp [hn, hk]
  · simp [hn]

/-- A belief, with what may be behind it and what surely is there. The two differ by those who are
about to leave. -/
structure Believes (last : Option Bool) (maybe surely : Prop) : Prop where
  known : last ≠ none
  maybe : last = some true → maybe
  surely : surely → last = some true

namespace Believes

variable {last : Option Bool} {maybe surely : Prop} (h : Believes last maybe surely)

include h

/-- When all that may be is surely so, the belief is the truth. -/
theorem exact (hsure : maybe → surely) : last = some true ↔ surely :=
  ⟨fun ht => hsure (h.maybe ht), h.surely⟩

/-- **A word is followed by a good belief**, if it is true, and silence, if it hides nothing. A
change of the table is an instance: it says what may be and what surely is before and after. -/
theorem after {maybe' surely' : Prop} (word : Option Bool)
    (silent : word = none → (maybe → maybe') ∧ (surely' → surely))
    (there : word = some true → maybe') (away : word = some false → ¬ surely') :
    Believes (word.or last) maybe' surely' := by
  cases word with
  | none =>
    obtain ⟨hmaybe, hsurely⟩ := silent rfl
    exact ⟨h.known, fun ht => hmaybe (h.maybe ht), fun hs => h.surely (hsurely hs)⟩
  | some b =>
    cases b with
    | true => exact ⟨by simp, fun _ => there rfl, fun _ => rfl⟩
    | false => exact ⟨by simp, fun ht => absurd ht (by simp), fun hs => absurd hs (away rfl)⟩

end Believes

end Presence
