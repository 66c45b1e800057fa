/-
# What a glob matches

`irc_glob_match` compares a character of the pattern with one of the text before it asks whether
the pattern's is a `*`, so a `*` that meets a `*` of the text takes just this one.  It keeps no
place to go back to then, and misses a text that goes on: `*` does not match `*a`.

Up to this it is right (`glob_right_iff`), and so for every text without a `*`
(`glob_of_clear`).  That it goes back to the last star only is no loss (`Wildcard.Held.of_prefix`).
-/
import SekurIRCd.BanCache
import SekurIRCd.Lib.Wildcard
import Mathlib.Data.List.Forall2

namespace SekurIRCd

open CLib Wildcard

/-- A character of a pattern hits itself up to case, and `?` any. -/
def globHit (d c : Char) : Bool := d.toLower = c.toLower ∨ d = '?'

def globStar (d : Char) : Bool := d == '*'

/-- **The text can be split along the pattern.** This is what a glob is for. -/
def GlobMatches : Text → Text → Prop := Splits globHit globStar

/-- It can be split so that no `*` of the pattern stands before a `*` of the text, unless it takes
just this one. -/
def GlobClear : Text → Text → Prop := Held globHit globStar

/-- What the loop can still find when it goes back: the rest of the pattern behind the last star,
further on in the text. -/
def GlobRetry : Option (Text × Text) → Prop
  | none => False
  | some (sp, st) => ∃ v, v <:+ st.tail ∧ st ≠ [] ∧ GlobClear sp v

/-- Since the last star, the pattern has hit the text character by character. -/
def GlobTrail (p t : Text) : Option (Text × Text) → Prop
  | none => True
  | some (sp, st) => ∃ w x, sp = w ++ p ∧ st = x ++ t ∧ List.Forall₂ (fun k c => globHit k c = true) w x

/-- The text that a star can still be tried on, at most. -/
def globRoom (n : Nat) : Option (Text × Text) → Nat
  | none => n
  | some (_, st) => st.length

/-- Going back to the last star. -/
def globBack (fuel : Nat) : Option (Text × Text) → Bool
  | some (sp, _ :: st) => globLoop fuel sp st (some (sp, st))
  | _ => false

section Loop

variable {p t : Text} {star : Option (Text × Text)}

theorem globLoop_nil (fuel : Nat) (c : Char) (t : Text) (star : Option (Text × Text)) :
    globLoop (fuel + 1) [] (c :: t) star = globBack fuel star := by
  rcases star with _ | ⟨sp, _ | ⟨b, st⟩⟩ <;> rfl

theorem globLoop_cons (fuel : Nat) (d : Char) (p : Text) (c : Char) (t : Text)
    (star : Option (Text × Text)) :
    globLoop (fuel + 1) (d :: p) (c :: t) star =
      if globHit d c then globLoop fuel p t star
      else if globStar d then globLoop fuel p (c :: t) (some (p, c :: t))
      else globBack fuel star := by
  simp only [globHit, decide_eq_true_eq, globStar, beq_iff_eq]
  rcases star with _ | ⟨sp, _ | ⟨b, st⟩⟩ <;> rfl

/-- What can be found further on can be found from here, if the next element can take it. -/
theorem GlobTrail.found (h : GlobTrail p t star) (hr : GlobRetry star) :
    ∃ v, v <:+ t ∧ GlobClear p v := by
  cases star with
  | none => exact absurd hr id
  | some s =>
    obtain ⟨w, x, hsp, hst, hw⟩ := h
    obtain ⟨v, hv, -, hheld⟩ := hr
    rw [hsp] at hheld
    rw [hst] at hv
    exact hheld.of_prefix hw (hv.trans (List.tail_suffix _))

theorem GlobTrail.hit {d c : Char} (h : GlobTrail (d :: p) (c :: t) star)
    (hhit : globHit d c = true) : GlobTrail p t star := by
  cases star with
  | none => trivial
  | some s =>
    obtain ⟨w, x, hsp, hst, hw⟩ := h
    refine ⟨w ++ [d], x ++ [c], by rw [hsp, List.append_assoc]; rfl,
      by rw [hst, List.append_assoc]; rfl, ?_⟩
    exact List.rel_append hw (.cons hhit .nil)

theorem GlobTrail.room {n : Nat} (h : GlobTrail p t star) (ht : t.length ≤ n) :
    t.length ≤ globRoom n star := by
  cases star with
  | none => exact ht
  | some s =>
    obtain ⟨w, x, -, hst, -⟩ := h
    simp only [globRoom, hst, List.length_append]
    omega

theorem globBack_iff {fuel : Nat} (h : ∀ sp b st, star = some (sp, b :: st) →
    (globLoop fuel sp st (some (sp, st)) = true ↔ GlobClear sp st ∨ GlobRetry (some (sp, st)))) :
    globBack fuel star = true ↔ GlobRetry star := by
  match star, h with
  | none, _ => simp [globBack, GlobRetry]
  | some (sp, []), _ => simp [globBack, GlobRetry]
  | some (sp, b :: st), h =>
    rw [globBack, h sp b st rfl]
    constructor
    · rintro (h | ⟨v, hv, -, h⟩)
      · exact ⟨st, List.suffix_rfl, List.cons_ne_nil _ _, h⟩
      · exact ⟨v, hv.trans (List.tail_suffix _), List.cons_ne_nil _ _, h⟩
    · rintro ⟨v, ⟨u, hu⟩, -, h⟩
      rw [List.tail_cons] at hu
      cases u with
      | nil =>
        rw [List.nil_append] at hu
        exact Or.inl (hu ▸ h)
      | cons a u =>
        refine Or.inr ⟨v, ?_, ?_, h⟩
        · rw [← hu]
          exact List.suffix_append u v
        · rw [← hu]
          exact List.cons_ne_nil _ _

/-- **The loop finds what there is to find**, from where it is or further on, if it has turns
enough. The invariant is that since the last star each element has hit its character. -/
theorem globLoop_iff {m n : Nat} (fuel : Nat) : ∀ {p t : Text} {star : Option (Text × Text)},
    GlobTrail p t star → p.length ≤ m → t.length ≤ n →
    (∀ s ∈ star, s.1.length ≤ m ∧ s.2.length ≤ n) →
    globRoom n star * (m + n + 1) + p.length + t.length < fuel →
    (globLoop fuel p t star = true ↔ GlobClear p t ∨ GlobRetry star) := by
  induction fuel with
  | zero => exact fun _ _ _ _ h => absurd h (Nat.not_lt_zero _)
  | succ fuel ih =>
    intro p t star htrail hp ht hstar hfuel
    cases t with
    | nil =>
      have hnil : GlobClear p [] ↔ p.all (· == '*') = true := by
        rw [GlobClear, held_nil_iff, List.all_eq_true]
        rfl
      rw [globLoop, ← hnil]
      refine ⟨Or.inl, fun h => h.elim id fun hr => ?_⟩
      obtain ⟨v, hv, hheld⟩ := htrail.found hr
      rwa [List.suffix_nil.mp hv] at hheld
    | cons c t =>
      have hback : globBack fuel star = true ↔ GlobRetry star := by
        refine globBack_iff fun sp b st hs => ?_
        obtain ⟨hsp, hst⟩ : sp.length ≤ m ∧ (b :: st).length ≤ n := hstar _ hs
        have hroom : (st.length + 1) * (m + n + 1) = st.length * (m + n + 1) + (m + n + 1) := by
          rw [Nat.add_mul, Nat.one_mul]
        simp only [List.length_cons] at hst
        simp only [hs, globRoom, List.length_cons, hroom] at hfuel
        refine ih ⟨[], [], rfl, rfl, .nil⟩ hsp (by omega) (fun s hs' => ?_) ?_
        · obtain rfl := Option.some.inj hs'
          exact ⟨hsp, by simp only; omega⟩
        · simp only [globRoom]
          omega
      cases p with
      | nil =>
        have hnone : ¬ GlobClear [] (c :: t) := fun h => List.cons_ne_nil _ _ h.nil_left
        simp only [globLoop_nil, hback, hnone, false_or]
      | cons d p =>
        have hroom := Nat.mul_le_mul_right (m + n + 1) (htrail.room ht)
        simp only [List.length_cons] at hp ht hfuel hroom
        rw [globLoop_cons]
        by_cases hhit : globHit d c = true
        · have hih := ih (htrail.hit hhit) (by omega) (by omega) hstar (by omega)
          have hheld : GlobClear (d :: p) (c :: t) ↔ GlobClear p t := held_cons_of_hit hhit
          rw [if_pos hhit, hih, hheld]
        · rw [if_neg hhit]
          rw [Bool.not_eq_true] at hhit
          by_cases hk : globStar d = true
          · have htrail' : GlobTrail p (c :: t) (some (p, c :: t)) := ⟨[], [], rfl, rfl, .nil⟩
            have hih := ih htrail' (by omega) (by simpa using ht)
              (fun s hs => by
                obtain rfl := Option.some.inj hs
                exact ⟨by simp only; omega, by simpa using ht⟩)
              (by simp only [globRoom, List.length_cons]; omega)
            have hheld : GlobClear (d :: p) (c :: t) ↔ ∃ v, v <:+ c :: t ∧ GlobClear p v :=
              held_cons_of_star hk hhit
            rw [if_pos hk, hih, hheld]
            constructor
            · rintro (h | ⟨v, hv, -, h⟩)
              · exact Or.inl ⟨_, List.suffix_rfl, h⟩
              · exact Or.inl ⟨v, hv.trans (List.suffix_cons _ _), h⟩
            · intro h
              -- what an earlier star would find is found by this one
              obtain ⟨v, hv, hclear⟩ : ∃ v, v <:+ c :: t ∧ GlobClear p v := by
                rcases h with h | hr
                · exact h
                · obtain ⟨v, hv, hclear⟩ := htrail.found hr
                  obtain ⟨v', hv', hclear'⟩ := hclear.rest
                  exact ⟨v', hv'.trans hv, hclear'⟩
              rcases List.suffix_cons_iff.mp hv with rfl | hv
              · exact Or.inl hclear
              · exact Or.inr ⟨v, hv, List.cons_ne_nil _ _, hclear⟩
          · have hnone : ¬ GlobClear (d :: p) (c :: t) :=
              not_held_cons (Bool.eq_false_iff.mpr hk) hhit
            rw [if_neg hk, hback]
            exact (or_iff_right hnone).symm

end Loop

/-- **What `irc_glob_match` matches** is exactly what can be split in the restricted way; the fuel
it is given is always enough. -/
theorem ircGlobMatch_iff (pattern text : Text) :
    ircGlobMatch pattern text = true ↔ GlobClear pattern text := by
  have hmul : (text.length + 1) * (pattern.length + text.length + 1) =
      text.length * (pattern.length + text.length + 1) + (pattern.length + text.length + 1) := by
    rw [Nat.add_mul, Nat.one_mul]
  have hloop : globLoop ((text.length + 1) * (pattern.length + text.length + 1) + 1) pattern text
      none = true ↔ GlobClear pattern text ∨ GlobRetry none :=
    globLoop_iff _ (show GlobTrail pattern text none from trivial) le_rfl le_rfl
      (fun s hs => absurd hs (by simp)) (by simp only [globRoom, hmul]; omega)
  rw [ircGlobMatch, hloop]
  exact or_iff_left id

/-- **It is right** where a text that can be split can be split so that no star stands before a
star of the text, unless it takes just this one. The condition is on the pattern and
the text only. -/
theorem glob_right_iff (pattern text : Text) :
    (ircGlobMatch pattern text = true ↔ GlobMatches pattern text) ↔
      (GlobMatches pattern text → GlobClear pattern text) := by
  rw [ircGlobMatch_iff]
  exact ⟨fun h => h.mpr, fun h => ⟨Held.splits, h⟩⟩

/-- A text without stars is matched as it should be. -/
theorem glob_of_clear {text : Text} (h : '*' ∉ text) (pattern : Text) :
    ircGlobMatch pattern text = true ↔ GlobMatches pattern text := by
  refine (glob_right_iff pattern text).mpr fun hm => hm.held fun d _ hd c hc => ?_
  obtain rfl : d = '*' := by simpa [globStar] using hd
  have hlower : '*' ≠ c.toLower := fun he => h ((toLower_eq (by decide)).mp he.symm ▸ hc)
  exact decide_eq_false fun hhit => hhit.elim hlower (by decide)

/-- But a star that meets one of the text stays with it. -/
theorem star_misses : ircGlobMatch "*".toList "*a".toList = false ∧
    GlobMatches "*".toList "*a".toList :=
  ⟨by decide +kernel, .run rfl "*a".toList .nil⟩

end SekurIRCd
