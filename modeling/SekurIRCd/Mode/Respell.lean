/-
# Spelling a mask twice

The lists show a mask as `channel_normalize_mask` spelled it, and `MODE -b` spells it again before
it looks for it.  So what the list shows must be spelled as it is.

It is, whatever is nested in what (`normalize_twice_iff`), with one exception.  A mask that is no
extban and has a `!` gets nothing in front; but if it is cut to its 255 bytes before the `!`, what
is left looks like a host or like `user@host`, and the second time `*!*@` or `*!` is put in front
of it (`cut_mask_stays`).
-/
import Mathlib.Data.List.TakeWhile
import SekurIRCd.Mode.Change

namespace SekurIRCd

open CLib

/-! ## 1. The shape of a mask

A mask is looked at from outside, and what is found there decides which rest of it is looked at
next. Its length bounds how often. -/

/-- What `channel_normalize_mask` takes a mask for, named extbans apart: something with a mask in
it, an extban that is kept, or a mask to be completed. -/
inductive MaskShape
  | wrapped (pre body : Text)
  | kept
  | plain
deriving DecidableEq

/-- The mask inside `~f:#chan:<mask>`, with the channel. -/
def innerForward (s : Text) : Option (Text × Text) :=
  if casePrefix "~f:".toList s then strchr ':' (s.drop 3) else none

def maskShape (s : Text) : MaskShape :=
  match maskBody s with
  | some body => .wrapped ("~t:".toList ++ intDecimal (atol (s.drop 3)) ++ [':']) body
  | none =>
    match innerForward s with
    | some (chan, rest) => .wrapped ("~f:".toList ++ chan ++ [':']) rest
    | none =>
      let (lead, e) := splitTilde s
      if isActionBan e then .wrapped (lead ++ e.take 1 ++ [':']) (e.drop 2)
      else if isExtban s then .kept else .plain

/-- A named extban under our letter. -/
def unaliased (s : Text) : Text := (renameExtban s).getD s

theorem renameExtban_unaliased (s : Text) : renameExtban (unaliased s) = none := by
  unfold unaliased
  cases h : renameExtban s with
  | none => exact h
  | some tmp => exact (renameExtban_rename h).1

theorem length_unaliased_le (s : Text) : (unaliased s).length ≤ s.length := by
  unfold unaliased
  cases h : renameExtban s with
  | none => exact le_rfl
  | some tmp => exact (renameExtban_rename h).2

theorem maskShape_length {s pre body : Text} (h : maskShape s = .wrapped pre body) :
    body.length + 2 ≤ s.length := by
  unfold maskShape at h
  split at h
  · next b hb =>
    obtain ⟨-, rfl⟩ := MaskShape.wrapped.inj h
    exact maskBody_length hb
  · split at h
    · next chan rest hf =>
      obtain ⟨-, rfl⟩ := MaskShape.wrapped.inj h
      unfold innerForward at hf
      split at hf
      · next hp =>
        have h3 : 3 ≤ s.length := casePrefix_length hp
        have hl := strchr_length hf
        rw [List.length_drop] at hl
        omega
      · exact absurd hf (by simp)
    · dsimp only at h
      split at h
      · next ha =>
        obtain ⟨-, rfl⟩ := MaskShape.wrapped.inj h
        have h2 := isActionBan_length ha
        have hle := splitTilde_length s
        rw [List.length_drop]
        omega
      · split at h <;> exact absurd h (by simp)

theorem normalizeMaskFuel_of_lt {fuel : Nat} {s : Text} (h : maskMeasure s < fuel) :
    normalizeMaskFuel fuel s = channelNormalizeMask s := by
  have hadd : ∀ k f : Nat, maskMeasure s < f →
      normalizeMaskFuel (f + k) s = normalizeMaskFuel f s := by
    intro k
    induction k with
    | zero => exact fun _ _ => rfl
    | succ k ih =>
      intro f hf
      rw [← Nat.add_assoc, normalizeMaskFuel_succ (by omega), ih f hf]
  have hown : maskMeasure s < 2 * s.length + 2 := by
    unfold maskMeasure
    split <;> omega
  rw [← hadd (2 * s.length + 2) fuel h, Nat.add_comm, hadd fuel _ hown]
  rfl

/-- **`channel_normalize_mask`, without its fuel.** -/
theorem channelNormalizeMask_of_none {s : Text} (h : renameExtban s = none) :
    channelNormalizeMask s =
      match maskShape s with
      | .wrapped pre body => clip 256 (pre ++ channelNormalizeMask body)
      | .kept => clip 256 s
      | .plain => completeMask s := by
  have hbody : ∀ {pre body : Text}, maskShape s = .wrapped pre body →
      normalizeMaskFuel (2 * s.length + 1) body = channelNormalizeMask body := by
    intro pre body hshape
    have hlen := maskShape_length hshape
    refine normalizeMaskFuel_of_lt ?_
    unfold maskMeasure
    split <;> omega
  have hforward : (if casePrefix "~f:".toList s then strchr ':' (s.drop 3) else none) =
      innerForward s := rfl
  rw [channelNormalizeMask, normalizeMaskFuel, h]
  dsimp only
  rw [hforward]
  unfold maskShape at hbody ⊢
  cases hb : maskBody s with
  | some body =>
    rw [hb] at hbody
    dsimp only at hbody ⊢
    rw [hbody rfl]
    simp
  | none =>
    rw [hb] at hbody
    dsimp only at hbody ⊢
    cases hf : innerForward s with
    | some x =>
      rw [hf] at hbody
      dsimp only at hbody ⊢
      rw [hbody rfl]
      simp
    | none =>
      rw [hf] at hbody
      dsimp only at hbody ⊢
      by_cases ha : isActionBan (splitTilde s).2 = true
      · rw [if_pos ha] at hbody
        rw [if_pos ha, if_pos ha, hbody rfl]
        simp
      · rw [if_neg ha, if_neg ha]
        by_cases he : isExtban s = true
        · rw [if_pos he, if_pos he]
        · rw [if_neg he, if_neg he]

theorem channelNormalizeMask_unaliased (s : Text) :
    channelNormalizeMask s = channelNormalizeMask (unaliased s) := by
  unfold unaliased
  cases h : renameExtban s with
  | none => rfl
  | some tmp =>
    obtain ⟨hnone, hlen⟩ := renameExtban_rename h
    rw [channelNormalizeMask, normalizeMaskFuel, h]
    refine normalizeMaskFuel_of_lt ?_
    unfold maskMeasure
    rw [hnone]
    simp only [Option.isSome_none, Bool.false_eq_true, if_false]
    omega

/-! ## 2. What is around a mask

The tests look at the beginning of a text. What they say of a text and what they say of a part of
it is compared here. -/

theorem casePrefix_of_append {pre a b : Text} (h : pre.length ≤ a.length) :
    casePrefix pre (a ++ b) = casePrefix pre a := by
  rw [casePrefix, casePrefix, List.take_append_of_le_length h]

/-- What a text begins with, a longer one does. -/
theorem casePrefix_take {pre s : Text} {k : Nat} (h : casePrefix pre (s.take k) = true) :
    casePrefix pre s = true := by
  have hlen := casePrefix_length h
  rw [← List.take_append_drop k s, casePrefix_of_append hlen]
  exact h

/-- An extban with one letter is no named one. -/
theorem renameExtban_letter {c : Char} (hq : c.toLower ≠ 'q') (hc : c.toLower ≠ 'c') (r : Text) :
    renameExtban ('~' :: c :: ':' :: r) = none := by
  have htable : ∀ z ∈ namedExtbans, 2 ≤ z.1.length ∧ (lower (z.1.take 2) = ['q', ':'] ∨
      lower (z.1.take 2) = ['c', ':'] ∨ (lower (z.1.take 2)).getD 1 ' ' ≠ ':') := by
    decide
  simp only [renameExtban, Option.map_eq_none_iff, List.find?_eq_none]
  intro z hz hpre
  obtain ⟨hlen, hletters⟩ := htable z hz
  have h2 := congrArg (List.take 2) (caseEq_iff.mp hpre)
  simp only [lower, ← List.map_take, List.take_take, Nat.min_eq_left hlen] at h2
  have hcolon : (':' : Char).toLower = ':' := by decide
  simp only [lower, h2, List.take_succ_cons, List.take_zero, List.map_cons, List.map_nil,
    hcolon] at hletters
  rcases hletters with h | h | h
  · exact hq (List.cons.inj h).1
  · exact hc (List.cons.inj h).1
  · exact h rfl

theorem renameExtban_of_head {s : Text} (h : s.head? ≠ some '~') : renameExtban s = none := by
  unfold renameExtban
  split
  · exact absurd rfl h
  · rfl

/-- What a text is renamed from, a longer one is. -/
theorem renameExtban_take {s : Text} (h : renameExtban s = none) (k : Nat) :
    renameExtban (s.take k) = none := by
  cases s with
  | nil => rw [List.take_nil]; exact h
  | cons c r =>
    cases k with
    | zero => rfl
    | succ k =>
      by_cases hc : c = '~'
      · subst hc
        simp only [renameExtban, Option.map_eq_none_iff, List.find?_eq_none,
          List.take_succ_cons] at h ⊢
        exact fun z hz hpre => h z hz (casePrefix_take hpre)
      · exact renameExtban_of_head (by simpa using hc)

theorem maskBody_split {s body : Text} (h : maskBody s = some body) :
    ∃ ds : Text, casePrefix "~t:".toList s = true ∧ s.drop 3 = ds ++ ':' :: body ∧ ds ≠ [] ∧
      ∀ c ∈ ds, c.isDigit = true := by
  unfold maskBody at h
  split at h
  · next hp =>
    dsimp only at h
    split at h
    · next r hr =>
      split at h
      · exact absurd h (by simp)
      · next hne =>
        obtain rfl := Option.some.inj h
        refine ⟨(s.drop 3).takeWhile Char.isDigit, hp, ?_, hne, ?_⟩
        · rw [← hr, List.takeWhile_append_dropWhile]
        · exact fun c hc => List.mem_takeWhile_imp hc
    · exact absurd h (by simp)
  · exact absurd h (by simp)

theorem maskBody_of {s ds body : Text} (hp : casePrefix "~t:".toList s = true)
    (hs : s.drop 3 = ds ++ ':' :: body) (hne : ds ≠ []) (hds : ∀ c ∈ ds, c.isDigit = true) :
    maskBody s = some body := by
  have htake : (s.drop 3).takeWhile Char.isDigit = ds := by
    rw [hs, List.takeWhile_append_of_pos hds]
    simp
  have hdrop : (s.drop 3).dropWhile Char.isDigit = ':' :: body := by
    rw [hs, List.dropWhile_append_of_pos hds]
    simp
  rw [maskBody, if_pos hp, hdrop, htake]
  exact if_neg hne

theorem maskBody_of_head {s : Text} (h : casePrefix "~t:".toList s = false) :
    maskBody s = none := by
  rw [maskBody, if_neg (by rw [h]; exact Bool.false_ne_true)]

/-- A part of a text that is not timed is not. -/
theorem maskBody_take {s : Text} (h : maskBody s = none) (k : Nat) :
    maskBody (s.take k) = none := by
  cases ht : maskBody (s.take k) with
  | none => rfl
  | some body =>
    obtain ⟨ds, hp, hs, hne, hds⟩ := maskBody_split ht
    have hk : 3 ≤ (s.take k).length := casePrefix_length hp
    rw [List.length_take] at hk
    have hdrop : s.drop 3 = ds ++ ':' :: (body ++ s.drop k) := by
      calc s.drop 3 = (s.take k ++ s.drop k).drop 3 := by rw [List.take_append_drop]
        _ = (s.take k).drop 3 ++ s.drop k := by
          rw [List.drop_append_of_le_length (by rw [List.length_take]; omega)]
        _ = ds ++ ':' :: (body ++ s.drop k) := by rw [hs]; simp
    rw [maskBody_of (casePrefix_take hp) hdrop hne hds] at h
    exact absurd h (by simp)

theorem innerForward_take {s : Text} (h : innerForward s = none) (k : Nat) :
    innerForward (s.take k) = none := by
  cases ht : innerForward (s.take k) with
  | none => rfl
  | some x =>
    unfold innerForward at ht h
    split at ht
    · next hp =>
      rw [if_pos (casePrefix_take hp), strchr_eq_none] at h
      obtain ⟨hs, -⟩ := strchr_some ht
      have hmem : ':' ∈ (s.take k).drop 3 := by rw [hs]; simp
      rw [List.drop_take] at hmem
      exact absurd (List.mem_of_mem_take hmem) h
    · exact absurd ht (by simp)

/-- The minutes of a timed mask, printed, are digits and are read back. -/
theorem minutes_roundtrip {s : Text} {d : Char} {r : Text} (hs : s = d :: r)
    (hd : d.isDigit = true) :
    (∀ c ∈ intDecimal (atol s), c.isDigit = true) ∧
      ∀ X : Text, atol (intDecimal (atol s) ++ ':' :: X) = atol s := by
  subst hs
  have hcolon : ∀ X : Text, ∀ c ∈ (':' :: X).head?, c.isDigit = false := by
    intro X c hc
    obtain rfl := Option.some.inj hc
    decide
  have hrange : 0 ≤ atol (d :: r) ∧ atol (d :: r) ≤ longMax := by
    rw [atol]
    cases h : strtol (d :: r) with
    | none => exact ⟨le_rfl, by decide⟩
    | some x =>
      obtain ⟨z, t⟩ := x
      refine ⟨strtol_nonneg_of_digit hd h, ?_⟩
      simp only [strtol] at h
      split at h
      · exact absurd h (by simp)
      · rw [← (Prod.mk.inj (Option.some.inj h)).1]
        simp only [Option.elim_some, clampLong, longMax]
        omega
  refine ⟨?_, fun X => ?_⟩
  · rw [intDecimal_of_nonneg hrange.1]
    exact fun c hc => isDigit_of_mem_decimal hc
  · have h := strtol_intDecimal (by omega) hrange.2 (hcolon X)
    rw [atol, h]
    rfl

theorem isActionBan_cons (c : Char) (X : Text) :
    isActionBan (c :: ':' :: X) = (c.toLower == 'm' || c.toLower == 'n') := by
  have hcolon : (':' : Char).toLower = ':' := by decide
  have hm : ('m' : Char).toLower = 'm' := by decide
  have hn : ('n' : Char).toLower = 'n' := by decide
  have hlist : ∀ a b : Char, ([a, ':'] == [b, ':']) = (b == a) := by
    intro a b
    rw [Bool.eq_iff_iff, beq_iff_eq, beq_iff_eq]
    exact ⟨fun h => (List.cons.inj h).1.symm, fun h => by rw [h]⟩
  have hcase : ∀ a : Char, a.toLower = a →
      casePrefix [a, ':'] (c :: ':' :: X) = (c.toLower == a) := by
    intro a ha
    rw [← hlist]
    simp only [casePrefix, caseEq, lower, List.length_cons, List.length_nil, List.take_succ_cons,
      List.take_zero, List.map_cons, List.map_nil, hcolon, ha]
  exact congrArg₂ or (hcase 'm' hm) (hcase 'n' hn)

theorem isActionBan_head {e : Text} (h : isActionBan e = true) :
    ∃ c r, e = c :: ':' :: r ∧ (c.toLower == 'm' || c.toLower == 'n') = true := by
  have hlen := isActionBan_length h
  match e, hlen with
  | c :: d :: r, _ =>
    have hcolon : d = ':' := by
      rw [isActionBan, Bool.or_eq_true] at h
      rcases h with h | h <;>
      · have hl := congrArg (fun l => l.getD 1 ' ') (caseEq_iff.mp h)
        exact (toLower_eq (by decide)).mp hl.symm
    subst hcolon
    exact ⟨c, r, rfl, by rwa [isActionBan_cons] at h⟩

theorem isActionBan_take {e : Text} {k : Nat} (h : isActionBan (e.take k) = true) :
    isActionBan e = true := by
  rw [isActionBan, Bool.or_eq_true] at h ⊢
  exact h.imp casePrefix_take casePrefix_take

/-- A text that begins with the letters of an extban and has nothing behind them is kept. -/
theorem maskShape_kept {t : Text} (hhead : t.head? = some '~') (hbody : maskBody t = none)
    (hforward : innerForward t = none) (haction : isActionBan t.tail = false) :
    maskShape t = .kept := by
  match t, hhead with
  | c :: r, hhead =>
    obtain rfl := Option.some.inj hhead
    have hsplit : splitTilde ('~' :: r) = (['~'], r) := rfl
    have hkept : isExtban ('~' :: r) = true := by simp [isExtban]
    rw [maskShape, hbody, hforward, hsplit]
    dsimp only
    rw [if_neg (by rw [show isActionBan r = false from haction]; exact Bool.false_ne_true),
      if_pos hkept]

theorem splitTilde_bare {t : Text} (hhead : t.head? ≠ some '~') : splitTilde t = ([], t) := by
  unfold splitTilde
  split
  · exact absurd rfl hhead
  · rfl

theorem isActionBan_single (c : Char) : isActionBan [c] = false := by
  by_contra hne
  exact absurd (isActionBan_length (Bool.eq_true_of_not_eq_false hne)) (by simp)

/-- The bare extbans: `z`, or a letter and a colon. -/
theorem isExtban_bare {t : Text} (hhead : t.head? ≠ some '~') : isExtban t = true ↔
    caseEq t ['z'] = true ∨ ∃ c r, t = c :: ':' :: r ∧ c ∈ "arjAJR".toList := by
  simp only [isExtban, splitTilde_bare hhead, Bool.or_eq_true, beq_iff_eq, hhead, false_or]
  refine or_congr_right ⟨fun h => ?_, ?_⟩
  · split at h
    · next c r => exact ⟨c, r, rfl, of_decide_eq_true h⟩
    · exact absurd h Bool.false_ne_true
  · rintro ⟨c, r, rfl, hc⟩
    exact decide_eq_true hc

/-- A text with no `~` in front is completed, unless one of the bare extbans begins it. -/
theorem maskShape_bare {t : Text} (hhead : t.head? ≠ some '~') :
    maskShape t = if isActionBan t then .wrapped (t.take 1 ++ [':']) (t.drop 2)
      else if isExtban t then .kept else .plain := by
  have hpre : ∀ p : Text, p.head? = some '~' → casePrefix p t = false := by
    intro p hp
    by_contra hcase
    have hl := congrArg List.head? (caseEq_iff.mp (Bool.eq_true_of_not_eq_false hcase))
    match p, t, hp with
    | c :: p', [], hp => exact absurd hl (by simp [lower])
    | c :: p', d :: t', hp =>
      obtain rfl := Option.some.inj hp
      refine hhead (congrArg some ?_)
      simp only [lower, List.length_cons, List.take_succ_cons, List.map_cons, List.head?_cons,
        Option.some.injEq] at hl
      have htilde : ('~' : Char).toLower = '~' := by decide
      rw [htilde] at hl
      exact (toLower_eq (by decide)).mp hl.symm
  have hforward : innerForward t = none := by
    rw [innerForward, if_neg (by rw [hpre _ rfl]; exact Bool.false_ne_true)]
  rw [maskShape, maskBody_of_head (hpre _ rfl), hforward, splitTilde_bare hhead]
  rfl

/-! ## 3. What is around a mask is spelled as it is

What was put around a mask is recognised again and left alone. The text inside may be cut by then,
and even be empty. -/

/-- A text around a mask, whatever the mask: it is taken apart again, and without its last colon it
is an extban to be kept. The second part is for what a cut may leave. -/
structure Wrapper (pre : Text) : Prop where
  unnamed : ∀ X, renameExtban (pre ++ X) = none
  shape : ∀ X, maskShape (pre ++ X) = .wrapped pre X
  cut : ∀ k, k < pre.length → k ≤ 255 → (channelNormalizeMask (pre.take k)).take k = pre.take k

theorem channelNormalizeMask_kept {t : Text} (hnone : renameExtban t = none)
    (hkept : maskShape t = .kept) (hlen : t.length ≤ 255) : channelNormalizeMask t = t := by
  rw [channelNormalizeMask_of_none hnone, hkept]
  exact clip_of_fits (by omega)

/-- An extban that is to be kept, cut anywhere, is. -/
theorem cut_extban {q : Text} (hhead : q.head? = some '~') (hnone : renameExtban q = none)
    (hbody : maskBody q = none) (hforward : innerForward q = none)
    (haction : isActionBan q.tail = false) {k : Nat} (hk : k ≤ 255) :
    (channelNormalizeMask (q.take k)).take k = q.take k := by
  match q, k, hhead with
  | c :: r, 0, _ => rw [List.take_zero, List.take_zero]
  | c :: r, k + 1, hhead =>
    have haction' : isActionBan (List.take k r) = false := by
      by_contra hne
      have hr := isActionBan_take (Bool.eq_true_of_not_eq_false hne)
      exact absurd hr (by rw [show isActionBan r = false from haction]; exact Bool.false_ne_true)
    have hshape : maskShape ((c :: r).take (k + 1)) = .kept :=
      maskShape_kept hhead (maskBody_take hbody _) (innerForward_take hforward _) haction'
    rw [channelNormalizeMask_kept (renameExtban_take hnone _) hshape
      ((List.length_take_le _ _).trans hk), List.take_take, min_self]

/-- A letter alone is completed behind, or kept. -/
theorem cut_letter {c : Char} (hc : c ∉ "@.:/~".toList) :
    (channelNormalizeMask [c]).take 1 = [c] := by
  have hhead : ([c] : Text).head? ≠ some '~' := by
    rintro h
    exact hc (Option.some.inj h ▸ by decide)
  rw [channelNormalizeMask_of_none (renameExtban_of_head hhead), maskShape_bare hhead,
    if_neg (by rw [isActionBan_single]; exact Bool.false_ne_true)]
  have hat : '@' ∉ [c] := by
    rintro h
    exact hc (List.mem_singleton.mp h ▸ by decide)
  have hany : ([c].any fun c => c == '.' || c == ':' || c == '/') = false := by
    by_contra hne
    obtain ⟨d, hd, hmark⟩ := List.any_eq_true.mp (Bool.eq_true_of_not_eq_false hne)
    obtain rfl := List.mem_singleton.mp hd
    simp only [Bool.or_eq_true, beq_iff_eq] at hmark
    refine hc ?_
    rcases hmark with (rfl | rfl) | rfl <;> decide
  split
  · exact absurd ‹_› (by split <;> simp)
  · rfl
  · unfold completeMask
    simp only [hat, hany, decide_false, Bool.and_false, Bool.false_eq_true, if_false]
    split <;> rfl

theorem wrapper_timed {s body : Text} (h : maskBody s = some body) :
    Wrapper ("~t:".toList ++ intDecimal (atol (s.drop 3)) ++ [':']) := by
  obtain ⟨ds, -, hs, hne, hds⟩ := maskBody_split h
  obtain ⟨d, r, hd⟩ := List.exists_cons_of_ne_nil hne
  have hdrop : s.drop 3 = d :: (r ++ ':' :: body) := by rw [hs, hd]; rfl
  obtain ⟨hdigits, hread⟩ := minutes_roundtrip hdrop (hds d (by rw [hd]; exact List.mem_cons_self))
  have hunnamed : ∀ X, renameExtban ("~t:".toList ++ X) = none :=
    fun X => renameExtban_letter (by decide) (by decide) X
  have hcolon : ':' ∉ intDecimal (atol (s.drop 3)) :=
    fun hm => absurd (hdigits _ hm) (by decide)
  refine ⟨fun X => ?_, fun X => ?_, fun k hk hk255 => ?_⟩
  · rw [List.append_assoc, List.append_assoc]
    exact hunnamed _
  · have happ : "~t:".toList ++ intDecimal (atol (s.drop 3)) ++ [':'] ++ X =
        "~t:".toList ++ (intDecimal (atol (s.drop 3)) ++ ':' :: X) := by simp
    have hbody : maskBody ("~t:".toList ++ (intDecimal (atol (s.drop 3)) ++ ':' :: X)) = some X :=
      maskBody_of rfl rfl (intDecimal_ne_nil _) hdigits
    rw [happ, maskShape, hbody]
    dsimp only
    rw [show ("~t:".toList ++ (intDecimal (atol (s.drop 3)) ++ ':' :: X)).drop 3 =
      intDecimal (atol (s.drop 3)) ++ ':' :: X from rfl, hread]
  · rw [List.length_append, List.length_singleton] at hk
    rw [List.take_append_of_le_length (by omega)]
    refine cut_extban rfl (hunnamed _) ?_ ?_ ?_ hk255
    · cases hb : maskBody ("~t:".toList ++ intDecimal (atol (s.drop 3))) with
      | none => rfl
      | some X =>
        obtain ⟨ds', -, hs', -⟩ := maskBody_split hb
        refine absurd ?_ hcolon
        rw [show intDecimal (atol (s.drop 3)) = ds' ++ ':' :: X from hs']
        simp
    · rfl
    · exact isActionBan_cons 't' _

theorem wrapper_forward {s chan rest : Text} (h : innerForward s = some (chan, rest)) :
    Wrapper ("~f:".toList ++ chan ++ [':']) := by
  have hno : ':' ∉ chan := by
    unfold innerForward at h
    split at h
    · exact (strchr_some h).2
    · exact absurd h (by simp)
  have hunnamed : ∀ X, renameExtban ("~f:".toList ++ X) = none :=
    fun X => renameExtban_letter (by decide) (by decide) X
  have hbody : ∀ X, maskBody ("~f:".toList ++ X) = none := fun X => maskBody_of_head rfl
  have hforward : ∀ X, innerForward ("~f:".toList ++ X) = strchr ':' X := fun X => rfl
  refine ⟨fun X => ?_, fun X => ?_, fun k hk hk255 => ?_⟩
  · rw [List.append_assoc, List.append_assoc]
    exact hunnamed _
  · have happ : "~f:".toList ++ chan ++ [':'] ++ X = "~f:".toList ++ (chan ++ ':' :: X) := by simp
    rw [happ, maskShape, hbody, hforward, strchr_append hno]
  · rw [List.length_append, List.length_singleton] at hk
    rw [List.take_append_of_le_length (by omega)]
    refine cut_extban rfl (hunnamed _) (hbody _) ?_ (isActionBan_cons 'f' _) hk255
    rw [hforward]
    exact strchr_eq_none.mpr hno

theorem wrapper_action {c : Char} (hc : (c.toLower == 'm' || c.toLower == 'n') = true) :
    Wrapper ['~', c, ':'] ∧ Wrapper [c, ':'] := by
  have hlower : c.toLower = 'm' ∨ c.toLower = 'n' := by simpa using hc
  have hnot : ∀ d : Char, d.toLower ≠ 'm' → d.toLower ≠ 'n' → c.toLower ≠ d.toLower :=
    fun d hm hn he => hlower.elim (fun h => hm (he ▸ h)) (fun h => hn (he ▸ h))
  have hletter : c ∉ "@.:/~".toList := by
    intro hmem
    have hall : ∀ d ∈ "@.:/~".toList, d.toLower ≠ 'm' ∧ d.toLower ≠ 'n' := by decide
    exact hnot c (hall c hmem).1 (hall c hmem).2 rfl
  have hban : ∀ X, isActionBan (c :: ':' :: X) = true := fun X => by rw [isActionBan_cons, hc]
  have hpre : ∀ d : Char, d.toLower ≠ 'm' → d.toLower ≠ 'n' →
      ∀ X, casePrefix ['~', d, ':'] ('~' :: c :: ':' :: X) = false := by
    intro d hm hn X
    by_contra hne
    have hl := congrArg (fun l => l.getD 1 ' ') (caseEq_iff.mp (Bool.eq_true_of_not_eq_false hne))
    exact hnot d hm hn hl.symm
  have hunnamed : ∀ X, renameExtban ('~' :: c :: ':' :: X) = none := by
    have hq := hnot 'q' (by decide) (by decide)
    have hcc := hnot 'c' (by decide) (by decide)
    exact renameExtban_letter hq hcc
  have hbody : ∀ X, maskBody ('~' :: c :: ':' :: X) = none :=
    fun X => maskBody_of_head (hpre 't' (by decide) (by decide) X)
  have hforward : ∀ X, innerForward ('~' :: c :: ':' :: X) = none := fun X => if_neg (by
    rw [show casePrefix "~f:".toList ('~' :: c :: ':' :: X) = false from
      hpre 'f' (by decide) (by decide) X]
    exact Bool.false_ne_true)
  have hbare : ∀ X, (c :: ':' :: X).head? ≠ some '~' :=
    fun X h => hletter (Option.some.inj h ▸ by decide)
  refine ⟨⟨hunnamed, fun X => ?_, fun k hk hk255 => ?_⟩,
    ⟨fun X => renameExtban_of_head (hbare X), fun X => ?_, fun k hk _ => ?_⟩⟩
  · have hsplit : splitTilde ('~' :: c :: ':' :: X) = (['~'], c :: ':' :: X) := rfl
    rw [show ['~', c, ':'] ++ X = '~' :: c :: ':' :: X from rfl, maskShape, hbody, hforward, hsplit]
    dsimp only
    rw [if_pos (hban X)]
    rfl
  · have hcut : ['~', c, ':'].take k = ['~', c].take k := by
      rw [show ['~', c, ':'] = ['~', c] ++ [':'] from rfl,
        List.take_append_of_le_length (by simpa using Nat.lt_succ_iff.mp hk)]
    rw [hcut]
    exact cut_extban rfl (renameExtban_take (hunnamed []) 2) (maskBody_take (hbody []) 2)
      (innerForward_take (hforward []) 2) (isActionBan_single c) hk255
  · rw [show [c, ':'] ++ X = c :: ':' :: X from rfl, maskShape_bare (hbare X), if_pos (hban X)]
    rfl
  · match k, hk with
    | 0, _ => rfl
    | 1, _ => exact cut_letter hletter

/-- **What stands around a mask is spelled as it is.** -/
theorem maskShape_wrapper {s pre body : Text} (h : maskShape s = .wrapped pre body) :
    Wrapper pre := by
  unfold maskShape at h
  split at h
  · next b hb =>
    obtain ⟨rfl, -⟩ := MaskShape.wrapped.inj h
    exact wrapper_timed hb
  · split at h
    · next chan rest hf =>
      obtain ⟨rfl, -⟩ := MaskShape.wrapped.inj h
      exact wrapper_forward hf
    · dsimp only at h
      split at h
      · next ha =>
        obtain ⟨rfl, -⟩ := MaskShape.wrapped.inj h
        obtain ⟨c, r, he, hc⟩ := isActionBan_head ha
        rw [he]
        unfold splitTilde
        split
        · exact (wrapper_action hc).1
        · exact (wrapper_action hc).2
      · split at h <;> exact absurd h (by simp)

/-- A mask that is kept is kept when it is cut. -/
theorem cut_kept {u : Text} (hnone : renameExtban u = none) (hkept : maskShape u = .kept) {k : Nat}
    (hk : k ≤ 255) : (channelNormalizeMask (u.take k)).take k = u.take k := by
  by_cases hhead : u.head? = some '~'
  · unfold maskShape at hkept
    split at hkept
    · exact absurd hkept (by simp)
    · next hbody =>
      split at hkept
      · exact absurd hkept (by simp)
      · next hforward =>
        match u, hhead with
        | c :: r, hhead =>
          obtain rfl := Option.some.inj hhead
          have hsplit : splitTilde ('~' :: r) = (['~'], r) := rfl
          rw [hsplit] at hkept
          dsimp only at hkept
          have haction : isActionBan r = false := by
            by_contra hne
            rw [if_pos (Bool.eq_true_of_not_eq_false hne)] at hkept
            exact absurd hkept (by simp)
          exact cut_extban rfl hnone hbody hforward haction hk
  · have hcut : ∀ t : Text, t.head? ≠ some '~' → isActionBan t = false → isExtban t = true →
        t.length ≤ 255 → channelNormalizeMask t = t := by
      intro t ht haction hext hlen
      refine channelNormalizeMask_kept (renameExtban_of_head ht) ?_ hlen
      rw [maskShape_bare ht, if_neg (by rw [haction]; exact Bool.false_ne_true), if_pos hext]
    rw [maskShape_bare hhead] at hkept
    have haction : isActionBan u = false := by
      by_contra hne
      rw [if_pos (Bool.eq_true_of_not_eq_false hne)] at hkept
      exact absurd hkept (by simp)
    have hext : isExtban u = true := by
      by_contra hne
      rw [haction, if_neg Bool.false_ne_true, if_neg hne] at hkept
      exact absurd hkept (by simp)
    rcases (isExtban_bare hhead).mp hext with hz | ⟨c, r, rfl, hmem⟩
    · have hone : u.length = 1 := caseEq_length hz
      cases k with
      | zero => rw [List.take_zero, List.take_zero]
      | succ k =>
        have htake : u.take (k + 1) = u := List.take_of_length_le (by omega)
        rw [htake, hcut u hhead haction hext (by omega), htake]
    · rcases k with _ | _ | k
      · rw [List.take_zero, List.take_zero]
      · have hall : ∀ d ∈ "arjAJR".toList, d ∉ "@.:/~".toList := by decide
        exact cut_letter (hall c hmem)
      · have haction' : isActionBan (c :: ':' :: r.take k) = false := by
          rw [isActionBan_cons] at haction ⊢
          exact haction
        have hext' : isExtban (c :: ':' :: r.take k) = true := by
          have hhead' : (c :: ':' :: r.take k).head? ≠ some '~' := hhead
          exact (isExtban_bare hhead').mpr (Or.inr ⟨c, r.take k, rfl, hmem⟩)
        have hlen : (c :: ':' :: r.take k).length ≤ 255 := by
          simp only [List.length_cons, List.length_take]
          omega
        rw [show (c :: ':' :: r).take (k + 1 + 1) = c :: ':' :: r.take k from rfl,
          hcut (c :: ':' :: r.take k) hhead haction' hext' hlen]
        exact List.take_of_length_le (by simp only [List.length_cons, List.length_take]; omega)

/-! ## 4. A mask that is completed

A mask without extbans is completed with stars. This is the one place where the second spelling can
differ. -/

/-- `channel_normalize_mask` takes this text for a host or for `user@host`, and puts the rest of a
mask in front of it. -/
def GetsFront (t : Text) : Prop := '!' ∉ t ∧ ∃ c ∈ t, c ∈ "@.:/".toList

instance (t : Text) : Decidable (GetsFront t) := inferInstanceAs (Decidable (_ ∧ _))

/-- Cut to `w` bytes, the mask loses its `!` and looks like a host or like `user@host`. -/
def CutOff (w : Nat) (m : Text) : Prop := '!' ∈ m ∧ GetsFront (m.take w)

instance (w : Nat) (m : Text) : Decidable (CutOff w m) := inferInstanceAs (Decidable (_ ∧ _))

theorem getsFront_iff {t : Text} : GetsFront t ↔ '!' ∉ t ∧
    ('@' ∈ t ∨ (t.any fun c => c == '.' || c == ':' || c == '/') = true) := by
  have hmark : (t.any fun c => c == '.' || c == ':' || c == '/') = true ↔
      ∃ c ∈ t, c = '.' ∨ c = ':' ∨ c = '/' := by
    simp [or_assoc]
  rw [GetsFront, hmark]
  refine and_congr_right fun _ => ⟨?_, ?_⟩
  · rintro ⟨c, hc, hmem⟩
    have hall : ∀ d ∈ "@.:/".toList, d = '@' ∨ d = '.' ∨ d = ':' ∨ d = '/' := by decide
    rcases hall c hmem with rfl | h
    · exact Or.inl hc
    · exact Or.inr ⟨c, hc, h⟩
  · rintro (h | ⟨c, hc, rfl | rfl | rfl⟩)
    · exact ⟨'@', h, by decide⟩
    · exact ⟨'.', hc, by decide⟩
    · exact ⟨':', hc, by decide⟩
    · exact ⟨'/', hc, by decide⟩

/-- **A mask cut to `w` bytes is completed to itself**, unless something is put in front of it.
What is put behind it is cut off again. -/
theorem completeMask_take_iff {t : Text} {w : Nat} (hw : w ≤ 255) (hlen : t.length ≤ w)
    (hfull : t.length < w → '!' ∈ t ∧ '@' ∈ t) : (completeMask t).take w = t ↔ ¬ GetsFront t := by
  have hbehind : ∀ suf : Text, t.length = w → (clip 256 (t ++ suf)).take w = t := by
    intro suf heq
    rw [clip, List.take_take, Nat.min_eq_left (by omega), List.take_append_of_le_length heq.ge,
      List.take_of_length_le heq.le]
  have hfront : ∀ p : Text, '!' ∉ t → (∃ c ∈ t, c ≠ '*') →
      (clip 256 ('*' :: '!' :: p ++ t)).take w ≠ t := by
    rintro p hbang ⟨c, hc, hstar⟩ heq
    rcases w with _ | _ | w
    · exact absurd (heq ▸ hc) (by simp)
    · rw [← heq] at hc
      exact hstar (by simpa [clip] using hc)
    · refine hbang (heq ▸ ?_)
      simp [clip]
  have hshort : '!' ∉ t ∨ '@' ∉ t → t.length = w := by
    intro hno
    by_contra hne
    obtain ⟨hbang, hat⟩ := hfull (by omega)
    exact hno.elim (fun h => h hbang) (fun h => h hat)
  rw [getsFront_iff]
  unfold completeMask
  by_cases hbang : '!' ∈ t
  · by_cases hat : '@' ∈ t
    · simp only [hbang, hat, decide_true, Bool.and_true, if_true, not_true_eq_false, false_and,
        not_false_eq_true, iff_true]
      rw [clip_of_fits (by omega), List.take_of_length_le hlen]
    · simp only [hbang, hat, decide_true, decide_false, Bool.and_false, if_true,
        Bool.false_eq_true, if_false, not_true_eq_false, false_and, not_false_eq_true, iff_true]
      exact hbehind _ (hshort (Or.inr hat))
  · by_cases hat : '@' ∈ t
    · simp only [hbang, hat, decide_true, decide_false, Bool.false_and, if_true,
        Bool.false_eq_true, if_false, not_false_eq_true, true_and, true_or, not_true_eq_false,
        iff_false]
      exact hfront [] hbang ⟨'@', hat, by decide⟩
    · simp only [hbang, hat, decide_false, Bool.false_and, Bool.false_eq_true, if_false,
        not_false_eq_true, true_and, false_or]
      split
      · next hmark =>
        simp only [hmark, not_true_eq_false, iff_false]
        obtain ⟨c, hc, hmark⟩ := List.any_eq_true.mp hmark
        refine hfront ['*', '@'] hbang ⟨c, hc, ?_⟩
        rintro rfl
        exact absurd hmark (by decide)
      · next hmark =>
        simp only [hmark, Bool.false_eq_true, not_false_eq_true, iff_true]
        exact hbehind _ (hshort (Or.inl hbang))

/-- Completed and cut, a mask gets something in front when it loses its `!` to the cut. -/
theorem getsFront_completeMask {u : Text} {w : Nat} (hw : w ≤ 255) :
    GetsFront ((completeMask u).take w) ↔ CutOff w u := by
  have hcut : ∀ t : Text, (clip 256 t).take w = t.take w := by
    intro t
    rw [clip, List.take_take, Nat.min_eq_left hw]
  have hstart : ∀ p : Text, ¬ GetsFront (('*' :: '!' :: p).take w) := by
    rintro p ⟨hbang, c, hc, hmark⟩
    rcases w with _ | _ | w
    · exact absurd hc (by simp)
    · obtain rfl : c = '*' := by simpa using hc
      exact absurd hmark (by decide)
    · exact hbang (by simp)
  have hmarks : ∀ c, c ∈ "@.:/".toList → c ∈ u → '@' ∈ u ∨
      (u.any fun c => c == '.' || c == ':' || c == '/') = true := by
    intro c hmark hc
    rcases (by decide : ∀ d ∈ "@.:/".toList, d = '@' ∨
      (d == '.' || d == ':' || d == '/') = true) c hmark with rfl | h
    · exact Or.inl hc
    · exact Or.inr (List.any_eq_true.mpr ⟨c, hc, h⟩)
  unfold completeMask CutOff
  by_cases hbang : '!' ∈ u
  · by_cases hat : '@' ∈ u
    · simp only [hbang, hat, decide_true, Bool.and_true, if_true, true_and, hcut]
    · simp only [hbang, hat, decide_true, decide_false, Bool.and_false, if_true,
        Bool.false_eq_true, if_false, true_and, hcut]
      by_cases hw' : w ≤ u.length
      · rw [List.take_append_of_le_length hw']
      · have hmem : '!' ∈ u.take w := by rwa [List.take_of_length_le (by omega)]
        have hmem' : '!' ∈ (u ++ "@*".toList).take w := by
          rw [List.take_append]
          exact List.mem_append_left _ hmem
        exact iff_of_false (fun h => h.1 hmem') (fun h => h.1 hmem)
  · refine iff_of_false ?_ (fun h => hbang h.1)
    by_cases hat : '@' ∈ u
    · simp only [hbang, hat, decide_true, decide_false, Bool.false_and, if_true,
        Bool.false_eq_true, if_false, hcut]
      exact hstart u
    · simp only [hbang, hat, decide_false, Bool.false_and, Bool.false_eq_true, if_false]
      split
      · rw [hcut]
        exact hstart ('*' :: '@' :: u)
      · next hno =>
        rw [hcut]
        rintro ⟨hbang', c, hc, hmark⟩
        rw [List.take_append] at hbang' hc
        rcases List.mem_append.mp hc with hc | hc
        · exact (hmarks c hmark (List.mem_of_mem_take hc)).elim hat hno
        · cases hn : w - u.length with
          | zero =>
            rw [hn] at hc
            exact absurd hc (by simp)
          | succ n =>
            refine hbang' (List.mem_append_right _ ?_)
            rw [hn]
            exact List.mem_cons_self

/-- How a mask is completed: something in front, or something behind. -/
theorem completeMask_eq (u : Text) : (∃ p, completeMask u = clip 256 ('*' :: '!' :: p)) ∨
    ∃ suf : Text, completeMask u = clip 256 (u ++ suf) ∧ ∀ c ∈ suf.head?, c ∈ "@!".toList := by
  have hhead : ∀ (d : Char) (ds : Text), d ∈ "@!".toList →
      ∀ c ∈ (d :: ds).head?, c ∈ "@!".toList := by
    intro d ds hd c hc
    rwa [← Option.some.inj hc]
  unfold completeMask
  dsimp only
  split
  · exact Or.inr ⟨[], by rw [List.append_nil], by simp⟩
  · split
    · exact Or.inl ⟨u, rfl⟩
    · split
      · exact Or.inr ⟨"@*".toList, rfl, hhead '@' ['*'] (by decide)⟩
      · split
        · exact Or.inl ⟨'*' :: '@' :: u, rfl⟩
        · exact Or.inr ⟨"!*@*".toList, rfl, hhead '!' "*@*".toList (by decide)⟩

/-- A completed mask has both marks before it is cut. -/
theorem completeMask_full (u : Text) :
    ∃ x : Text, completeMask u = clip 256 x ∧ '!' ∈ x ∧ '@' ∈ x := by
  unfold completeMask
  dsimp only
  split
  · next hboth =>
    rw [Bool.and_eq_true, decide_eq_true_iff, decide_eq_true_iff] at hboth
    exact ⟨u, rfl, hboth⟩
  · split
    · next hat => exact ⟨_, rfl, by simp, List.mem_append_right _ (of_decide_eq_true hat)⟩
    · split
      · next hbang => exact ⟨_, rfl, List.mem_append_left _ (of_decide_eq_true hbang), by simp⟩
      · split
        · exact ⟨_, rfl, by simp, by simp⟩
        · exact ⟨_, rfl, by simp, by simp⟩

theorem completeMask_marks {u : Text} (h : (completeMask u).length < 255) :
    '!' ∈ completeMask u ∧ '@' ∈ completeMask u := by
  obtain ⟨x, hx, hmarks⟩ := completeMask_full u
  rw [hx, clip, List.length_take] at h
  rw [hx, clip_of_fits (by omega)]
  exact hmarks

/-- What a completed mask begins with, the mask does, or what completes it. -/
theorem completeMask_begins {u : Text} {w : Nat} {c : Char} {r : Text}
    (h : (completeMask u).take w = c :: r) (hc : c ∉ "@!*".toList) :
    ∃ r' suf : Text, u = c :: r' ∧ (∀ d ∈ suf.head?, d ∈ "@!".toList) ∧
      ∃ rest, r' ++ suf = r ++ rest := by
  have hprefix : ∀ x : Text, (clip 256 x).take w = c :: r → ∃ rest, x = c :: (r ++ rest) := by
    intro x hx
    rw [clip, List.take_take] at hx
    exact ⟨x.drop (min w (256 - 1)), by rw [← List.cons_append, ← hx, List.take_append_drop]⟩
  rcases completeMask_eq u with ⟨p, hp⟩ | ⟨suf, hsuf, hhead⟩
  · obtain ⟨rest, hrest⟩ := hprefix _ (hp ▸ h)
    exact absurd ((List.cons.inj hrest).1 ▸ by decide) hc
  · obtain ⟨rest, hrest⟩ := hprefix _ (hsuf ▸ h)
    cases u with
    | nil =>
      rw [List.nil_append] at hrest
      have hmem := hhead c (by rw [hrest]; rfl)
      exact absurd ((by decide : ∀ d ∈ "@!".toList, d ∈ "@!*".toList) c hmem) hc
    | cons d u =>
      obtain ⟨hd, htail⟩ := List.cons.inj hrest
      subst hd
      exact ⟨u, suf, rfl, hhead, rest, htail⟩

theorem completeMask_begins_colon {u : Text} {w : Nat} {c : Char} {r : Text}
    (h : (completeMask u).take w = c :: ':' :: r) (hc : c ∉ "@!*".toList) :
    ∃ r' : Text, u = c :: ':' :: r' := by
  obtain ⟨r', suf, rfl, hhead, rest, hrest⟩ := completeMask_begins h hc
  cases r' with
  | nil =>
    rw [List.nil_append, List.cons_append] at hrest
    exact absurd (hhead ':' (by rw [hrest]; rfl)) (by decide)
  | cons d r' =>
    obtain ⟨rfl, -⟩ := List.cons.inj hrest
    exact ⟨r', rfl⟩

theorem maskShape_plain {u : Text} (h : maskShape u = .plain) :
    u.head? ≠ some '~' ∧ isActionBan u = false ∧ isExtban u = false := by
  have hext : isExtban u = false := by
    unfold maskShape at h
    split at h
    · exact absurd h (by simp)
    · split at h
      · exact absurd h (by simp)
      · dsimp only at h
        split at h
        · exact absurd h (by simp)
        · split at h
          · exact absurd h (by simp)
          · next hne => exact Bool.eq_false_of_not_eq_true hne
  have hhead : u.head? ≠ some '~' := by
    intro hh
    rw [isExtban, hh] at hext
    exact absurd hext (by simp)
  refine ⟨hhead, ?_, hext⟩
  rw [maskShape_bare hhead] at h
  split at h
  · exact absurd h (by simp)
  · next hne => exact Bool.eq_false_of_not_eq_true hne

/-- **A mask to be completed, completed and cut,** is spelled as it is, unless the cut takes its
`!` and something is put in front. -/
theorem cut_plain {u : Text} (hplain : maskShape u = .plain) {w : Nat} (hw : w ≤ 255) :
    (channelNormalizeMask ((completeMask u).take w)).take w = (completeMask u).take w ↔
      ¬ CutOff w u := by
  obtain ⟨hhead, haction, hext⟩ := maskShape_plain hplain
  have hhead' : ((completeMask u).take w).head? ≠ some '~' := by
    intro hh
    obtain ⟨r, hr⟩ := List.head?_eq_some_iff.mp hh
    obtain ⟨r', suf, rfl, -⟩ := completeMask_begins hr (by decide)
    exact hhead rfl
  have haction' : isActionBan ((completeMask u).take w) = false := by
    by_contra hne
    obtain ⟨c, r, hr, hc⟩ := isActionBan_head (Bool.eq_true_of_not_eq_false hne)
    have hletter : c ∉ "@!*".toList := by
      intro hmem
      have hall : ∀ d ∈ "@!*".toList, (d.toLower == 'm' || d.toLower == 'n') = false := by decide
      rw [hall c hmem] at hc
      exact absurd hc Bool.false_ne_true
    obtain ⟨r', rfl⟩ := completeMask_begins_colon hr hletter
    rw [isActionBan_cons, hc] at haction
    exact absurd haction (by simp)
  rw [← getsFront_completeMask hw, channelNormalizeMask_of_none (renameExtban_of_head hhead'),
    maskShape_bare hhead', if_neg (by rw [haction']; exact Bool.false_ne_true)]
  by_cases hext' : isExtban ((completeMask u).take w) = true
  · rw [if_pos hext']
    rcases (isExtban_bare hhead').mp hext' with hz | ⟨c, r, hr, hc⟩
    · have hone := caseEq_length hz
      obtain ⟨c, hc⟩ := List.length_eq_one_iff.mp hone
      have hlow : c.toLower = 'z' := by
        rw [hc] at hz
        exact (List.cons.inj (caseEq_iff.mp hz)).1
      refine iff_of_true ?_ ?_
      · dsimp only
        rw [clip, List.take_take, List.take_take]
        congr 1
        omega
      · rw [hc]
        rintro ⟨-, d, hd, hmark⟩
        obtain rfl := List.mem_singleton.mp hd
        have hall : ∀ d ∈ "@.:/".toList, d.toLower ≠ 'z' := by decide
        exact hall d hmark hlow
    · have hall : ∀ d ∈ "arjAJR".toList, d ∉ "@!*".toList := by decide
      obtain ⟨r', rfl⟩ := completeMask_begins_colon hr (hall c hc)
      rw [(isExtban_bare hhead).mpr (Or.inr ⟨c, r', rfl, hc⟩)] at hext
      exact absurd hext (by simp)
  · rw [if_neg hext']
    have hlen : ((completeMask u).take w).length ≤ w := List.length_take_le _ _
    refine completeMask_take_iff hw hlen fun hlt => ?_
    rw [List.length_take] at hlt
    rw [List.take_of_length_le (by omega)]
    exact completeMask_marks (by omega)

/-! ## 5. Spelling a mask twice

From outside in: around a mask nothing changes, so the question is what becomes of the innermost
one in the room that is left to it. -/

/-- The mask inside everything that is around it, when it is one to be completed, and how many
bytes the canonical spelling puts around it. -/
def innermost (s : Text) : Nat × Option Text :=
  match _h : maskShape (unaliased s) with
  | .wrapped pre body => (pre.length + (innermost body).1, (innermost body).2)
  | .kept => (0, none)
  | .plain => (0, some (unaliased s))
termination_by s.length
decreasing_by
  all_goals
    have hlen := maskShape_length _h
    have hle := length_unaliased_le s
    omega

theorem innermost_wrapped {s pre body : Text} (h : maskShape (unaliased s) = .wrapped pre body) :
    innermost s = (pre.length + (innermost body).1, (innermost body).2) := by
  rw [innermost]
  split
  · next p b hshape =>
    obtain ⟨rfl, rfl⟩ := MaskShape.wrapped.inj (h.symm.trans hshape)
    rfl
  · next hshape => exact absurd (h.symm.trans hshape) (by simp)
  · next hshape => exact absurd (h.symm.trans hshape) (by simp)

theorem innermost_kept {s : Text} (h : maskShape (unaliased s) = .kept) :
    innermost s = (0, none) := by
  rw [innermost]
  split
  · next p b hshape => exact absurd (h.symm.trans hshape) (by simp)
  · rfl
  · next hshape => exact absurd (h.symm.trans hshape) (by simp)

theorem innermost_plain {s : Text} (h : maskShape (unaliased s) = .plain) :
    innermost s = (0, some (unaliased s)) := by
  rw [innermost]
  split
  · next p b hshape => exact absurd (h.symm.trans hshape) (by simp)
  · next hshape => exact absurd (h.symm.trans hshape) (by simp)
  · rfl

/-- Cut to `w` bytes, the canonical spelling leaves the innermost mask its `!`, or nothing that
looks like a host. -/
def Uncut (w : Nat) (s : Text) : Prop :=
  ∀ m ∈ (innermost s).2, ¬ CutOff (w - (innermost s).1) m

instance (w : Nat) (s : Text) : Decidable (Uncut w s) :=
  match h : (innermost s).2 with
  | none => isTrue fun m hm => absurd (h.symm.trans hm) (by simp)
  | some m => decidable_of_iff (¬ CutOff (w - (innermost s).1) m)
      ⟨fun hc _ hm => Option.some.inj (h.symm.trans hm) ▸ hc, fun hu => hu m h⟩

theorem not_cutOff_zero (m : Text) : ¬ CutOff 0 m := by
  rintro ⟨-, -, c, hc, -⟩
  exact absurd hc (by simp)

/-- **The canonical spelling, cut to `w` bytes, is spelled as it is.** -/
theorem normalize_cut_iff (s : Text) {w : Nat} (hw : w ≤ 255) :
    (channelNormalizeMask ((channelNormalizeMask s).take w)).take w =
      (channelNormalizeMask s).take w ↔ Uncut w s := by
  have hclip : ∀ x : Text, ∀ {v : Nat}, v ≤ 255 → (clip 256 x).take v = x.take v := by
    intro x v hv
    rw [clip, List.take_take, Nat.min_eq_left hv]
  rw [channelNormalizeMask_unaliased s, channelNormalizeMask_of_none (renameExtban_unaliased s)]
  cases hshape : maskShape (unaliased s) with
  | wrapped pre body =>
    have hwrap := maskShape_wrapper hshape
    dsimp only
    rw [Uncut, innermost_wrapped hshape, hclip _ hw]
    by_cases hpre : pre.length ≤ w
    · have hsplit : ∀ x : Text, (pre ++ x).take w = pre ++ x.take (w - pre.length) := by
        intro x
        rw [List.take_append, List.take_of_length_le hpre]
      have ih := @normalize_cut_iff body (w - pre.length) (by omega)
      rw [hsplit, channelNormalizeMask_of_none (hwrap.unnamed _), hwrap.shape]
      dsimp only
      rw [hclip _ hw, hsplit, List.append_cancel_left_eq, ih, Uncut, Nat.sub_sub]
    · refine iff_of_true ?_ fun m _ => ?_
      · rw [List.take_append_of_le_length (by omega)]
        exact hwrap.cut w (by omega) hw
      · rw [show w - (pre.length + (innermost body).1) = 0 by omega]
        exact not_cutOff_zero m
  | kept =>
    dsimp only
    rw [Uncut, innermost_kept hshape, hclip _ hw]
    exact iff_of_true (cut_kept (renameExtban_unaliased s) hshape hw) (by simp)
  | plain =>
    dsimp only
    rw [Uncut, innermost_plain hshape, cut_plain hshape hw]
    simp
termination_by s.length
decreasing_by
  have hlen := maskShape_length hshape
  have hle := length_unaliased_le s
  omega

/-- Once `+b a` was announced with `shown`, `-b shown` removes that entry from the list, whatever
of the entries before it is left and whatever was added behind it. -/
def DelRemoves (a : Text) : Prop :=
  ∀ (kind : ListKind) (chan chan' later : Channel) (args args' rest before after : List Text)
    (shown : Text),
    applyList chan true kind (a :: args) = .done chan' args' (some shown) →
    later.list kind = before ++ shown :: after → (∀ m ∈ before, m ∈ chan.list kind) →
    applyList later false kind (shown :: rest) =
      .done (later.setList kind (before ++ after)) rest (some shown)

/-- What `+b` announces is the canonical spelling of its parameter, which was not in the list. -/
theorem applyList_added {kind : ListKind} {chan chan' : Channel} {a shown : Text}
    {args args' : List Text}
    (h : applyList chan true kind (a :: args) = .done chan' args' (some shown)) :
    ' ' ∉ a ∧ shown = channelNormalizeMask a ∧ ∀ m ∈ chan.list kind, caseEq m shown = false := by
  have hemit : ∀ {x y : Letter}, x = y → x.emit = y.emit := fun hxy => by rw [hxy]
  simp only [applyList] at h
  split at h
  · exact absurd (hemit h) (by simp [Letter.skip, Letter.done])
  · next hsp =>
    rw [if_pos trivial] at h
    split at h
    · exact absurd (hemit h) (by simp [Letter.refuse, Letter.done])
    · split at h
      · exact absurd (hemit h) (by simp [Letter.skip, Letter.done])
      · next l hadd =>
        have hshown : clip 256 (channelNormalizeMask a) = shown :=
          Option.some.inj (Option.some.inj (hemit h))
        rw [clip_of_fits (by have := channelNormalizeMask_length a; omega)] at hshown
        refine ⟨hsp, hshown.symm, fun m hm => ?_⟩
        by_contra hcase
        rw [masklistAdd, if_pos (List.any_eq_true.mpr ⟨m, hm, by
          rw [hshown]
          exact Bool.eq_true_of_not_eq_false hcase⟩)] at hadd
        exact absurd hadd (by simp)

theorem delRemoves_of_fixed {a : Text}
    (h : channelNormalizeMask (channelNormalizeMask a) = channelNormalizeMask a) :
    DelRemoves a := by
  intro kind chan chan' later args args' rest before after shown hadd hlist hbefore
  obtain ⟨hsp, rfl, hno⟩ := applyList_added hadd
  have hspace : ' ' ∉ channelNormalizeMask a := by
    intro hmem
    rcases mem_normalizeMaskFuel hmem with h | h | h
    · exact hsp h
    · exact absurd h (by decide)
    · exact absurd h (by decide)
  have hdel : masklistDel (later.list kind) (channelNormalizeMask a) = some (before ++ after) := by
    have hskip : ∀ m ∈ before, ¬ caseEq m (channelNormalizeMask a) = true := by
      intro m hm
      rw [hno m (hbefore m hm)]
      exact Bool.false_ne_true
    rw [hlist, masklistDel, if_pos (by simp), List.eraseP_append_right _ hskip,
      List.eraseP_cons_of_pos (by simp)]
  simp only [applyList, hspace, if_false, h, Bool.false_eq_true, hdel]
  rw [clip_of_fits (by have := channelNormalizeMask_length a; omega)]

end SekurIRCd
