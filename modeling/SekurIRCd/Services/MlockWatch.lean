/-
# MLOCK: what is put back

ChanServ's MODE watcher collects, letter by letter, what a line changed against the lock, in small
buffers, and sends it back as one MODE line.

What it collects is a list of the lock's own demands (`fixes_run`), of which fifteen under each sign
have room, and the ircd reads the line it prints letter by letter (`svcMode_correction`).  So the
lock holds again exactly when every letter that was changed against it is among those the watcher
read so, and the ircd takes it (`mlock_restored_iff`).  A letter that is read with another argument
than the ircd applied, behind `-k`, is not seen (`unkey_hides_limit`).
-/
import SekurIRCd.Services.MlockApply

namespace SekurIRCd

open CLib CLib.Signed

/-! ## 1. What is put back

What should be put back is said as a list of demands, without buffers, and what the buffers hold is
a part of it. -/

/-- A change goes against what the lock wants of its letter. -/
def Against (d w : Signed Text) : Prop :=
  w.letter = d.letter ∧
    if d.add = true then w.add = false ∨ ∃ a ∈ w.arg, some a ≠ d.arg else w.add = true

instance (d w : Signed Text) : Decidable (Against d w) := inferInstanceAs (Decidable (_ ∧ _))

theorem against_plus {c : Char} {a arg : Option Text} {add : Bool} :
    Against ⟨true, c, a⟩ ⟨add, c, arg⟩ ↔ add = false ∨ ∃ x ∈ arg, some x ≠ a := by
  simp [Against]

theorem against_minus {c : Char} {a arg : Option Text} {add : Bool} :
    Against ⟨false, c, a⟩ ⟨add, c, arg⟩ ↔ add = true := by
  simp [Against]

/-- After one more letter: what the lock wants of it, a letter without a parameter only once. -/
def Mlock.answer (m : Mlock) (ds : List (Signed Text)) (w : Signed Text) : List (Signed Text) :=
  match m.demands.find? fun d => Against d w with
  | some d => if d.letter ∈ mlockFlags ∧ d ∈ ds then ds else ds ++ [d]
  | .none => ds

/-- What is to be put back after some letters, without a limit. -/
def Mlock.answers (m : Mlock) (ws : List (Signed Text)) : List (Signed Text) :=
  ws.foldl m.answer []

/-- The part under a sign. -/
def under (sign : Bool) (ds : List (Signed Text)) : List (Signed Text) :=
  ds.filter fun d => d.add == sign

/-- What is put back: fifteen letters under each sign. -/
def Mlock.putBack (m : Mlock) (ws : List (Signed Text)) : List (Signed Text) :=
  (under true (m.answers ws)).take 15 ++ (under false (m.answers ws)).take 15

/-- The buffers for what is to be put back. -/
def fixesOf (ds : List (Signed Text)) : Fixes where
  on := clip 16 ((under true ds).map Signed.letter)
  off := clip 16 ((under false ds).map Signed.letter)
  args := clip 200 (joinSep ' ' (argsOf (under true ds)))
  offArgs := clip 40 (argsOf (under false ds)).flatten

theorem under_concat (sign : Bool) (ds : List (Signed Text)) (d : Signed Text) :
    under sign (ds ++ [d]) = if d.add = sign then under sign ds ++ [d] else under sign ds := by
  rw [under, List.filter_append]
  by_cases h : d.add = sign
  · rw [if_pos h, List.filter_cons_of_pos (by simpa using h)]
    rfl
  · rw [if_neg h, List.filter_cons_of_neg (by simpa using h), List.filter_nil, List.append_nil]
    rfl

theorem mem_under {sign : Bool} {ds : List (Signed Text)} {d : Signed Text} :
    d ∈ under sign ds ↔ d ∈ ds ∧ d.add = sign := by
  simp [under]

section Answers

variable {m : Mlock} {ds ws : List (Signed Text)} {d w : Signed Text}

theorem Mlock.Accepted.demand_inj (h : m.Accepted) {d d' : Signed Text} (hd : d ∈ m.demands)
    (hd' : d' ∈ m.demands) (hl : d.letter = d'.letter) : d = d' :=
  List.inj_on_of_nodup_map h.distinct hd hd' hl

theorem Mlock.Accepted.answer_of_against (h : m.Accepted) (hd : d ∈ m.demands) (ha : Against d w)
    (ds : List (Signed Text)) :
    m.answer ds w = if d.letter ∈ mlockFlags ∧ d ∈ ds then ds else ds ++ [d] := by
  have hfind : (m.demands.find? fun d => Against d w) = some d := by
    cases hf : m.demands.find? fun d => Against d w with
    | none => exact absurd ha (by simpa using List.find?_eq_none.mp hf d hd)
    | some d' =>
      have ha' : Against d' w := by simpa using List.find?_some hf
      rw [h.demand_inj (List.mem_of_find?_eq_some hf) hd (ha'.1.symm.trans ha.1)]
  rw [Mlock.answer, hfind]

theorem Mlock.Accepted.answer_param (h : m.Accepted) (hd : d ∈ m.demands) (ha : Against d w)
    (hp : d.letter ∉ mlockFlags) (ds : List (Signed Text)) : m.answer ds w = ds ++ [d] := by
  rw [h.answer_of_against hd ha, if_neg fun hx => hp hx.1]

theorem Mlock.Accepted.answer_flag (h : m.Accepted) (hd : d ∈ m.demands) (ha : Against d w)
    (hf : d.letter ∈ mlockFlags) (ds : List (Signed Text)) :
    m.answer ds w = if d ∈ ds then ds else ds ++ [d] := by
  rw [h.answer_of_against hd ha]
  by_cases hmem : d ∈ ds
  · rw [if_pos ⟨hf, hmem⟩, if_pos hmem]
  · rw [if_neg fun hx => hmem hx.2, if_neg hmem]

theorem Mlock.answer_of_not (hno : ∀ d ∈ m.demands, ¬ Against d w) (ds : List (Signed Text)) :
    m.answer ds w = ds := by
  have hfind : (m.demands.find? fun d => Against d w) = Option.none :=
    List.find?_eq_none.mpr fun d hd => by simpa using hno d hd
  rw [Mlock.answer, hfind]

theorem Mlock.answer_subset (hds : ∀ d ∈ ds, d ∈ m.demands) (w : Signed Text) :
    ∀ d ∈ m.answer ds w, d ∈ m.demands := by
  intro d hd
  unfold Mlock.answer at hd
  split at hd
  · rename_i d' hf
    split at hd
    · exact hds d hd
    · rcases List.mem_append.mp hd with hd | hd
      · exact hds d hd
      · obtain rfl := List.mem_singleton.mp hd
        exact List.mem_of_find?_eq_some hf
  · exact hds d hd

theorem Mlock.answers_subset (m : Mlock) (ws : List (Signed Text)) :
    ∀ d ∈ m.answers ws, d ∈ m.demands := by
  induction ws using List.reverseRecOn with
  | nil => exact fun d hd => absurd hd (by simp [Mlock.answers])
  | append_singleton ws w ih =>
    rw [Mlock.answers, List.foldl_append]
    exact Mlock.answer_subset ih w

end Answers

/-! ## 2. The watcher's buffers

The buffers grow letter by letter, and a letter that finds no room is left out with its argument. -/

section Buffers

variable {m : Mlock} {ds ws : List (Signed Text)} {d w : Signed Text}

/-- The wanted parameter of a letter, as it is stored. -/
theorem mlockParam_withMlock (rec : ChanRec) {c : Char} {want : Text}
    (h : (rec.withMlock m).mlockParam c = some want) :
    c ∈ mlockParams ∧ (want ≠ [] → (c, want) ∈ m.locked) ∧
      ∀ v, (c, v) ∈ m.locked → v = want := by
  have hparams : mlockParams = ['k', 'l', 'f', 'j', 'L'] := rfl
  simp only [ChanRec.mlockParam, ChanRec.withMlock] at h
  have hcases : c = 'k' ∧ m.key = want ∨ c = 'l' ∧ m.limit = want ∨ c = 'f' ∧ m.flood = want ∨
      c = 'j' ∧ m.jt = want ∨ c = 'L' ∧ m.redirect = want := by
    repeat' split at h
    all_goals first
      | (obtain rfl := Option.some.inj h; simp [*])
      | exact absurd h (by simp)
  refine ⟨?_, fun hne => Mlock.mem_locked_iff.mpr ⟨hne, ?_⟩, fun v hv => ?_⟩
  · rcases hcases with ⟨rfl, -⟩ | ⟨rfl, -⟩ | ⟨rfl, -⟩ | ⟨rfl, -⟩ | ⟨rfl, -⟩ <;> simp [hparams]
  · rcases hcases with ⟨hc, hw⟩ | ⟨hc, hw⟩ | ⟨hc, hw⟩ | ⟨hc, hw⟩ | ⟨hc, hw⟩ <;> simp [hc, hw]
  · obtain ⟨-, hv⟩ := Mlock.mem_locked_iff.mp hv
    rcases hcases with ⟨rfl, rfl⟩ | ⟨rfl, rfl⟩ | ⟨rfl, rfl⟩ | ⟨rfl, rfl⟩ | ⟨rfl, rfl⟩ <;>
      simpa using hv

theorem mlockParam_none {rec : ChanRec} {c : Char} (h : rec.mlockParam c = Option.none) :
    c ∉ mlockParams := by
  have hparams : mlockParams = ['k', 'l', 'f', 'j', 'L'] := rfl
  intro hc
  simp only [hparams, List.mem_cons, List.not_mem_nil, or_false] at hc
  rcases hc with rfl | rfl | rfl | rfl | rfl <;> simp [ChanRec.mlockParam] at h

theorem Mlock.mem_demands_iff {d : Signed Text} : d ∈ m.demands ↔
    (∃ c ∈ m.on, d = ⟨true, c, Option.none⟩) ∨ (∃ x ∈ m.locked, d = ⟨true, x.1, some x.2⟩) ∨
      ∃ c ∈ m.off, d = ⟨false, c, if c = 'k' then some ['*'] else Option.none⟩ := by
  simp only [Mlock.demands, List.mem_append, List.mem_map, or_assoc, eq_comm]

theorem off_mem_demands {c : Char} (h : c ∈ m.off) :
    (⟨false, c, if c = 'k' then some ['*'] else Option.none⟩ : Signed Text) ∈ m.demands :=
  Mlock.mem_demands_iff.mpr (Or.inr (Or.inr ⟨c, h, rfl⟩))

theorem on_mem_demands {c : Char} (h : c ∈ m.on) :
    (⟨true, c, Option.none⟩ : Signed Text) ∈ m.demands :=
  Mlock.mem_demands_iff.mpr (Or.inl ⟨c, h, rfl⟩)

theorem clip_under_concat {sign : Bool} {c : Char} {arg : Option Text} :
    clip 16 ((under sign (ds ++ [⟨sign, c, arg⟩])).map Signed.letter) =
      strncat 16 (clip 16 ((under sign ds).map Signed.letter)) [c] := by
  rw [under_concat, if_pos rfl, List.map_append, strncat, clip_append_clip]
  rfl

theorem argsOf_under_concat {sign : Bool} {c : Char} {arg : Option Text} :
    argsOf (under sign (ds ++ [⟨sign, c, arg⟩])) = argsOf (under sign ds) ++ arg.toList := by
  rw [under_concat, if_pos rfl, argsOf_append, argsOf_cons]
  simp

theorem under_concat_of_ne {sign : Bool} (h : d.add ≠ sign) :
    under sign (ds ++ [d]) = under sign ds := by
  rw [under_concat, if_neg h]

theorem fixesOf_concat_flag {c : Char} : fixesOf (ds ++ [⟨true, c, Option.none⟩]) =
    { fixesOf ds with on := strncat 16 (fixesOf ds).on [c] } := by
  have hoff : under false (ds ++ [⟨true, c, Option.none⟩]) = under false ds :=
    under_concat_of_ne (by simp)
  rw [fixesOf, clip_under_concat, argsOf_under_concat, hoff, Option.toList_none, List.append_nil]
  rfl

theorem fixesOf_concat_param (hds : ∀ d ∈ ds, ∀ a ∈ d.arg, a ≠ []) {c : Char} {v : Text} :
    fixesOf (ds ++ [⟨true, c, some v⟩]) =
      { fixesOf ds with
        on := strncat 16 (fixesOf ds).on [c]
        args := strncat 200 (strncat 200 (fixesOf ds).args
          (if (fixesOf ds).args = [] then [] else [' '])) v } := by
  have hwords : ∀ v ∈ argsOf (under true ds), v ≠ [] := by
    intro v hv
    obtain ⟨d, hd, hdv⟩ := List.mem_filterMap.mp hv
    exact hds d (mem_under.mp hd).1 v hdv
  have hoff : under false (ds ++ [⟨true, c, some v⟩]) = under false ds :=
    under_concat_of_ne (by simp)
  rw [fixesOf, clip_under_concat, argsOf_under_concat, hoff, Option.toList_some,
    ← strncat_word (by decide) hwords v]
  rfl

theorem fixesOf_concat_off {c : Char} {arg : Option Text} :
    fixesOf (ds ++ [⟨false, c, arg⟩]) =
      { fixesOf ds with
        off := strncat 16 (fixesOf ds).off [c]
        offArgs := strncat 40 (fixesOf ds).offArgs arg.toList.flatten } := by
  have hon : under true (ds ++ [⟨false, c, arg⟩]) = under true ds := under_concat_of_ne (by simp)
  rw [fixesOf, clip_under_concat, argsOf_under_concat, hon, List.flatten_append, ← clip_append_clip]
  rfl

theorem offArgs_none : strncat 40 (fixesOf ds).offArgs (Option.none : Option Text).toList.flatten =
    (fixesOf ds).offArgs := by
  rw [strncat, Option.toList_none, List.flatten_nil, fixesOf, clip_append_clip, List.append_nil]

/-- A flag is in its buffer once, if there is room. -/
theorem flag_once (l : Text) (c : Char) :
    (if c ∉ clip 16 l ∧ (clip 16 l).length < 15 then strncat 16 (clip 16 l) [c] else clip 16 l) =
      if c ∈ l then clip 16 l else strncat 16 (clip 16 l) [c] := by
  by_cases hc : c ∈ l
  · rw [if_pos hc]
    refine if_neg ?_
    rintro ⟨hno, hlen⟩
    have hwhole : clip 16 l = l := by
      rw [clip, List.length_take] at hlen
      exact List.take_of_length_le (by omega)
    exact hno (hwhole.symm ▸ hc)
  · rw [if_neg hc]
    by_cases hlen : (clip 16 l).length < 15
    · exact if_pos ⟨fun h => hc (mem_of_mem_clip h), hlen⟩
    · have hfull : strncat 16 (clip 16 l) [c] = clip 16 l := by
        rw [strncat, clip, List.take_append_of_le_length (by omega), clip, List.take_take]
        rfl
      rw [hfull, ite_self]

/-- A flag's demand is there when its letter is. -/
theorem mem_letters_iff (h : m.Accepted) (hds : ∀ d ∈ ds, d ∈ m.demands) (hd : d ∈ m.demands) :
    d.letter ∈ (under d.add ds).map Signed.letter ↔ d ∈ ds := by
  constructor
  · intro hl
    obtain ⟨d', hd', heq⟩ := List.mem_map.mp hl
    have hmem := (mem_under.mp hd').1
    rwa [← h.demand_inj (hds d' hmem) hd heq]
  · exact fun hmem => List.mem_map_of_mem (mem_under.mpr ⟨hmem, rfl⟩)

theorem Mlock.Accepted.arg_ne_nil (h : m.Accepted) (hd : d ∈ m.demands) : ∀ a ∈ d.arg, a ≠ [] :=
  fun a ha => h.args_ne_nil a (List.mem_filterMap.mpr ⟨d, hd, ha⟩)

theorem fixesOf_answer_on (h : m.Accepted) (hds : ∀ d ∈ ds, d ∈ m.demands) {c : Char}
    (hd : (⟨true, c, Option.none⟩ : Signed Text) ∈ m.demands) (hf : c ∈ mlockFlags)
    (ha : Against ⟨true, c, Option.none⟩ w) : fixesOf (m.answer ds w) =
      { fixesOf ds with
        on := if c ∉ (fixesOf ds).on ∧ (fixesOf ds).on.length < 15 then
          strncat 16 (fixesOf ds).on [c] else (fixesOf ds).on } := by
  have hbuf : (if c ∉ (fixesOf ds).on ∧ (fixesOf ds).on.length < 15 then
      strncat 16 (fixesOf ds).on [c] else (fixesOf ds).on) =
        if (⟨true, c, Option.none⟩ : Signed Text) ∈ ds then (fixesOf ds).on
        else strncat 16 (fixesOf ds).on [c] :=
    (flag_once _ c).trans (if_congr (mem_letters_iff h hds hd) rfl rfl)
  rw [h.answer_flag hd ha hf, hbuf]
  by_cases hin : (⟨true, c, Option.none⟩ : Signed Text) ∈ ds
  · rw [if_pos hin, if_pos hin]
  · rw [if_neg hin, if_neg hin, fixesOf_concat_flag]

theorem fixesOf_answer_off (h : m.Accepted) (hds : ∀ d ∈ ds, d ∈ m.demands) {c : Char}
    (hd : (⟨false, c, Option.none⟩ : Signed Text) ∈ m.demands) (hf : c ∈ mlockFlags)
    (ha : Against ⟨false, c, Option.none⟩ w) : fixesOf (m.answer ds w) =
      { fixesOf ds with
        off := if c ∉ (fixesOf ds).off ∧ (fixesOf ds).off.length < 15 then
          strncat 16 (fixesOf ds).off [c] else (fixesOf ds).off } := by
  have hbuf : (if c ∉ (fixesOf ds).off ∧ (fixesOf ds).off.length < 15 then
      strncat 16 (fixesOf ds).off [c] else (fixesOf ds).off) =
        if (⟨false, c, Option.none⟩ : Signed Text) ∈ ds then (fixesOf ds).off
        else strncat 16 (fixesOf ds).off [c] :=
    (flag_once _ c).trans (if_congr (mem_letters_iff h hds hd) rfl rfl)
  rw [h.answer_flag hd ha hf, hbuf]
  by_cases hin : (⟨false, c, Option.none⟩ : Signed Text) ∈ ds
  · rw [if_pos hin, if_pos hin]
  · rw [if_neg hin, if_neg hin, fixesOf_concat_off, offArgs_none]

/-- **One letter in the watcher's loop.** -/
theorem fixes_letter (h : m.Accepted) (rec : ChanRec) (hds : ∀ d ∈ ds, d ∈ m.demands)
    (hw : w.letter ∈ mlockFlags → w.arg = Option.none) :
    Fixes.letter (rec.withMlock m) (fixesOf ds) w = fixesOf (m.answer ds w) := by
  obtain ⟨add, c, arg⟩ := w
  have hon : (rec.withMlock m).mlock = m.on := rfl
  have hoff : (rec.withMlock m).mlockOff = m.off := rfl
  have hflags : ∀ c ∈ mlockFlags, c ∉ mlockParams ∧ c ∉ "ohvqabeI".toList ∧ c ≠ 'k' := by decide
  have hparams : ∀ c ∈ mlockParams, c ∉ mlockFlags ∧ c ∉ "ohvqabeI".toList := by decide
  have hne : ∀ d ∈ ds, ∀ a ∈ d.arg, a ≠ [] := fun d hd => h.arg_ne_nil (hds d hd)
  simp only [Fixes.letter, hon, hoff]
  by_cases hlist : c ∈ "ohvqabeI".toList
  · -- no lock has such a letter
    have hno : ∀ d ∈ m.demands, ¬ Against d ⟨add, c, arg⟩ := by
      rintro d hd ⟨rfl, -⟩
      rcases h.lockable d hd with hl | hl
      · exact (hflags _ hl).2.1 hlist
      · exact (hparams _ hl).2 hlist
    rw [if_pos hlist, Mlock.answer_of_not hno]
  rw [if_neg hlist]
  cases hp : (rec.withMlock m).mlockParam c with
  | some want =>
    obtain ⟨hc, hlocked, hwant⟩ := mlockParam_withMlock rec hp
    have hnf := (hparams c hc).1
    simp only
    by_cases hb1 : add = true ∧ c ∈ m.off
    · -- set, and forced off
      obtain ⟨rfl, hoffc⟩ := hb1
      rw [if_pos ⟨rfl, hoffc⟩, h.answer_param (off_mem_demands hoffc) (against_minus.mpr rfl) hnf,
        fixesOf_concat_off]
      by_cases hk : c = 'k'
      · simp [hk]
      · rw [if_neg hk, if_neg hk, offArgs_none]
    rw [if_neg hb1]
    by_cases hb2 : want ≠ [] ∧ (add = false ∨ ∃ a ∈ arg, a ≠ want)
    · -- changed, and its value is locked
      have hmem := Mlock.mem_demands (hlocked hb2.1)
      have ha : Against ⟨true, c, some want⟩ ⟨add, c, arg⟩ :=
        against_plus.mpr (by simpa using hb2.2)
      rw [if_pos hb2, h.answer_param hmem ha hnf, fixesOf_concat_param hne]
    · rw [if_neg hb2, Mlock.answer_of_not]
      rintro d hd ⟨hl, ha⟩
      rcases Mlock.mem_demands_iff.mp hd with ⟨c', hc', rfl⟩ | ⟨x, hx, rfl⟩ | ⟨c', hc', rfl⟩
      · obtain rfl : c = c' := hl
        exact hnf (h.on_flags _ hc')
      · obtain rfl : c = x.1 := hl
        obtain rfl := hwant x.2 hx
        exact hb2 ⟨(Mlock.mem_locked_iff.mp hx).1, by simpa using ha⟩
      · obtain rfl : c = c' := hl
        exact hb1 ⟨by simpa using ha, hc'⟩
  | none =>
    have hnp := mlockParam_none hp
    simp only
    by_cases hb1 : add = false ∧ c ∈ m.on
    · obtain ⟨rfl, honc⟩ := hb1
      rw [fixesOf_answer_on h hds (on_mem_demands honc) (h.on_flags c honc)
        (against_plus.mpr (Or.inl rfl))]
      by_cases hroom : c ∉ (fixesOf ds).on ∧ (fixesOf ds).on.length < 15
      · rw [if_pos hroom, if_pos ⟨rfl, honc, hroom⟩]
      · rw [if_neg hroom, if_neg fun hx => hroom hx.2.2, if_neg (by simp)]
    rw [if_neg fun hx => hb1 ⟨hx.1, hx.2.1⟩]
    by_cases hb2 : add = true ∧ c ∈ m.off
    · obtain ⟨rfl, hoffc⟩ := hb2
      have hf : c ∈ mlockFlags := (h.off_letters c hoffc).resolve_right hnp
      have hd := off_mem_demands hoffc
      rw [if_neg (hflags c hf).2.2] at hd
      rw [fixesOf_answer_off h hds hd hf (against_minus.mpr rfl)]
      by_cases hroom : c ∉ (fixesOf ds).off ∧ (fixesOf ds).off.length < 15
      · rw [if_pos hroom, if_pos ⟨rfl, hoffc, hroom⟩]
      · rw [if_neg hroom, if_neg fun hx => hroom hx.2.2]
    · rw [if_neg fun hx => hb2 ⟨hx.1, hx.2.1⟩, Mlock.answer_of_not]
      rintro d hd ⟨hl, ha⟩
      rcases Mlock.mem_demands_iff.mp hd with ⟨c', hc', rfl⟩ | ⟨x, hx, rfl⟩ | ⟨c', hc', rfl⟩
      · obtain rfl : c = c' := hl
        have harg : arg = Option.none := hw (h.on_flags c hc')
        exact hb1 ⟨by simpa [harg] using ha, hc'⟩
      · obtain rfl : c = x.1 := hl
        exact hnp (Mlock.letter_mem_of_locked hx)
      · obtain rfl : c = c' := hl
        exact hb2 ⟨by simpa using ha, hc'⟩

/-- **The watcher's loop.** -/
theorem fixes_run (h : m.Accepted) (rec : ChanRec)
    (hws : ∀ w ∈ ws, w.letter ∈ mlockFlags → w.arg = Option.none) :
    ws.foldl (Fixes.letter (rec.withMlock m)) ⟨[], [], [], []⟩ = fixesOf (m.answers ws) := by
  induction ws using List.reverseRecOn with
  | nil => rfl
  | append_singleton ws w ih =>
    have hrest := ih fun v hv => hws v (List.mem_append_left _ hv)
    rw [List.foldl_append, hrest, List.foldl_cons, List.foldl_nil,
      fixes_letter h rec (m.answers_subset ws) (hws w (by simp)), Mlock.answers, Mlock.answers,
      List.foldl_append]
    rfl

end Buffers

/-! ## 3. The correction -/

/-- The letters of the correction. -/
def correctionModes (ds : List (Signed Text)) : Text :=
  (if under true ds = [] then [] else '+' :: ((under true ds).take 15).map Signed.letter) ++
    if under false ds = [] then [] else '-' :: ((under false ds).take 15).map Signed.letter

/-- Its arguments: those of `-k` are one word. -/
def correctionArgs (ds : List (Signed Text)) : List Text :=
  argsOf (under true ds) ++ if (fixesOf ds).offArgs = [] then [] else [(fixesOf ds).offArgs]

/-- The parameters that are put back are few, fit their buffer, and none starts with a colon.  The
ircd stops at the first letter behind a sixth parameter: up to six are few if no letter comes behind
them.  As many as fifteen arguments belong to the letters that have room. -/
structure Mlock.Answerable (m : Mlock) (name : Text) (ws : List (Signed Text)) : Prop where
  few : paramsSet name (under true (m.answers ws) ++ under false (m.answers ws)).dropLast ≤ 5
  args : (argsOf (under true (m.answers ws))).length ≤ 15
  room : (joinSep ' ' (argsOf (under true (m.answers ws)))).length < 200
  plain : ∀ v ∈ argsOf (under true (m.answers ws)), v.head? ≠ some ':'

section Correction

variable {m : Mlock} {ds : List (Signed Text)}

theorem clip_letters (sign : Bool) (ds : List (Signed Text)) :
    clip 16 ((under sign ds).map Signed.letter) = ((under sign ds).take 15).map Signed.letter := by
  rw [clip, List.map_take]

theorem length_letters_le (l : List (Signed Text)) :
    ((l.take 15).map Signed.letter).length ≤ 15 := by
  rw [List.length_map, List.length_take]
  exact Nat.min_le_left _ _

theorem correctionModes_length (ds : List (Signed Text)) : (correctionModes ds).length ≤ 32 := by
  have hon := length_letters_le (under true ds)
  have hoff := length_letters_le (under false ds)
  rw [correctionModes, List.length_append]
  split <;> split <;> simp only [List.length_cons, List.length_nil] <;> omega

theorem argsOf_under_ne_nil (h : m.Accepted) (hds : ∀ d ∈ ds, d ∈ m.demands) (sign : Bool) :
    ∀ v ∈ argsOf (under sign ds), v ≠ [] := by
  intro v hv
  obtain ⟨d, hd, hdv⟩ := List.mem_filterMap.mp hv
  exact h.arg_ne_nil (hds d (mem_under.mp hd).1) v hdv

/-- The letters under their signs, in the buffer for them. -/
theorem strncat_signs {p q : Text} (hp : p.length ≤ 15) (hq : q.length ≤ 15) :
    (if q = [] then if p = [] then [] else strncat 40 ['+'] p
      else strncat 40 (strncat 40 (if p = [] then [] else strncat 40 ['+'] p) ['-']) q) =
      (if p = [] then [] else '+' :: p) ++ if q = [] then [] else '-' :: q := by
  have hplus : strncat 40 ['+'] p = '+' :: p := by
    rw [strncat, clip_of_fits (by simp only [List.length_append, List.length_singleton]; omega)]
    rfl
  have hminus : ∀ s : Text, s.length ≤ 16 →
      strncat 40 (strncat 40 s ['-']) q = s ++ '-' :: q := by
    intro s hs
    rw [strncat, strncat, clip_append_clip, clip_of_fits, List.append_assoc, List.singleton_append]
    simp only [List.length_append, List.length_singleton]
    omega
  rw [hplus]
  by_cases h2 : q = []
  · rw [if_pos h2, if_pos h2, List.append_nil]
  · rw [if_neg h2, if_neg h2]
    refine hminus _ ?_
    split
    · exact Nat.zero_le _
    · rw [List.length_cons]
      omega

theorem wire_fixesOf (h : m.Accepted) (hds : ∀ d ∈ ds, d ∈ m.demands)
    (hroom : (joinSep ' ' (argsOf (under true ds))).length < 200) :
    (fixesOf ds).wire =
      if ds = [] then none else some (correctionModes ds, joinSep ' ' (correctionArgs ds)) := by
  have hne := argsOf_under_ne_nil h hds true
  have hon : (fixesOf ds).on = ((under true ds).take 15).map Signed.letter := clip_letters true ds
  have hoff : (fixesOf ds).off = ((under false ds).take 15).map Signed.letter :=
    clip_letters false ds
  have hargs : (fixesOf ds).args = joinSep ' ' (argsOf (under true ds)) := clip_of_fits hroom
  have hnil : ∀ l : List (Signed Text), (l.take 15).map Signed.letter = [] ↔ l = [] := by
    intro l
    cases l <;> simp
  have hempty : (under true ds = [] ∧ under false ds = []) ↔ ds = [] := by
    constructor
    · rintro ⟨h1, h2⟩
      refine List.eq_nil_iff_forall_not_mem.mpr fun d hd => ?_
      cases hadd : d.add with
      | true => exact absurd (mem_under.mpr ⟨hd, hadd⟩) (by simp [h1])
      | false => exact absurd (mem_under.mpr ⟨hd, hadd⟩) (by simp [h2])
    · rintro rfl
      exact ⟨rfl, rfl⟩
  have hjoin : joinSep ' ' (argsOf (under true ds)) ++
      (if joinSep ' ' (argsOf (under true ds)) ≠ [] ∧ (fixesOf ds).offArgs ≠ [] then [' ']
        else []) ++ (fixesOf ds).offArgs = joinSep ' ' (correctionArgs ds) := by
    rw [correctionArgs]
    by_cases h2 : (fixesOf ds).offArgs = []
    · simp [h2]
    · rw [if_neg h2, ← joinSep_concat_buffer hne]
      by_cases h1 : joinSep ' ' (argsOf (under true ds)) = [] <;> simp [h1, h2]
  have hfits : (joinSep ' ' (correctionArgs ds)).length < 260 := by
    have hstars : (fixesOf ds).offArgs.length ≤ 39 := clip_length_le 40 _
    rw [← hjoin]
    simp only [List.length_append]
    split <;> simp only [List.length_cons, List.length_nil] <;> omega
  have hmodes := strncat_signs (length_letters_le (under true ds))
    (length_letters_le (under false ds))
  simp only [hnil] at hmodes
  simp only [Fixes.wire, hon, hoff, hargs, hnil, hmodes, hjoin, clip_of_fits hfits]
  by_cases hds0 : ds = []
  · rw [if_pos (hempty.mpr hds0), if_pos hds0]
  · rw [if_neg fun hx => hds0 (hempty.mp hx), if_neg hds0, correctionModes]

end Correction

/-! ## 4. At the ircd

The ircd reads the correction with its own limits. Each letter of it is a demand of the lock, so
none can make the channel worse. -/

section AtTheIrcd

variable {srv : Server} {svc : Client} {cfg : ServicesCfg} {name : Text} {m : Mlock}
  {ds : List (Signed Text)}

/-- A demand has an argument where the ircd's table wants one. -/
theorem Mlock.Accepted.written (h : m.Accepted) {d : Signed Text} (hd : d ∈ m.demands) :
    IsLetter d.letter ∧ d.arg.isSome = takesArg d.add d.letter := by
  rw [Mlock.demands] at hd
  rcases List.mem_append.mp hd with hd | hd
  · rcases List.mem_append.mp hd with hd | hd
    · obtain ⟨hadd, hl, harg⟩ := h.on_written d hd
      exact ⟨hl, hadd ▸ harg⟩
    · obtain ⟨hadd, hl, harg⟩ := m.locked_written d hd
      exact ⟨hl, hadd ▸ harg⟩
  · obtain ⟨hadd, hl, harg⟩ := h.off_written d hd
    exact ⟨hl, hadd ▸ harg⟩

/-- How the ircd pairs the letters of the correction with its arguments. -/
theorem walk_correction (h : m.Accepted) (hds : ∀ d ∈ ds, d ∈ m.demands) :
    ∃ minus, walk takesArg true (correctionModes ds) (correctionArgs ds) =
        (under true ds).take 15 ++ minus ∧
      minus.map Signed.letter = ((under false ds).take 15).map Signed.letter ∧
      ∀ t ∈ minus, t.add = false := by
  have hmem : ∀ {sign : Bool} {d : Signed Text}, d ∈ (under sign ds).take 15 →
      d ∈ m.demands ∧ d.add = sign := fun hd =>
    ⟨hds _ (mem_under.mp (List.mem_of_mem_take hd)).1, (mem_under.mp (List.mem_of_mem_take hd)).2⟩
  have hwritten : ∀ t ∈ (under true ds).take 15,
      t.add = true ∧ IsLetter t.letter ∧ t.arg.isSome = takesArg true t.letter := by
    intro t ht
    obtain ⟨hd, hadd⟩ := hmem ht
    obtain ⟨hl, harg⟩ := h.written hd
    exact ⟨hadd, hl, hadd ▸ harg⟩
  obtain ⟨rest, hrest⟩ : ∃ rest, correctionArgs ds = argsOf ((under true ds).take 15) ++ rest := by
    rw [correctionArgs]
    generalize (if (fixesOf ds).offArgs = [] then [] else [(fixesOf ds).offArgs]) = stars
    exact ⟨argsOf ((under true ds).drop 15) ++ stars, by
      rw [← List.append_assoc, ← argsOf_append, List.take_append_drop]⟩
  have hsign : walk takesArg true (correctionModes ds) (correctionArgs ds) =
      walk takesArg true (((under true ds).take 15).map Signed.letter ++
        if under false ds = [] then [] else '-' :: ((under false ds).take 15).map Signed.letter)
        (correctionArgs ds) := by
    rw [correctionModes]
    by_cases hon : under true ds = []
    · rw [if_pos hon, hon]
      rfl
    · rw [if_neg hon]
      rfl
  refine ⟨_, by rw [hsign, hrest, walk_written _ _ hwritten], ?_⟩
  by_cases hoff : under false ds = []
  · rw [if_pos hoff, hoff]
    exact ⟨rfl, fun t ht => absurd ht (by simp [walk])⟩
  · have hminus : walk takesArg true ('-' :: ((under false ds).take 15).map Signed.letter) rest =
        walk takesArg false (((under false ds).take 15).map Signed.letter) rest := by
      simp [walk]
    rw [if_neg hoff, hminus]
    refine walk_letters (fun c hc => ?_) rest
    obtain ⟨d, hd, rfl⟩ := List.mem_map.mp hc
    exact (h.written (hmem hd).1).1

/-- A letter under the minus sign is met whatever its argument. -/
theorem meets_minus {chan : Channel} {c : Char} (a b : Option Text) :
    chan.Meets ⟨false, c, a⟩ ↔ chan.Meets ⟨false, c, b⟩ := by
  simp [Channel.Meets]

/-- **In a run in which a letter comes only as it is wanted**, it is met afterwards exactly when it
was met before or the ircd takes it. -/
theorem meets_run_wanted (hsvc : svc.isService = true) {d : Signed Text} (hlock : Lockable d.letter)
    (hkey : d.letter = 'k' → ∀ a, d.arg = some a → a.length < chanKeyLen) :
    ∀ (us : List (Signed Text)) (chan : Channel),
      (∀ u ∈ us, u.letter = d.letter → u = d ∨ u.add = false ∧ d.add = false) →
      ((us.foldl (svcLetter srv svc) chan).Meets d ↔
        chan.Meets d ∨ (∃ u ∈ us, u.letter = d.letter) ∧ Taken chan.name d) := by
  intro us
  induction us with
  | nil => simp
  | cons u us ih =>
    intro chan h
    have hus := ih (svcLetter srv svc chan u) fun v hv => h v (List.mem_cons_of_mem _ hv)
    rw [List.foldl_cons, hus, name_svcLetter]
    by_cases hl : u.letter = d.letter
    · have hstep : (svcLetter srv svc chan u).Meets d ↔ Taken chan.name d ∨ chan.Meets d := by
        rcases h u List.mem_cons_self hl with rfl | ⟨hu, hd⟩
        · exact meets_svcLetter hsvc hlock hkey
        · obtain ⟨add, c, arg⟩ := u
          obtain ⟨add', c', arg'⟩ := d
          obtain rfl : add = false := hu
          obtain rfl : add' = false := hd
          obtain rfl : c = c' := hl
          have hr : c ≠ 'r' := by
            rintro rfl
            exact absurd (show Lockable 'r' from hlock) (by decide)
          exact iff_of_true ((meets_minus arg arg').mp (meets_svcLetter_off c arg hr))
            (Or.inl fun hx => absurd hx (by simp))
      rw [hstep]
      constructor
      · rintro ((ht | hm) | ⟨-, ht⟩)
        · exact Or.inr ⟨⟨u, List.mem_cons_self, hl⟩, ht⟩
        · exact Or.inl hm
        · exact Or.inr ⟨⟨u, List.mem_cons_self, hl⟩, ht⟩
      · rintro (hm | ⟨-, ht⟩)
        · exact Or.inl (Or.inr hm)
        · exact Or.inl (Or.inl ht)
    · have hex : (∃ v ∈ u :: us, v.letter = d.letter) ↔ ∃ v ∈ us, v.letter = d.letter := by
        simp [hl]
      rw [meets_svcLetter_of_ne (fun hx => hl hx.symm), hex]

theorem paramsSet_append (name : Text) (ts us : List (Signed Text)) :
    paramsSet name (ts ++ us) = paramsSet name ts + paramsSet name us := List.countP_append

theorem paramsSet_minus (name : Text) {ts : List (Signed Text)} (h : ∀ t ∈ ts, t.add = false) :
    paramsSet name ts = 0 := by
  refine List.countP_eq_zero.mpr fun t ht hset => ?_
  exact Bool.noConfusion ((h t ht).symm.trans (of_decide_eq_true hset).1)

/-- What has room sets no more than what there is, before the last letter of either. -/
theorem paramsSet_room (name : Text) (plus : List (Signed Text))
    {minus back : List (Signed Text)} {n : Nat}
    (hback : back.length = (minus.take n).length) (hn : 0 < n) (hoff : ∀ t ∈ back, t.add = false) :
    paramsSet name (plus.take n ++ back).dropLast ≤ paramsSet name (plus ++ minus).dropLast := by
  by_cases hnil : minus = []
  · have hbacknil : back = [] := by
      rw [hnil, List.take_nil, List.length_nil] at hback
      exact List.eq_nil_of_length_eq_zero hback
    rw [hnil, hbacknil, List.append_nil, List.append_nil]
    refine List.Sublist.countP_le ?_
    rw [List.dropLast_eq_take, List.dropLast_eq_take, List.take_take]
    refine List.take_sublist_take_left ?_
    rw [List.length_take]
    omega
  · have hlen : 0 < minus.length := List.length_pos_iff.mpr hnil
    have hbackne : back ≠ [] := by
      rintro rfl
      rw [List.length_take, List.length_nil] at hback
      omega
    rw [List.dropLast_append_of_ne_nil hbackne, List.dropLast_append_of_ne_nil hnil,
      paramsSet_append, paramsSet_append,
      paramsSet_minus name fun t ht => hoff t (List.mem_of_mem_dropLast ht), Nat.add_zero]
    exact (List.Sublist.countP_le (List.take_sublist _ _)).trans (Nat.le_add_right _ _)

theorem correctionModes_ne_nil (hne : ds ≠ []) : correctionModes ds ≠ [] := by
  obtain ⟨d, ds, rfl⟩ := List.exists_cons_of_ne_nil hne
  obtain ⟨add, c, arg⟩ := d
  cases add <;> simp [correctionModes, under]

theorem correctionModes_chars (h : m.Accepted) (hds : ∀ d ∈ ds, d ∈ m.demands) :
    ∀ c ∈ correctionModes ds, c = '+' ∨ c = '-' ∨ Lockable c := by
  have hletters : ∀ sign, ∀ c ∈ ((under sign ds).take 15).map Signed.letter, Lockable c := by
    intro sign c hc
    obtain ⟨d, hd, rfl⟩ := List.mem_map.mp hc
    exact h.lockable d (hds d (mem_under.mp (List.mem_of_mem_take hd)).1)
  intro c hc
  rcases List.mem_append.mp hc with hc | hc
  · split at hc
    · exact absurd hc (by simp)
    · rcases List.mem_cons.mp hc with rfl | hc
      · exact Or.inl rfl
      · exact Or.inr (Or.inr (hletters true c hc))
  · split at hc
    · exact absurd hc (by simp)
    · rcases List.mem_cons.mp hc with rfl | hc
      · exact Or.inr (Or.inl rfl)
      · exact Or.inr (Or.inr (hletters false c hc))

/-- What goes with `-k` is some stars. -/
theorem offArgs_stars (hds : ∀ d ∈ ds, d ∈ m.demands) : ∀ c ∈ (fixesOf ds).offArgs, c = '*' := by
  intro c hc
  obtain ⟨v, hv, hcv⟩ := List.mem_flatten.mp (mem_of_mem_clip hc)
  obtain ⟨d, hd, hdv⟩ := List.mem_filterMap.mp hv
  obtain ⟨hmem, hadd⟩ := mem_under.mp hd
  rcases Mlock.mem_demands_iff.mp (hds d hmem) with ⟨c', -, rfl⟩ | ⟨x, -, rfl⟩ | ⟨c', -, rfl⟩
  · exact absurd hadd (by simp)
  · exact absurd hadd (by simp)
  · by_cases hk : c' = 'k'
    · obtain rfl : ['*'] = v := by simpa [hk] using hdv
      exact List.mem_singleton.mp hcv
    · exact absurd hdv (by simp [hk])

theorem correctionArgs_words (h : m.Accepted) (hds : ∀ d ∈ ds, d ∈ m.demands)
    (hplain : ∀ v ∈ argsOf (under true ds), v.head? ≠ some ':') : Words (correctionArgs ds) := by
  intro v hv
  rcases List.mem_append.mp hv with hv | hv
  · obtain ⟨d, hd, hdv⟩ := List.mem_filterMap.mp hv
    have hmem : v ∈ argsOf m.demands :=
      List.mem_filterMap.mpr ⟨d, hds d (mem_under.mp hd).1, hdv⟩
    obtain ⟨hne, hsp⟩ := h.args_plain v hmem
    exact ⟨hne, hsp, fun c hc hcol => hplain v hv (hcol ▸ hc)⟩
  · split at hv
    · exact absurd hv (by simp)
    · rename_i hne
      obtain rfl := List.mem_singleton.mp hv
      have hstars := offArgs_stars hds
      exact ⟨hne, fun hsp => absurd (hstars _ hsp) (by decide),
        fun c hc hcol => absurd (hstars c (List.mem_of_mem_head? hc)) (by rw [hcol]; decide)⟩

theorem correctionArgs_length (ds : List (Signed Text)) :
    (correctionArgs ds).length ≤ (argsOf (under true ds)).length + 1 := by
  rw [correctionArgs, List.length_append]
  split <;> simp

theorem joinSep_correctionArgs_length (ds : List (Signed Text)) :
    (joinSep ' ' (correctionArgs ds)).length ≤
      (joinSep ' ' (argsOf (under true ds))).length + 40 := by
  have hstars : (fixesOf ds).offArgs.length ≤ 39 := clip_length_le 40 _
  rw [correctionArgs]
  split
  · rw [List.append_nil]
    exact Nat.le_add_right ..
  · by_cases hnil : argsOf (under true ds) = []
    · rw [hnil, List.nil_append, joinSep_singleton]
      omega
    · rw [joinSep_concat hnil, List.length_append, List.length_cons]
      omega

/-- **The ircd reads the correction letter by letter.** -/
theorem svcMode_correction (h : m.Accepted) (hcfg : cfg.Fits)
    (hname : ircValidChannel name 50 = true) (hsvc : svc.isService = true)
    (hds : ∀ d ∈ ds, d ∈ m.demands) (hne : ds ≠ [])
    (hsize : (argsOf (under true ds)).length ≤ 15)
    (hroom : (joinSep ' ' (argsOf (under true ds))).length < 200)
    (hplain : ∀ v ∈ argsOf (under true ds), v.head? ≠ some ':') {chan : Channel}
    (hfew : paramsSet chan.name (under true ds ++ under false ds).dropLast ≤ 5) :
    svcMode srv svc chan (wireModeArgs cfg name (correctionModes ds)
        (joinSep ' ' (correctionArgs ds))) =
      (walk takesArg true (correctionModes ds) (correctionArgs ds)).foldl (svcLetter srv svc)
        chan := by
  have hmodes := correctionModes_length ds
  have hargs := joinSep_correctionArgs_length ds
  have hlen := correctionArgs_length ds
  have hchars := correctionModes_chars h hds
  have hwords := words_of_chars hname (correctionModes_ne_nil hne) hchars
  rw [wireModeArgs_eq hcfg hname (by omega), svcMode_words hcfg hwords
    (correctionArgs_words h hds hplain) (by omega) (Or.inl rfl), cmdApplyChannelMode_chan]
  refine modeLoop_walk hsvc _ (ModeRun.start chan (correctionArgs ds)) hchars ?_ ?_
  · simp only [ModeRun.used, ModeRun.start, List.length_nil, reduceCtorEq, if_false]
    omega
  · obtain ⟨minus, hwalk, hletters, hminus⟩ := walk_correction h hds
    have hlen : minus.length = ((under false ds).take 15).length := by
      have := congrArg List.length hletters
      rwa [List.length_map, List.length_map] at this
    have hle := paramsSet_room chan.name (under true ds) hlen (by decide) hminus
    simp only [ModeRun.start, List.length_nil, maxModeParams]
    rw [hwalk]
    omega

end AtTheIrcd

/-! ## 5. After the correction

After the correction a letter is as the lock wants it if it was never changed, or if it is put
back. -/

/-- The correction that the watcher sends for a line. -/
def modeCorrection (cfg : ServicesCfg) (store : Text → Option ChanRec) (msg : IrcMessage) :
    Option Text :=
  (modeWatcher cfg.nick store msg).fix.map fun fix =>
    wireModeArgs cfg (msg.params.headD []) fix.1 fix.2

section Corrected

variable (srv : Server) (svc : Client) (cfg : ServicesCfg) (store : Text → Option ChanRec)
  (cl : Client) (chan : Channel) (ms : Text) (args : List Text) (full : Bool)

/-- The channel after a MODE request and the correction that ChanServ sends for its line. -/
def afterCorrection : Channel :=
  let out := cmdApplyChannelMode srv cl chan ms args full
  match (out.line.bind ircParseLine).bind (modeCorrection cfg store) with
  | some line => svcMode srv svc out.chan line
  | none => out.chan

/-- The letters of a request's line, as the watcher reads them. -/
def watchedLetters : List (Signed Text) :=
  (watch cfg.nick store srv cl chan ms args full).elim [] Watch.letters

end Corrected

section Restored

variable {srv : Server} {svc cl : Client} {cfg : ServicesCfg} {store : Text → Option ChanRec}
  {m : Mlock} {rec : ChanRec} {chan : Channel}

theorem Mlock.mem_putBack {ws : List (Signed Text)} {d : Signed Text} : d ∈ m.putBack ws ↔
    d ∈ (under true (m.answers ws)).take 15 ∨ d ∈ (under false (m.answers ws)).take 15 :=
  List.mem_append

/-- What a line from a user becomes in the watcher. -/
theorem watcher_line (h : m.Accepted) (cfg : ServicesCfg) {msg : IrcMessage} {flags : Text}
    {as : List Text}
    (hparams : msg.params = chan.name :: flags :: as)
    (hrec : store chan.name = some (rec.withMlock m))
    (hroom : (joinSep ' ' (argsOf (under true
      (m.answers (modeWatcher cfg.nick store msg).letters)))).length < 200) :
    modeCorrection cfg store msg =
      if m.answers (modeWatcher cfg.nick store msg).letters = [] then none
      else some (wireModeArgs cfg chan.name
        (correctionModes (m.answers (modeWatcher cfg.nick store msg).letters))
        (joinSep ' ' (correctionArgs (m.answers (modeWatcher cfg.nick store msg).letters)))) := by
  have hhash := valid_channel_head chan.nameValid
  have hfix : (modeWatcher cfg.nick store msg).fix =
      ((modeWatcher cfg.nick store msg).letters.foldl (Fixes.letter (rec.withMlock m))
        ⟨[], [], [], []⟩).wire := by
    simp only [modeWatcher, hparams, hhash, if_true, hrec]
  have hflags : ∀ c ∈ mlockFlags, ∀ add, takesArg add c = false := by decide
  have hws : ∀ w ∈ (modeWatcher cfg.nick store msg).letters,
      w.letter ∈ mlockFlags → w.arg = Option.none := by
    intro w hw hf
    simp only [modeWatcher, hparams, hhash, if_true, hrec, watched] at hw
    split at hw
    · exact absurd hw (by simp)
    · exact arg_of_walk hw (hflags _ hf _)
  rw [modeCorrection, hfix, fixes_run h rec hws, wire_fixesOf h (m.answers_subset _) hroom, hparams]
  split
  · rfl
  · rfl

/-- **The correction puts back what it names and the ircd takes.** -/
theorem satisfies_correction (h : m.Accepted) (hcfg : cfg.Fits) (hsvc : svc.isService = true)
    {ws : List (Signed Text)} (hne : m.answers ws ≠ []) (hans : m.Answerable chan.name ws)
    {x : Channel} (hx : x.name = chan.name) :
    (svcMode srv svc x (wireModeArgs cfg chan.name (correctionModes (m.answers ws))
        (joinSep ' ' (correctionArgs (m.answers ws))))).Satisfies m ↔
      ∀ d ∈ m.demands, x.Meets d ∨ d ∈ m.putBack ws ∧ Taken chan.name d := by
  have hds := m.answers_subset ws
  obtain ⟨minus, hwalk, hletters, hminus⟩ := walk_correction h hds
  rw [svcMode_correction h hcfg chan.nameValid hsvc hds hne hans.args hans.room hans.plain
    (hx ▸ hans.few), hwalk, Channel.Satisfies]
  have hplus : ∀ u ∈ (under true (m.answers ws)).take 15, u ∈ m.demands := fun u hu =>
    hds u (mem_under.mp (List.mem_of_mem_take hu)).1
  have hback : ∀ {c : Char}, c ∈ minus.map Signed.letter →
      ∃ q ∈ (under false (m.answers ws)).take 15, q ∈ m.demands ∧ q.add = false ∧ q.letter = c := by
    intro c hc
    rw [hletters] at hc
    obtain ⟨q, hq, hqc⟩ := List.mem_map.mp hc
    obtain ⟨hmem, hadd⟩ := mem_under.mp (List.mem_of_mem_take hq)
    exact ⟨q, hq, hds q hmem, hadd, hqc⟩
  refine forall_congr' fun d => forall_congr' fun hd => ?_
  have hwanted : ∀ u ∈ (under true (m.answers ws)).take 15 ++ minus,
      u.letter = d.letter → u = d ∨ u.add = false ∧ d.add = false := by
    intro u hu hl
    rcases List.mem_append.mp hu with hu | hu
    · exact Or.inl (h.demand_inj (hplus u hu) hd hl)
    · obtain ⟨q, -, hqd, hadd, hql⟩ := hback (List.mem_map_of_mem hu)
      obtain rfl := h.demand_inj hqd hd (hql.trans hl)
      exact Or.inr ⟨hminus u hu, hadd⟩
  have hmem : (∃ u ∈ (under true (m.answers ws)).take 15 ++ minus, u.letter = d.letter) ↔
      d ∈ m.putBack ws := by
    rw [Mlock.mem_putBack]
    constructor
    · rintro ⟨u, hu, hl⟩
      rcases List.mem_append.mp hu with hu | hu
      · exact Or.inl (h.demand_inj (hplus u hu) hd hl ▸ hu)
      · obtain ⟨q, hq, hqd, -, hql⟩ := hback (List.mem_map_of_mem hu)
        exact Or.inr (h.demand_inj hqd hd (hql.trans hl) ▸ hq)
    · rintro (hd' | hd')
      · exact ⟨d, List.mem_append_left _ hd', rfl⟩
      · have hin : d.letter ∈ minus.map Signed.letter := hletters ▸ List.mem_map_of_mem hd'
        obtain ⟨u, hu, hl⟩ := List.mem_map.mp hin
        exact ⟨u, List.mem_append_right _ hu, hl⟩
  rw [meets_run_wanted hsvc (h.lockable d hd) (h.key_fits d hd) _ x hwanted, hmem, hx]

end Restored

/-- A store in which every channel has this lock. -/
def lockStore (m : Mlock) (_ : Text) : Option ChanRec := some (unlockedRec.withMlock m)

/-- `+nl 9`. -/
def demoLock : Mlock := ⟨"n".toList, [], [], "9".toList, [], [], []⟩

/-- The demo channel with a key and a limit. -/
def limitedChan : Channel := { demoChan with modes := {.n, .k, .l}, limit := 5 }

end SekurIRCd
