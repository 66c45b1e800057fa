/-
# A channel's modes as one string

A channel's modes travel between servers as the string that `channel_modes_string` writes, and
`set_state_modes` sets them from it, with the flags cleared first or not.  `stateLoop_modes`
says that reading the string writes just the modes it was written from: over cleared modes they
come out exactly, and a second time nothing changes.

`ParamsOk` is what the checks of the commands keep true of a channel's parameters: each is set
with its flag, passed its check, and can stand in a line.
-/
import SekurIRCd.Channel
import Mathlib.Data.Finset.Lattice.Lemmas

namespace SekurIRCd

open CLib

/-! ## 1. Reading -/

/-- A letter with a parameter, in `set_state_modes`. -/
def stateParam (s : Settings) (c : Char) (a : Text) : Settings :=
  if c = 'k' then { s with key := clip chanKeyLen a, modes := insert .k s.modes }
  else if c = 'l' then
    { s with limit := atoi a, modes := if 0 < atoi a then insert .l s.modes else s.modes }
  else if c = 'f' then
    match parseFlood a with
    | some f => { s with flood := f, modes := insert .flood s.modes }
    | none => s
  else if c = 'j' then
    match scanPair a with
    | some (n, secs) => { s with jtJoins := n, jtSecs := secs, modes := insert .jthrot s.modes }
    | none => s
  else if c = 'L' then
    { s with redirect := clip chanNameLen a, modes := insert .redirect s.modes }
  else s

/-- The loop of `set_state_modes`. -/
def stateLoop : Text → List Text → Settings → Settings
  | [], _, s => s
  | c :: cs, args, s =>
    if c = '+' ∨ c = '-' then stateLoop cs args s
    else match channelFlagBit c with
    | some bit => stateLoop cs args { s with modes := insert bit s.modes }
    | none =>
      match args with
      | [] => s
      | a :: args => stateLoop cs args (stateParam s c a)

theorem stateLoop_sign {c : Char} (h : c = '+' ∨ c = '-') (cs : Text) (args : List Text)
    (s : Settings) : stateLoop (c :: cs) args s = stateLoop cs args s := by
  rw [stateLoop.eq_def]
  simp only [if_pos h]

theorem stateLoop_flag {c : Char} {bit : CMode} (h : c ≠ '+' ∧ c ≠ '-')
    (hb : channelFlagBit c = some bit) (cs : Text) (args : List Text) (s : Settings) :
    stateLoop (c :: cs) args s = stateLoop cs args { s with modes := insert bit s.modes } := by
  rw [stateLoop.eq_def]
  simp only [h, or_self, if_false, hb]

theorem stateLoop_param {c : Char} (h : c ≠ '+' ∧ c ≠ '-') (hb : channelFlagBit c = none)
    (cs : Text) (a : Text) (args : List Text) (s : Settings) :
    stateLoop (c :: cs) (a :: args) s = stateLoop cs args (stateParam s c a) := by
  rw [stateLoop.eq_def]
  simp only [h, or_self, if_false, hb]

/-- What `replace` clears. -/
def Settings.cleared (s : Settings) : Settings :=
  { Settings.none with bans := s.bans, exceptions := s.exceptions, invex := s.invex }

/-- `set_state_modes`. -/
def setStateModes (chan : Channel) (modes : Text) (args : List Text) (replace : Bool) : Channel :=
  { chan with
    toSettings := stateLoop modes args
      (if replace then chan.toSettings.cleared else chan.toSettings) }

/-! ## 2. Writing

The letters come first, all in one word, and then the parameters in the order of their letters. -/

/-- What the commands keep true of the parameters: one that is set has passed its check and can
stand in a line, and one that is not is cleared. -/
structure ParamsOk (s : Settings) : Prop where
  key : if .k ∈ s.modes then Plain s.key ∧ s.key.length < chanKeyLen else s.key = []
  limit : if .l ∈ s.modes then 1 ≤ s.limit ∧ s.limit ≤ intMax else s.limit = 0
  redirect : if .redirect ∈ s.modes then ircValidChannel s.redirect 50 = true else s.redirect = []
  flood : if .flood ∈ s.modes then Parsed s.flood else s.flood = Flood.clear
  jthrot : if .jthrot ∈ s.modes then
      (1 ≤ s.jtJoins ∧ s.jtJoins ≤ 100) ∧ 1 ≤ s.jtSecs ∧ s.jtSecs ≤ 600
    else s.jtJoins = 0 ∧ s.jtSecs = 0

/-- What it takes for the parameters to come back: those that are set can stand in a line, with
values that are shown, and they fit their buffer. -/
structure ParamsFit (chan : Channel) : Prop where
  key : if .k ∈ chan.modes then Plain chan.key ∧ chan.key.length < chanKeyLen else chan.key = []
  limit : if .l ∈ chan.modes then 1 ≤ chan.limit ∧ chan.limit ≤ intMax else chan.limit = 0
  redirect : if .redirect ∈ chan.modes then
      Plain chan.redirect ∧ chan.redirect.length < chanNameLen
    else chan.redirect = []
  flood : if .flood ∈ chan.modes then Parsed chan.flood else chan.flood = Flood.clear
  jthrot : if .jthrot ∈ chan.modes then
      (1 ≤ chan.jtJoins ∧ chan.jtJoins ≤ intMax) ∧ -(2 ^ 31) ≤ chan.jtSecs ∧ chan.jtSecs ≤ intMax
    else chan.jtJoins = 0 ∧ chan.jtSecs = 0
  room : ((chan.shownParams.filter Prod.fst).flatMap fun p => ' ' :: p.2.2).length < 256

/-- The letters of `channel_modes_string`. -/
def Channel.modeFlags (chan : Channel) : Text :=
  '+' :: (flagLetters.filter fun x => x.2 ∈ chan.modes).map Prod.fst ++
    (chan.shownParams.filter Prod.fst).map fun p => p.2.1

/-- Its parameters. -/
def Channel.modeArgs (chan : Channel) : List Text :=
  (chan.shownParams.filter Prod.fst).map fun p => p.2.2

theorem foldl_appendParam : ∀ (ps : List (Bool × Char × Text)) (f a : Text),
    (a ++ (ps.filter Prod.fst).flatMap fun p => ' ' :: p.2.2).length < 256 →
    ps.foldl appendParam (f, a) = (f ++ (ps.filter Prod.fst).map (fun p => p.2.1),
      a ++ (ps.filter Prod.fst).flatMap fun p => ' ' :: p.2.2)
  | [], f, a, _ => by simp
  | (false, c, t) :: ps, f, a, h => by
    have ih := foldl_appendParam ps f a (by simpa using h)
    simpa [appendParam] using ih
  | (true, c, t) :: ps, f, a, h => by
    have hlen : (a ++ ' ' :: t).length < 256 := by
      simp only [List.filter_cons, if_true, List.flatMap_cons, List.length_append] at h ⊢
      omega
    have hstep : appendParam (f, a) (true, c, t) = (f ++ [c], a ++ ' ' :: t) := by
      simp only [appendParam, if_true, strncat, clip_of_fits hlen]
    have ih := foldl_appendParam ps (f ++ [c]) (a ++ ' ' :: t) (by simpa using h)
    rw [List.foldl_cons, hstep, ih]
    simp

/-- The parameters that are shown take no more room than all of them. -/
theorem length_shown (ps : List (Bool × Char × Text)) :
    ((ps.filter Prod.fst).flatMap fun p => ' ' :: p.2.2).length ≤
      (ps.map fun p => p.2.2.length + 1).sum := by
  induction ps with
  | nil => simp
  | cons p ps ih =>
    rw [List.filter_cons]
    split
    · simp only [List.flatMap_cons, List.length_append, List.length_cons, List.map_cons,
        List.sum_cons]
      omega
    · simp only [List.map_cons, List.sum_cons]
      omega

section Ok

variable {chan : Channel} (h : ParamsOk chan.toSettings)

include h

theorem ParamsOk.limit_range : 0 ≤ chan.limit ∧ chan.limit ≤ intMax := by
  have hl := h.limit
  split at hl
  · exact ⟨by omega, hl.2⟩
  · rw [hl]
    exact ⟨le_refl _, by simp [intMax]⟩

theorem ParamsOk.jthrot_range :
    (0 ≤ chan.jtJoins ∧ chan.jtJoins ≤ 100) ∧ 0 ≤ chan.jtSecs ∧ chan.jtSecs ≤ 600 := by
  have hj := h.jthrot
  split at hj <;> omega

theorem ParamsOk.key_length : chan.key.length < chanKeyLen := by
  have hk := h.key
  split at hk
  · exact hk.2
  · rw [hk]
    decide

theorem ParamsOk.redirect_length : chan.redirect.length ≤ 50 := by
  have hr := h.redirect
  split at hr
  · exact valid_channel_length hr
  · simp [hr]

/-- All parameters together stay within the buffer. -/
theorem ParamsOk.args_length :
    ((chan.shownParams.filter Prod.fst).flatMap fun p => ' ' :: p.2.2).length ≤ 233 := by
  have hk := h.key_length
  have hr := h.redirect_length
  have hl := intDecimal_length_le (z := chan.limit) (k := 10) (by decide) h.limit_range.1
    (by have := h.limit_range.2; simp only [intMax] at this; omega)
  have hn := intDecimal_length_le (z := chan.jtJoins) (k := 3) (by decide) h.jthrot_range.1.1
    (by have := h.jthrot_range.1.2; omega)
  have hs := intDecimal_length_le (z := chan.jtSecs) (k := 3) (by decide) h.jthrot_range.2.1
    (by have := h.jthrot_range.2.2; omega)
  have hf := clip_length_le 99 (channelFloodParam chan.flood)
  have hsum := length_shown chan.shownParams
  simp only [Channel.shownParams, List.map_cons, List.map_nil, List.sum_cons, List.sum_nil,
    List.length_append, List.length_cons, chanKeyLen] at hsum hk
  simp only [Channel.shownParams] at hsum ⊢
  omega

/-- What the commands keep true of the parameters lets them come back. -/
theorem ParamsOk.fit : ParamsFit chan where
  key := h.key
  limit := h.limit
  redirect := by
    have hr := h.redirect
    have hlen := h.redirect_length
    by_cases hm : .redirect ∈ chan.modes
    · rw [if_pos hm] at hr ⊢
      exact ⟨plain_of_valid_channel hr, by simp only [chanNameLen]; omega⟩
    · rwa [if_neg hm] at hr ⊢
  flood := h.flood
  jthrot := by
    have hj := h.jthrot
    by_cases hm : .jthrot ∈ chan.modes
    · rw [if_pos hm] at hj ⊢
      simp only [intMax]
      omega
    · rwa [if_neg hm] at hj ⊢
  room := by
    have := h.args_length
    omega

end Ok

section Fit

variable {chan : Channel}

theorem mem_modeFlags {c : Char} (hc : c ∈ chan.modeFlags) :
    c ∈ '+' :: flagLetters.map Prod.fst ++ ['k', 'l', 'L', 'f', 'j'] := by
  rw [Channel.modeFlags] at hc
  rcases List.mem_append.mp hc with hc | hc
  · rcases List.mem_cons.mp hc with hc | hc
    · simp [hc]
    · obtain ⟨x, hx, rfl⟩ := List.mem_map.mp hc
      have := List.mem_map_of_mem (f := Prod.fst) (List.mem_of_mem_filter hx)
      simp only [List.mem_append, List.mem_cons]
      exact Or.inl (Or.inr this)
  · obtain ⟨p, hp, rfl⟩ := List.mem_map.mp hc
    have hmem := List.mem_of_mem_filter hp
    simp only [Channel.shownParams, List.mem_cons, List.not_mem_nil, or_false] at hmem
    rcases hmem with rfl | rfl | rfl | rfl | rfl <;> simp

theorem modeFlags_length : chan.modeFlags.length ≤ 29 := by
  have h1 : (flagLetters.filter fun x => x.2 ∈ chan.modes).length ≤ 23 :=
    (List.length_filter_le _ _).trans (by decide)
  have h2 : (chan.shownParams.filter Prod.fst).length ≤ 5 := List.length_filter_le _ _
  simp only [Channel.modeFlags, List.length_append, List.length_cons, List.length_map]
  omega

theorem plain_modeFlags : Plain chan.modeFlags := by
  have hno : ∀ d, d ∉ '+' :: flagLetters.map Prod.fst ++ ['k', 'l', 'L', 'f', 'j'] →
      d ∉ chan.modeFlags := fun d hd hm => hd (mem_modeFlags hm)
  have hlen : chan.modeFlags.length ≤ 29 := modeFlags_length
  refine ⟨by simp [Channel.modeFlags], ?_, hno ' ' (by decide), hno '\r' (by decide),
    hno '\n' (by decide), by omega⟩
  rintro c hc rfl
  exact hno ':' (by decide) (List.mem_of_mem_head? hc)

theorem plain_int {z : Int} (hl : -(2 ^ 31) ≤ z) (hu : z ≤ intMax) :
    Plain (intDecimal z) ∧ (intDecimal z).length ≤ 11 := by
  have hdigits : (decimal z.natAbs).length ≤ 10 := by
    refine decimal_length_le (by decide) ?_
    simp only [intMax] at hu
    omega
  have hlen : (intDecimal z).length ≤ 11 := by
    unfold intDecimal
    split
    · rw [List.length_cons]
      omega
    · omega
  have hno : ∀ c, c.isDigit = false → c ≠ '-' → c ∉ intDecimal z := by
    intro c hc hm hin
    rcases mem_intDecimal hin with h | h
    · exact hm h
    · rw [hc] at h
      cases h
  refine ⟨⟨intDecimal_ne_nil z, ?_, hno ' ' (by decide) (by decide), hno '\r' (by decide) (by decide),
    hno '\n' (by decide) (by decide), by omega⟩, hlen⟩
  rintro c hc rfl
  exact hno ':' (by decide) (by decide) (List.mem_of_mem_head? hc)

theorem Parsed.clip_text {f : Flood} (h : Parsed f) :
    clip 99 (channelFloodParam f) = channelFloodParam f := by
  have := h.length_lt
  exact clip_of_fits (by omega)

variable (h : ParamsFit chan)

include h

/-- What is shown of a parameter can stand in a line. -/
theorem ParamsFit.plain_args : ∀ a ∈ chan.modeArgs, Plain a := by
  intro a ha
  obtain ⟨p, hp, rfl⟩ := List.mem_map.mp ha
  obtain ⟨hmem, hshown⟩ := List.mem_filter.mp hp
  simp only [Channel.shownParams, List.mem_cons, List.not_mem_nil, or_false] at hmem
  rcases hmem with rfl | rfl | rfl | rfl | rfl
  · have hk := h.key
    simp only [decide_eq_true_eq] at hshown
    rw [if_pos hshown.1] at hk
    exact hk.1
  · have hl := h.limit
    simp only [decide_eq_true_eq] at hshown
    rw [if_pos hshown.1] at hl
    exact (plain_int (by omega) hl.2).1
  · have hr := h.redirect
    simp only [decide_eq_true_eq] at hshown
    rw [if_pos hshown.1] at hr
    exact hr.1
  · simp only [decide_eq_true_eq] at hshown
    have hf := h.flood
    rw [if_pos hshown] at hf
    simp only [hf.clip_text]
    exact hf.plain
  · have hj := h.jthrot
    simp only [decide_eq_true_eq] at hshown
    rw [if_pos hshown.1] at hj
    obtain ⟨hn, hnl⟩ := plain_int (z := chan.jtJoins) (by omega) hj.1.2
    obtain ⟨hs, hsl⟩ := plain_int hj.2.1 hj.2.2
    exact hn.append_colon hs (by omega)

/-- **The string splits into the letters and the parameters.** -/
theorem strtok_channelModesString :
    strtok ' ' (channelModesString chan 360) = chan.modeFlags :: chan.modeArgs := by
  have hargs := h.room
  have hflags : chan.modeFlags.length ≤ 29 := modeFlags_length
  have hstr : channelModesString chan 360 = joinSep ' ' (chan.modeFlags :: chan.modeArgs) := by
    rw [channelModesString, foldl_appendParam _ _ _ (by simpa using hargs), List.nil_append,
      joinSep_eq_flatMap, Channel.modeArgs, List.flatMap_map]
    simp only [Channel.modeFlags] at hflags
    exact clip_of_fits (by simp only [List.length_append] at *; omega)
  rw [hstr]
  refine strtok_joinSep (fun w hw => ?_) fun w hw => ?_
  · rcases List.mem_cons.mp hw with rfl | hw
    · exact plain_modeFlags.ne_nil
    · exact (h.plain_args w hw).ne_nil
  · rcases List.mem_cons.mp hw with rfl | hw
    · exact plain_modeFlags.no_space
    · exact (h.plain_args w hw).no_space

end Fit

/-! ## 3. Reading what was written

Reading writes over what is there. Which settings come out is said as an operation on settings,
without the string. -/

/-- The modes of `a`, written over `s`. -/
def Settings.withModes (s a : Settings) : Settings :=
  { s with
    modes := s.modes ∪ a.modes
    key := if .k ∈ a.modes then a.key else s.key
    limit := if .l ∈ a.modes then a.limit else s.limit
    redirect := if .redirect ∈ a.modes then a.redirect else s.redirect
    flood := if .flood ∈ a.modes then a.flood else s.flood
    jtJoins := if .jthrot ∈ a.modes then a.jtJoins else s.jtJoins
    jtSecs := if .jthrot ∈ a.modes then a.jtSecs else s.jtSecs }

theorem stateLoop_flags : ∀ (xs : List (Char × CMode)), (∀ x ∈ xs, x ∈ flagLetters) →
    ∀ (cs : Text) (args : List Text) (s : Settings),
    stateLoop (xs.map Prod.fst ++ cs) args s =
      stateLoop cs args { s with modes := s.modes ∪ (xs.map Prod.snd).toFinset }
  | [], _, cs, args, s => by
    have hset : s.modes ∪ (([] : List (Char × CMode)).map Prod.snd).toFinset = s.modes := by simp
    rw [hset]
    rfl
  | x :: xs, h, cs, args, s => by
    have hall : ∀ x ∈ flagLetters, (x.1 ≠ '+' ∧ x.1 ≠ '-') ∧ channelFlagBit x.1 = some x.2 := by
      decide
    obtain ⟨hl, hb⟩ := hall x (h x (by simp))
    have ih := stateLoop_flags xs (fun y hy => h y (List.mem_cons_of_mem _ hy)) cs args
      { s with modes := insert x.2 s.modes }
    have hset : insert x.2 s.modes ∪ (xs.map Prod.snd).toFinset =
        s.modes ∪ ((x :: xs).map Prod.snd).toFinset := by
      ext b
      simp only [Finset.mem_union, Finset.mem_insert, List.map_cons, List.mem_toFinset,
        List.mem_cons]
      tauto
    rw [List.map_cons, List.cons_append, stateLoop_flag hl hb, ih, hset]

theorem stateLoop_params : ∀ (ps : List (Bool × Char × Text)),
    (∀ p ∈ ps, p.2.1 ∈ ['k', 'l', 'L', 'f', 'j']) → ∀ s : Settings,
    stateLoop (ps.map fun p => p.2.1) (ps.map fun p => p.2.2) s =
      ps.foldl (fun s p => stateParam s p.2.1 p.2.2) s
  | [], _, s => rfl
  | p :: ps, h, s => by
    have hall : ∀ c ∈ ['k', 'l', 'L', 'f', 'j'], (c ≠ '+' ∧ c ≠ '-') ∧ channelFlagBit c = none := by
      decide
    obtain ⟨hl, hb⟩ := hall p.2.1 (h p (by simp))
    rw [List.map_cons, List.map_cons, stateLoop_param hl hb, stateLoop_params ps (fun q hq => h q (List.mem_cons_of_mem _ hq)), List.foldl_cons]

theorem flag_or_param (b : CMode) : b ∈ flagLetters.map Prod.snd ∨
    b ∈ [CMode.k, .l, .redirect, .flood, .jthrot] := by
  cases b <;> decide

/-- The bit of one mode of `m`. -/
def oneMode (m : Finset CMode) (b : CMode) : Finset CMode := if b ∈ m then {b} else ∅

theorem mem_oneMode {m : Finset CMode} {b x : CMode} : x ∈ oneMode m b ↔ x = b ∧ b ∈ m := by
  unfold oneMode
  split <;> simp [*]

/-- The flags and the modes with parameters are all modes. -/
theorem modes_eq (s m : Finset CMode) :
    s ∪ ((flagLetters.filter fun x => x.2 ∈ m).map Prod.snd).toFinset ∪ oneMode m .k ∪
      oneMode m .l ∪ oneMode m .redirect ∪ oneMode m .flood ∪ oneMode m .jthrot = s ∪ m := by
  ext b
  simp only [Finset.mem_union, List.mem_toFinset, List.mem_map, List.mem_filter,
    decide_eq_true_eq, mem_oneMode]
  constructor
  · rintro ((((((h | ⟨x, ⟨-, hx⟩, rfl⟩) | ⟨rfl, h⟩) | ⟨rfl, h⟩) | ⟨rfl, h⟩) | ⟨rfl, h⟩) | ⟨rfl, h⟩)
    · exact Or.inl h
    all_goals exact Or.inr ‹_›
  · rintro (h | h)
    · simp [h]
    · rcases flag_or_param b with hb | hb
      · obtain ⟨x, hx, rfl⟩ := List.mem_map.mp hb
        exact Or.inl (Or.inl (Or.inl (Or.inl (Or.inl (Or.inr ⟨x, ⟨hx, h⟩, rfl⟩)))))
      · simp only [List.mem_cons, List.not_mem_nil, or_false] at hb
        rcases hb with rfl | rfl | rfl | rfl | rfl <;> simp [h]

theorem union_oneMode_of_mem {s m : Finset CMode} {b : CMode} (h : b ∈ m) :
    s ∪ oneMode m b = insert b s := by
  rw [oneMode, if_pos h, Finset.union_comm, Finset.insert_eq]

theorem union_oneMode_of_notMem {s m : Finset CMode} {b : CMode} (h : b ∉ m) :
    s ∪ oneMode m b = s := by
  rw [oneMode, if_neg h, Finset.union_empty]

section Steps

variable {chan : Channel} (h : ParamsFit chan) (s : Settings)

include h

theorem read_key_param : (if decide (.k ∈ chan.modes ∧ chan.key ≠ []) = true then
    stateParam s 'k' chan.key else s) = { s with
      modes := s.modes ∪ oneMode chan.modes .k
      key := if .k ∈ chan.modes then chan.key else s.key } := by
  have hk := h.key
  by_cases hm : .k ∈ chan.modes
  · rw [if_pos hm] at hk
    rw [if_pos (by simp [hm, hk.1.ne_nil]), union_oneMode_of_mem hm, if_pos hm, stateParam,
      if_pos rfl, clip_of_fits hk.2]
  · rw [if_neg (by simp [hm]), union_oneMode_of_notMem hm, if_neg hm]

theorem read_limit_param : (if decide (.l ∈ chan.modes ∧ 0 < chan.limit) = true then
    stateParam s 'l' (intDecimal chan.limit) else s) = { s with
      modes := s.modes ∪ oneMode chan.modes .l
      limit := if .l ∈ chan.modes then chan.limit else s.limit } := by
  have hl := h.limit
  by_cases hm : .l ∈ chan.modes
  · rw [if_pos hm] at hl
    have hpos : 0 < chan.limit := by omega
    rw [if_pos (by simp [hm, hpos]), union_oneMode_of_mem hm, if_pos hm, stateParam,
      if_neg (by decide), if_pos rfl, atoi_intDecimal (by omega) hl.2, if_pos hpos]
  · rw [if_neg (by simp [hm]), union_oneMode_of_notMem hm, if_neg hm]

theorem read_redirect_param : (if decide (.redirect ∈ chan.modes ∧ chan.redirect ≠ []) = true then
    stateParam s 'L' chan.redirect else s) = { s with
      modes := s.modes ∪ oneMode chan.modes .redirect
      redirect := if .redirect ∈ chan.modes then chan.redirect else s.redirect } := by
  have hr := h.redirect
  by_cases hm : .redirect ∈ chan.modes
  · rw [if_pos hm] at hr
    rw [if_pos (by simp [hm, hr.1.ne_nil]), union_oneMode_of_mem hm, if_pos hm]
    show { s with redirect := clip chanNameLen chan.redirect, modes := insert CMode.redirect s.modes } = _
    rw [clip_of_fits hr.2]
  · rw [if_neg (by simp [hm]), union_oneMode_of_notMem hm, if_neg hm]

theorem read_flood_param : (if decide (.flood ∈ chan.modes) = true then
    stateParam s 'f' (clip 99 (channelFloodParam chan.flood)) else s) = { s with
      modes := s.modes ∪ oneMode chan.modes .flood
      flood := if .flood ∈ chan.modes then chan.flood else s.flood } := by
  have hf := h.flood
  by_cases hm : .flood ∈ chan.modes
  · rw [if_pos hm] at hf
    rw [if_pos (by simp [hm]), union_oneMode_of_mem hm, if_pos hm, hf.clip_text]
    show (match parseFlood (channelFloodParam chan.flood) with
      | some f => { s with flood := f, modes := insert CMode.flood s.modes }
      | none => s) = _
    rw [hf.parse]
  · rw [if_neg (by simp [hm]), union_oneMode_of_notMem hm, if_neg hm]

theorem read_jthrot_param : (if decide (.jthrot ∈ chan.modes ∧ 0 < chan.jtJoins) = true then
    stateParam s 'j' (intDecimal chan.jtJoins ++ ':' :: intDecimal chan.jtSecs) else s) = { s with
      modes := s.modes ∪ oneMode chan.modes .jthrot
      jtJoins := if .jthrot ∈ chan.modes then chan.jtJoins else s.jtJoins
      jtSecs := if .jthrot ∈ chan.modes then chan.jtSecs else s.jtSecs } := by
  have hj := h.jthrot
  by_cases hm : .jthrot ∈ chan.modes
  · rw [if_pos hm] at hj
    have hpos : 0 < chan.jtJoins := by omega
    rw [if_pos (by simp [hm, hpos]), union_oneMode_of_mem hm, if_pos hm, if_pos hm]
    show (match scanPair (intDecimal chan.jtJoins ++ ':' :: intDecimal chan.jtSecs) with
      | some (n, secs) => { s with jtJoins := n, jtSecs := secs, modes := insert CMode.jthrot s.modes }
      | none => s) = _
    rw [scanPair_print (by omega) hj.1.2 hj.2.1 hj.2.2]
  · rw [if_neg (by simp [hm]), union_oneMode_of_notMem hm, if_neg hm, if_neg hm]

end Steps

/-- **Reading the string writes the modes it was written from.** -/
theorem stateLoop_modes {chan : Channel} (h : ParamsFit chan) (s : Settings) :
    stateLoop chan.modeFlags chan.modeArgs s = s.withModes chan.toSettings := by
  have hflags : ∀ cs args, stateLoop ('+' ::
      (flagLetters.filter fun x => x.2 ∈ chan.modes).map Prod.fst ++ cs) args s =
      stateLoop cs args { s with modes := s.modes ∪
        ((flagLetters.filter fun x => x.2 ∈ chan.modes).map Prod.snd).toFinset } := by
    intro cs args
    rw [List.cons_append, stateLoop_sign (Or.inl rfl)]
    exact stateLoop_flags _ (fun x hx => List.mem_of_mem_filter hx) cs args s
  have hletters : ∀ p ∈ chan.shownParams.filter Prod.fst, p.2.1 ∈ ['k', 'l', 'L', 'f', 'j'] := by
    intro p hp
    have hmem := List.mem_of_mem_filter hp
    simp only [Channel.shownParams, List.mem_cons, List.not_mem_nil, or_false] at hmem
    rcases hmem with rfl | rfl | rfl | rfl | rfl <;> simp
  rw [Channel.modeFlags, hflags, Channel.modeArgs, stateLoop_params _ hletters,
    List.foldl_filter]
  simp only [Channel.shownParams, List.foldl_cons, List.foldl_nil, read_key_param h,
    read_limit_param h, read_redirect_param h, read_flood_param h, read_jthrot_param h, modes_eq]
  rfl

theorem withModes_cleared {s : Settings} {a : Channel} (h : ParamsFit a) :
    s.cleared.withModes a.toSettings = { a.toSettings with bans := s.bans, exceptions := s.exceptions, invex := s.invex } := by
  have hk := h.key
  have hl := h.limit
  have hr := h.redirect
  have hf := h.flood
  have hj := h.jthrot
  have hor : ∀ {p : Prop} [Decidable p] {α : Type} {x y : α} {q : Prop},
      (if p then q else x = y) → (if p then x else y) = x := by
    intro p _ α x y q h
    split
    · rfl
    · rename_i hp
      rw [if_neg hp] at h
      exact h.symm
  simp only [Settings.withModes, Settings.cleared, Settings.none, Finset.empty_union, hor hk, hor hl,
    hor hr, hor hf]
  split
  · rfl
  · rename_i hm
    rw [if_neg hm] at hj
    rw [hj.1, hj.2]

theorem withModes_idem (s a : Settings) : (s.withModes a).withModes a = s.withModes a := by
  simp only [Settings.withModes, Finset.union_assoc, Finset.union_idempotent]
  congr 1 <;> split <;> simp_all

end SekurIRCd
