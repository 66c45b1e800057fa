/-
# MLOCK: what is applied

`apply_mlock` prints the stored lock as one MODE line, and the ircd reads that line with a parser
and with checks of its own, which are not those of `mlock_parse`.

A lock arrives whole exactly when the ircd takes each of its parameters: the key does not start
with a colon, which `irc_parse_line` takes for the trailing parameter; the numbers, as they are
stored, are numbers for the ircd too; the redirect does not name the channel itself; and the
parameters fit the 300 bytes they are printed in (`mlock_applied_iff`).
-/
import SekurIRCd.Services.Mlock

namespace SekurIRCd

open CLib CLib.Signed

/-! ## 1. The line

Letters and arguments are printed into buffers, and it must be seen that what is read with the
arguments is what was locked. -/

theorem clip_append_clip (n : Nat) (s t : Text) : clip n (clip n s ++ t) = clip n (s ++ t) := by
  by_cases h : s.length < n
  · rw [clip_of_fits h]
  · simp only [clip]
    rw [List.take_append_of_le_length (by rw [List.length_take]; omega),
      List.take_append_of_le_length (by omega), List.take_take, Nat.min_self]

/-- A word appended to a buffer of words, as far as there is room. -/
theorem strncat_word {n : Nat} (hn : 1 < n) {ws : List Text} (h : ∀ w ∈ ws, w ≠ []) (v : Text) :
    strncat n (strncat n (clip n (joinSep ' ' ws))
        (if clip n (joinSep ' ' ws) = [] then [] else [' '])) v =
      clip n (joinSep ' ' (ws ++ [v])) := by
  by_cases hws : ws = []
  · subst hws
    simp [strncat, clip]
  · have hne : clip n (joinSep ' ' ws) ≠ [] := by
      have hjoin : joinSep ' ' ws ≠ [] := joinSep_ne_nil hws h
      obtain ⟨c, cs, hc⟩ := List.exists_cons_of_ne_nil hjoin
      obtain ⟨k, rfl⟩ : ∃ k, n = k + 2 := ⟨n - 2, by omega⟩
      simp [hc, clip]
    rw [if_neg hne, strncat, strncat, clip_append_clip, List.append_assoc, clip_append_clip,
      joinSep_concat hws, List.singleton_append]

theorem foldl_addArg {vs : List Text} (h : ∀ v ∈ vs, v ≠ []) :
    vs.foldl addArg [] = clip 300 (joinSep ' ' vs) := by
  induction vs using List.reverseRecOn with
  | nil => rfl
  | append_singleton vs v ih =>
    have hvs : ∀ w ∈ vs, w ≠ [] := fun w hw => h w (List.mem_append_left _ hw)
    rw [List.foldl_append, ih hvs, List.foldl_cons, List.foldl_nil, addArg]
    exact strncat_word (by decide) hvs v

namespace Mlock

variable {m : Mlock}

/-- What the lock wants, letter by letter; `-k` goes with an argument that does not matter. -/
def demands (m : Mlock) : List (Signed Text) :=
  m.on.map (⟨true, ·, Option.none⟩) ++ m.locked.map (fun x => ⟨true, x.1, some x.2⟩) ++
    m.off.map fun c => ⟨false, c, if c = 'k' then some ['*'] else Option.none⟩

/-- The mode string. -/
def modes (m : Mlock) : Text :=
  (if m.on = [] ∧ m.locked = [] then [] else '+' :: (m.on ++ m.locked.map Prod.fst)) ++
    if m.off = [] then [] else '-' :: m.off

theorem letter_mem_of_locked {x : Char × Text} (h : x ∈ m.locked) : x.1 ∈ mlockParams := by
  obtain ⟨h, -⟩ := mem_locked.mp h
  have hparams : mlockParams = ['k', 'l', 'f', 'j', 'L'] := rfl
  simp only [List.mem_cons, List.not_mem_nil, or_false] at h
  rcases h with rfl | rfl | rfl | rfl | rfl <;> simp [hparams]

theorem letters_demands (m : Mlock) :
    m.demands.map Signed.letter = m.on ++ m.locked.map Prod.fst ++ m.off := by
  simp [demands, Function.comp_def]

theorem Accepted.lockable (h : m.Accepted) : ∀ t ∈ m.demands, Lockable t.letter := by
  intro t ht
  have hmem : t.letter ∈ m.on ++ m.locked.map Prod.fst ++ m.off :=
    letters_demands m ▸ List.mem_map_of_mem ht
  rcases List.mem_append.mp hmem with hmem | hmem
  · rcases List.mem_append.mp hmem with hmem | hmem
    · exact Or.inl (h.on_flags _ hmem)
    · obtain ⟨x, hx, hxt⟩ := List.mem_map.mp hmem
      exact Or.inr (hxt ▸ letter_mem_of_locked hx)
  · exact h.off_letters _ hmem

theorem Accepted.distinct (h : m.Accepted) : (m.demands.map Signed.letter).Nodup := by
  have hparams : (m.locked.map Prod.fst).Nodup := by
    have hsub : (m.locked.map Prod.fst).Sublist ['k', 'l', 'f', 'j', 'L'] :=
      List.filter_sublist.map Prod.fst
    exact hsub.nodup (by decide)
  have hdisj := List.disjoint_of_nodup_append h.nodup
  have hflags : ∀ c ∈ mlockFlags, c ∉ mlockParams := by decide
  rw [letters_demands, List.append_assoc]
  refine h.nodup.of_append_left.append (hparams.append h.nodup.of_append_right ?_) ?_
  · intro c hc hoff
    obtain ⟨x, hx, rfl⟩ := List.mem_map.mp hc
    exact (h.stored x hx).2 hoff
  · intro c hc hrest
    rcases List.mem_append.mp hrest with hp | hoff
    · obtain ⟨x, hx, rfl⟩ := List.mem_map.mp hp
      exact hflags _ (h.on_flags _ hc) (letter_mem_of_locked hx)
    · exact hdisj hc hoff

theorem Accepted.length_le (h : m.Accepted) :
    (m.on ++ m.locked.map Prod.fst ++ m.off).length ≤ 27 := by
  have hsub : m.on ++ m.locked.map Prod.fst ++ m.off ⊆ mlockFlags ++ mlockParams := by
    rw [← letters_demands]
    intro c hc
    obtain ⟨t, ht, rfl⟩ := List.mem_map.mp hc
    exact List.mem_append.mpr (h.lockable t ht)
  have hnodup := h.distinct
  rw [letters_demands] at hnodup
  exact (List.subperm_of_subset hnodup hsub).length_le

theorem argsOf_demands (m : Mlock) : argsOf m.demands =
    m.locked.map Prod.snd ++ (m.off.filter (· = 'k')).map fun _ => ['*'] := by
  have hon : ∀ l : Text, argsOf (l.map (⟨true, ·, Option.none⟩ : Char → Signed Text)) = [] := by
    intro l
    induction l with
    | nil => rfl
    | cons c l ih => rw [List.map_cons, argsOf_cons, ih]; rfl
  have hparams : ∀ l : List (Char × Text),
      argsOf (l.map fun x => (⟨true, x.1, some x.2⟩ : Signed Text)) = l.map Prod.snd := by
    intro l
    induction l with
    | nil => rfl
    | cons c l ih => rw [List.map_cons, argsOf_cons, ih]; rfl
  have hoff : ∀ l : Text,
      argsOf (l.map fun c =>
        (⟨false, c, if c = 'k' then some ['*'] else Option.none⟩ : Signed Text)) =
          (l.filter (· = 'k')).map fun _ => ['*'] := by
    intro l
    induction l with
    | nil => rfl
    | cons c l ih =>
      rw [List.map_cons, argsOf_cons, ih]
      by_cases hc : c = 'k' <;> simp [hc]
  rw [demands, argsOf_append, argsOf_append, hon, hparams, hoff, List.nil_append]

/-- `apply_mlock` prints all of it. -/
theorem Accepted.lockModes (h : m.Accepted) (rec : ChanRec) :
    (rec.withMlock m).lockModes = (m.modes, (argsOf m.demands).foldl addArg []) := by
  have hlen := h.length_le
  simp only [List.length_append, List.length_map] at hlen
  have hon : m.on.take 55 = m.on := List.take_of_length_le (by omega)
  have hlocked : (rec.withMlock m).lockedParams = m.locked := rfl
  have hmlock : (rec.withMlock m).mlock = m.on ∧ (rec.withMlock m).mlockOff = m.off := ⟨rfl, rfl⟩
  have hstar : ∀ (l : Text) (a : Text), l.foldl (fun a _ => addArg a ['*']) a =
      (l.map fun _ => ['*']).foldl addArg a := fun l a => by rw [List.foldl_map]
  rw [argsOf_demands, List.foldl_append, ← hstar]
  simp only [ChanRec.lockModes, hlocked, hmlock, hon, modes]
  by_cases hany : m.on = [] ∧ m.locked = []
  · obtain ⟨h1, h2⟩ := hany
    by_cases hoff : m.off = []
    · simp [h1, h2, hoff]
    · simp [h1, h2, hoff, List.take_of_length_le (show m.off.length ≤ 61 by omega)]
  · have hany' : m.on ≠ [] ∨ m.locked ≠ [] := by
      by_contra hno
      rw [not_or, not_not, not_not] at hno
      exact hany hno
    by_cases hoff : m.off = []
    · simp [hany, hany', hoff]
    · have hroom : m.off.length ≤ 60 - (m.on.length + m.locked.length) := by omega
      simp [hany, hany', hoff, List.take_of_length_le hroom]

theorem mem_locked_iff {c : Char} {v : Text} : (c, v) ∈ m.locked ↔ v ≠ [] ∧
    (c = 'k' ∧ v = m.key ∨ c = 'l' ∧ v = m.limit ∨ c = 'f' ∧ v = m.flood ∨ c = 'j' ∧ v = m.jt ∨
      c = 'L' ∧ v = m.redirect) := by
  rw [mem_locked]
  simp only [List.mem_cons, Prod.mk.injEq, List.not_mem_nil, or_false]
  exact and_comm

/-- The letters of the mode string, read with some arguments. -/
theorem walk_modes (m : Mlock) (as : List Text) : walk takesArg true m.modes as =
    walk takesArg true
      (m.on ++ m.locked.map Prod.fst ++ if m.off = [] then [] else '-' :: m.off) as := by
  unfold modes
  split
  · rename_i h
    rw [h.1, h.2]
    rfl
  · rfl

end Mlock

section Written

variable {m : Mlock}

/-- The letters forced on, and those forced off, are written under one sign. -/
theorem Mlock.Accepted.on_written (h : m.Accepted) :
    ∀ t ∈ m.on.map (fun c => (⟨true, c, Option.none⟩ : Signed Text)),
      t.add = true ∧ IsLetter t.letter ∧ t.arg.isSome = takesArg true t.letter := by
  have hflags : ∀ c ∈ mlockFlags, IsLetter c ∧ takesArg true c = false := by decide
  intro t ht
  obtain ⟨c, hc, rfl⟩ := List.mem_map.mp ht
  obtain ⟨hl, htakes⟩ := hflags c (h.on_flags c hc)
  exact ⟨rfl, hl, htakes.symm⟩

theorem Mlock.locked_written (m : Mlock) :
    ∀ t ∈ m.locked.map (fun x => (⟨true, x.1, some x.2⟩ : Signed Text)),
      t.add = true ∧ IsLetter t.letter ∧ t.arg.isSome = takesArg true t.letter := by
  have hparams : ∀ c ∈ mlockParams, IsLetter c ∧ takesArg true c = true := by decide
  intro t ht
  obtain ⟨x, hx, rfl⟩ := List.mem_map.mp ht
  obtain ⟨hl, htakes⟩ := hparams x.1 (Mlock.letter_mem_of_locked hx)
  exact ⟨rfl, hl, htakes.symm⟩

theorem Mlock.Accepted.off_written (h : m.Accepted) :
    ∀ t ∈ m.off.map (fun c =>
      (⟨false, c, if c = 'k' then some ['*'] else Option.none⟩ : Signed Text)),
      t.add = false ∧ IsLetter t.letter ∧ t.arg.isSome = takesArg false t.letter := by
  have hflags : ∀ c ∈ mlockFlags, IsLetter c ∧ takesArg false c = decide (c = 'k') := by decide
  have hparams : ∀ c ∈ mlockParams, IsLetter c ∧ takesArg false c = decide (c = 'k') := by decide
  intro t ht
  obtain ⟨c, hc, rfl⟩ := List.mem_map.mp ht
  obtain ⟨hl, htakes⟩ := (h.off_letters c hc).elim (hflags c) (hparams c)
  refine ⟨rfl, hl, ?_⟩
  rw [htakes]
  by_cases hk : c = 'k' <;> simp [hk]

/-- With its own arguments the mode string says what the lock wants. -/
theorem Mlock.Accepted.walk_demands (h : m.Accepted) :
    walk takesArg true m.modes (argsOf m.demands) = m.demands := by
  have hon : ∀ t ∈ m.on.map (fun c => (⟨true, c, Option.none⟩ : Signed Text)) ++
      m.locked.map (fun x => (⟨true, x.1, some x.2⟩ : Signed Text)),
      t.add = true ∧ IsLetter t.letter ∧ t.arg.isSome = takesArg true t.letter := fun t ht =>
    (List.mem_append.mp ht).elim (h.on_written t) (m.locked_written t)
  have hletters : m.on ++ m.locked.map Prod.fst =
      (m.on.map (fun c => (⟨true, c, Option.none⟩ : Signed Text)) ++
        m.locked.map (fun x => (⟨true, x.1, some x.2⟩ : Signed Text))).map Signed.letter := by
    simp [Function.comp_def]
  rw [Mlock.walk_modes, hletters, Mlock.demands, argsOf_append, walk_written _ _ hon]
  congr 1
  have hoff := walk_written [] [] h.off_written
  have hoffl : (m.off.map fun c =>
      (⟨false, c, if c = 'k' then some ['*'] else Option.none⟩ : Signed Text)).map Signed.letter =
        m.off := by
    simp [Function.comp_def]
  rw [hoffl, List.append_nil, List.append_nil] at hoff
  split
  · rename_i hnil
    rw [hnil]
    rfl
  · exact hoff.trans (List.append_nil _)

end Written

/-- What is stored is a word; only a key may start with a colon. -/
theorem Stored.word {c : Char} {v : Text} (h : Stored c v) (hc : c ∈ mlockParams) :
    v ≠ [] ∧ ' ' ∉ v ∧ (c ≠ 'k' → v.head? ≠ some ':') := by
  obtain ⟨arg, hne, hsp, hok, rfl⟩ := h
  obtain ⟨d, arg, rfl⟩ := List.exists_cons_of_ne_nil hne
  refine ⟨by simp [clip], fun h => hsp (mem_of_mem_clip h), fun hk hhead => ?_⟩
  obtain rfl : d = ':' := by simpa [clip] using hhead
  have hnum : strtol (':' :: arg) = none := by simp [strtol, takeSign, isSpace]
  have hparams : mlockParams = ['k', 'l', 'f', 'j', 'L'] := rfl
  simp only [hparams, List.mem_cons, List.not_mem_nil, or_false] at hc
  rcases hc with rfl | rfl | rfl | rfl | rfl
  · exact hk rfl
  · simp [mlockArg, hnum] at hok
  · simp [mlockArg, mlockRate, scanRate, hnum] at hok
  · simp [mlockArg, mlockRate, scanRate, hnum] at hok
  · have hhash := valid_channel_head (show ircValidChannel (':' :: arg) 50 = true by
      simpa [mlockArg] using hok)
    simp at hhash

theorem Stored.length_le {c : Char} {v : Text} (h : Stored c v) :
    v.length ≤ 79 ∧ (c = 'k' → v.length < 60) ∧ (c = 'L' → ircValidChannel v 50 = true) := by
  obtain ⟨arg, -, -, hok, rfl⟩ := h
  refine ⟨clip_length_le 80 arg, ?_, ?_⟩
  · rintro rfl
    have hlen : arg.length < 60 := by simpa [mlockArg] using hok
    rwa [clip_of_fits (by omega)]
  · rintro rfl
    have hvalid : ircValidChannel arg 50 = true := by simpa [mlockArg] using hok
    rwa [clip_of_fits (Nat.lt_of_le_of_lt (valid_channel_length hvalid) (by decide))]

/-! ## 2. At the ircd -/

/-- A MODE line from the services, in `link.c`'s handler, for the channel it names. -/
def svcMode (srv : Server) (svc : Client) (chan : Channel) (line : Text) : Channel :=
  match ircParseLine line with
  | some ⟨_, _, command, _ :: modes :: args⟩ =>
    if caseEq command "MODE".toList then
      (cmdApplyChannelMode srv svc chan modes (args.take 16) true).chan
    else chan
  | _ => chan

/-- The channel after what `apply_mlock` sends. -/
def lockApplied (srv : Server) (svc : Client) (cfg : ServicesCfg) (rec : ChanRec) (name : Text)
    (chan : Channel) : Channel :=
  (applyMlock cfg rec name).foldl (svcMode srv svc) chan

/-- **The channel satisfies the lock**: it meets every letter of it, the parameters included. -/
def Channel.Satisfies (chan : Channel) (m : Mlock) : Prop := ∀ t ∈ m.demands, chan.Meets t

/-- **When a lock arrives whole.**  The key does not start with a colon, the ircd takes what is
stored for the other parameters, and all of them fit the buffer. -/
structure Mlock.Carried (m : Mlock) (name : Text) : Prop where
  key : m.key.head? ≠ some ':'
  limit : m.limit ≠ [] → ∃ n, strtol m.limit = some (n, []) ∧ 1 ≤ n ∧ n ≤ intMax
  flood : m.flood ≠ [] → (parseFlood m.flood).isSome = true
  jt : m.jt ≠ [] → (parseRate m.jt).isSome = true
  redirect : m.redirect ≠ [] → ircCasefold chanNameLen m.redirect ≠ ircCasefold chanNameLen name
  room : (joinSep ' ' (m.locked.map Prod.snd)).length < 300

section Applied

variable {srv : Server} {svc : Client} {cfg : ServicesCfg} {name : Text} {m : Mlock}

/-- What ChanServ's lines begin with is a word, and leaves room in its 700 bytes for all that
`apply_mlock` may print. -/
structure ServicesCfg.Fits (cfg : ServicesCfg) : Prop where
  source : Source cfg.source
  short : cfg.source.length ≤ 311

theorem command_mode : Command "MODE".toList := by decide

theorem Mlock.Accepted.chars (h : m.Accepted) : ∀ c ∈ m.modes, c = '+' ∨ c = '-' ∨ Lockable c := by
  have hletters : ∀ c ∈ m.on ++ m.locked.map Prod.fst ++ m.off, Lockable c := by
    rw [← Mlock.letters_demands]
    intro c hc
    obtain ⟨t, ht, rfl⟩ := List.mem_map.mp hc
    exact h.lockable t ht
  intro c hc
  rcases List.mem_append.mp hc with hc | hc
  · split at hc
    · exact absurd hc (by simp)
    · rcases List.mem_cons.mp hc with rfl | hc
      · exact Or.inl rfl
      · exact Or.inr (Or.inr (hletters c (List.mem_append_left _ hc)))
  · split at hc
    · exact absurd hc (by simp)
    · rcases List.mem_cons.mp hc with rfl | hc
      · exact Or.inr (Or.inl rfl)
      · exact Or.inr (Or.inr (hletters c (List.mem_append_right _ hc)))

theorem Mlock.Accepted.modes_length (h : m.Accepted) : m.modes.length ≤ 29 := by
  have hlen := h.length_le
  simp only [List.length_append] at hlen
  rw [Mlock.modes, List.length_append]
  split <;> split <;> simp only [List.length_nil, List.length_cons, List.length_append] <;> omega

/-- A string of signs and of letters of a lock is a word. -/
theorem words_of_chars (hname : ircValidChannel name 50 = true) {modes : Text} (hne : modes ≠ [])
    (hchars : ∀ c ∈ modes, c = '+' ∨ c = '-' ∨ Lockable c) : Words [name, modes] := by
  have hplain := plain_of_valid_channel hname
  have hsafe : ∀ c ∈ '+' :: '-' :: (mlockFlags ++ mlockParams), c ≠ ' ' ∧ c ≠ ':' := by decide
  have hchars' : ∀ c ∈ modes, c ≠ ' ' ∧ c ≠ ':' := fun c hc => hsafe c (by
    simp only [List.mem_cons, List.mem_append]
    exact hchars c hc)
  intro w hw
  rcases List.mem_cons.mp hw with rfl | hw
  · exact ⟨hplain.ne_nil, hplain.no_space, hplain.head_ne_colon⟩
  · obtain rfl := List.mem_singleton.mp hw
    exact ⟨hne, fun hsp => (hchars' _ hsp).1 rfl,
      fun c hc => (hchars' c (List.mem_of_mem_head? hc)).2⟩

theorem Mlock.Accepted.words (h : m.Accepted) (hname : ircValidChannel name 50 = true)
    (hne : m.modes ≠ []) : Words [name, m.modes] :=
  words_of_chars hname hne h.chars

theorem Mlock.Accepted.paramsSet_le (h : m.Accepted) (chanName : Text) (as : List Text) :
    paramsSet chanName (walk takesArg true m.modes as).dropLast ≤ 5 := by
  have hletters : (walk takesArg true m.modes as).map Signed.letter =
      m.demands.map Signed.letter := by
    rw [letters_walk as (argsOf m.demands), h.walk_demands]
  have hdistinct : (((walk takesArg true m.modes as).dropLast.filter fun t =>
      SetsParam chanName t).map Signed.letter).Nodup := by
    have hnodup : ((walk takesArg true m.modes as).map Signed.letter).Nodup := hletters ▸ h.distinct
    exact hnodup.sublist ((List.filter_sublist.trans (List.dropLast_sublist _)).map _)
  have hsub : ((walk takesArg true m.modes as).dropLast.filter fun t =>
      SetsParam chanName t).map Signed.letter ⊆ mlockParams := by
    intro c hc
    obtain ⟨t, ht, rfl⟩ := List.mem_map.mp hc
    exact (of_decide_eq_true (List.mem_filter.mp ht).2).2.1
  have hle := (List.subperm_of_subset hdistinct hsub).length_le
  rwa [List.length_map, ← List.countP_eq_length_filter] at hle

theorem Mlock.Accepted.command (h : m.Accepted) (hsvc : svc.isService = true) (chan : Channel)
    (as : List Text) : (cmdApplyChannelMode srv svc chan m.modes as true).chan =
      (walk takesArg true m.modes as).foldl (svcLetter srv svc) chan := by
  rw [cmdApplyChannelMode_chan]
  refine modeLoop_walk hsvc m.modes (ModeRun.start chan as) h.chars ?_ ?_
  · have hlen := h.modes_length
    simp only [ModeRun.used, ModeRun.start, List.length_nil, reduceCtorEq, if_false]
    omega
  · have hlen := h.paramsSet_le chan.name as
    simp only [ModeRun.start, List.length_nil, maxModeParams]
    omega

theorem wireModeArgs_eq (hcfg : cfg.Fits) (hname : ircValidChannel name 50 = true)
    {modes args : Text} (hroom : modes.length + args.length ≤ 328) :
    wireModeArgs cfg name modes args = ':' :: cfg.source ++ ' ' ::
      (joinSep ' ' ["MODE".toList, name, modes] ++ if args = [] then [] else ' ' :: args) := by
  have hlen := valid_channel_length hname
  have hsrc := hcfg.short
  rw [wireModeArgs, clip_of_fits]
  · simp [joinSep]
  · split <;> simp <;> omega

/-- The arguments as they are printed. -/
def Mlock.printed (m : Mlock) : Text := clip 300 (joinSep ' ' (argsOf m.demands))

/-- One line is sent, and none for the empty lock. -/
theorem Mlock.Accepted.applied (h : m.Accepted) (hcfg : cfg.Fits)
    (hname : ircValidChannel name 50 = true) (hargs : ∀ v ∈ argsOf m.demands, v ≠ [])
    (hne : m.modes ≠ []) (rec : ChanRec) (chan : Channel) :
    lockApplied srv svc cfg (rec.withMlock m) name chan =
      svcMode srv svc chan (':' :: cfg.source ++ ' ' ::
        (joinSep ' ' ["MODE".toList, name, m.modes] ++
          if m.printed = [] then [] else ' ' :: m.printed)) := by
  have hlen : m.printed.length < 300 := Nat.lt_of_le_of_lt (clip_length_le 300 _) (by decide)
  have hmodes := h.modes_length
  rw [lockApplied, applyMlock, h.lockModes, if_neg hne, foldl_addArg hargs,
    ← wireModeArgs_eq hcfg hname (by omega)]
  rfl

/-- Words are read back, also with a blank behind them. -/
theorem svcMode_words (hcfg : cfg.Fits) {modes args : Text} {ws : List Text}
    (hname : Words [name, modes]) (hw : Words ws) (hlen : ws.length ≤ 16)
    (hargs : args = joinSep ' ' ws ∨ ws ≠ [] ∧ args = joinSep ' ' ws ++ [' ']) (chan : Channel) :
    svcMode srv svc chan (':' :: cfg.source ++ ' ' :: (joinSep ' ' ["MODE".toList, name, modes] ++
        if args = [] then [] else ' ' :: args)) =
      (cmdApplyChannelMode srv svc chan modes ws true).chan := by
  have hwords : Words (name :: modes :: ws) := by
    intro w hw'
    rcases List.mem_cons.mp hw' with rfl | hw'
    · exact hname _ List.mem_cons_self
    · rcases List.mem_cons.mp hw' with rfl | hw'
      · exact hname _ (by simp)
      · exact hw w hw'
  have hmax : (name :: modes :: ws).length ≤ ircMaxParams := by
    simp only [List.length_cons, ircMaxParams]
    omega
  have hjoin : ws ≠ [] → joinSep ' ' ["MODE".toList, name, modes] ++ ' ' :: joinSep ' ' ws =
      joinSep ' ' ("MODE".toList :: name :: modes :: ws) := by
    intro hws
    rw [joinSep_cons "MODE".toList (List.cons_ne_nil name (modes :: ws)),
      joinSep_cons name (List.cons_ne_nil modes ws), joinSep_cons modes hws]
    simp [joinSep]
  have hnil : ws ≠ [] → joinSep ' ' ws ≠ [] := fun hws =>
    joinSep_ne_nil hws fun w hw' => (hw w hw').1
  have hparse : ircParseLine (':' :: cfg.source ++ ' ' ::
        (joinSep ' ' ["MODE".toList, name, modes] ++ if args = [] then [] else ' ' :: args)) =
      some ⟨[], some cfg.source, "MODE".toList, name :: modes :: ws⟩ := by
    rw [ircParseLine_source hcfg.source.no_space]
    rcases hargs with hp | ⟨hws, hp⟩
    · by_cases hws : ws = []
      · subst hws
        rw [hp, joinSep_nil, if_pos rfl, List.append_nil]
        exact parseBody_words command_mode hwords hmax
      · rw [hp, if_neg (hnil hws), hjoin hws]
        exact parseBody_words command_mode hwords hmax
    · rw [hp, if_neg (by simp), ← List.cons_append, ← List.append_assoc, hjoin hws]
      exact parseBody_words_blank command_mode hwords hmax
  rw [svcMode, hparse]
  simp only [List.take_of_length_le hlen]
  exact if_pos (by decide)

theorem Mlock.Accepted.applied_words (h : m.Accepted) (hcfg : cfg.Fits)
    (hname : ircValidChannel name 50 = true) (hsvc : svc.isService = true)
    (hargs : ∀ v ∈ argsOf m.demands, v ≠ []) (hne : m.modes ≠ []) {ws : List Text} (hw : Words ws)
    (hlen : ws.length ≤ 16)
    (hprinted : m.printed = joinSep ' ' ws ∨ ws ≠ [] ∧ m.printed = joinSep ' ' ws ++ [' '])
    (rec : ChanRec) (chan : Channel) : lockApplied srv svc cfg (rec.withMlock m) name chan =
      (walk takesArg true m.modes ws).foldl (svcLetter srv svc) chan := by
  rw [h.applied hcfg hname hargs hne, svcMode_words hcfg (h.words hname hne) hw hlen hprinted]
  exact h.command hsvc chan ws

/-- A key with a colon in front swallows the rest. -/
theorem Mlock.Accepted.applied_trailing (h : m.Accepted) (hcfg : cfg.Fits)
    (hname : ircValidChannel name 50 = true) (hsvc : svc.isService = true)
    (hargs : ∀ v ∈ argsOf m.demands, v ≠ []) (hne : m.modes ≠ []) {tr : Text}
    (hprinted : m.printed = ':' :: tr) (rec : ChanRec) (chan : Channel) :
    lockApplied srv svc cfg (rec.withMlock m) name chan =
      (walk takesArg true m.modes [tr]).foldl (svcLetter srv svc) chan := by
  have hparse : ircParseLine (':' :: cfg.source ++ ' ' ::
        (joinSep ' ' ["MODE".toList, name, m.modes] ++
          if m.printed = [] then [] else ' ' :: m.printed)) =
      some ⟨[], some cfg.source, "MODE".toList, [name, m.modes] ++ [tr]⟩ := by
    rw [ircParseLine_source hcfg.source.no_space, hprinted, if_neg (by simp)]
    exact parseBody_words_trailing command_mode (h.words hname hne) (by simp [ircMaxParams]) tr
  rw [h.applied hcfg hname hargs hne, svcMode, hparse]
  exact (if_pos (by decide)).trans (h.command hsvc chan [tr])

end Applied

/-! ## 3. What has room -/

section Sizes

variable {m : Mlock}

/-- What a parameter takes of the buffer, with a blank. -/
def paramSize (v : Text) : Nat := if v = [] then 0 else v.length + 1

theorem sum_locked (m : Mlock) : ((m.locked.map Prod.snd).map fun v => v.length + 1).sum =
    paramSize m.key + paramSize m.limit + paramSize m.flood + paramSize m.jt +
      paramSize m.redirect := by
  have hall : ∀ l : List (Char × Text),
      (((l.filter (·.2 ≠ [])).map Prod.snd).map fun v => v.length + 1).sum =
        (l.map fun x => paramSize x.2).sum := by
    intro l
    induction l with
    | nil => rfl
    | cons x l ih =>
      by_cases hx : x.2 = []
      · rw [List.filter_cons_of_neg (by simpa using hx), ih, List.map_cons, List.sum_cons,
          paramSize, if_pos hx, Nat.zero_add]
      · rw [List.filter_cons_of_pos (by simpa using hx), List.map_cons, List.map_cons,
          List.sum_cons, ih, List.map_cons, List.sum_cons, paramSize, if_neg hx]
  rw [Mlock.locked, hall]
  simp only [List.map_cons, List.map_nil, List.sum_cons, List.sum_nil]
  omega

/-- A key takes 60 bytes at most, a redirect 51 and a number 80. -/
theorem Mlock.Accepted.sizes (h : m.Accepted) : paramSize m.key ≤ 60 ∧ paramSize m.limit ≤ 80 ∧
    paramSize m.flood ≤ 80 ∧ paramSize m.jt ≤ 80 ∧ paramSize m.redirect ≤ 51 := by
  have hsize : ∀ {c v n}, (v ≠ [] → (c, v) ∈ m.locked) → (Stored c v → v.length ≤ n) →
      paramSize v ≤ n + 1 := by
    intro c v n hmem hlen
    rw [paramSize]
    split
    · exact Nat.zero_le _
    · rename_i hv
      exact Nat.succ_le_succ (hlen (h.stored _ (hmem hv)).1)
  refine ⟨hsize (c := 'k') (n := 59) ?_ ?_, hsize (c := 'l') (n := 79) ?_ ?_,
    hsize (c := 'f') (n := 79) ?_ ?_, hsize (c := 'j') (n := 79) ?_ ?_,
    hsize (c := 'L') (n := 50) ?_ ?_⟩
  · exact fun hv => Mlock.mem_locked_iff.mpr ⟨hv, by simp⟩
  · exact fun hs => Nat.le_of_lt_succ (hs.length_le.2.1 rfl)
  · exact fun hv => Mlock.mem_locked_iff.mpr ⟨hv, by simp⟩
  · exact fun hs => hs.length_le.1
  · exact fun hv => Mlock.mem_locked_iff.mpr ⟨hv, by simp⟩
  · exact fun hs => hs.length_le.1
  · exact fun hv => Mlock.mem_locked_iff.mpr ⟨hv, by simp⟩
  · exact fun hs => hs.length_le.1
  · exact fun hv => Mlock.mem_locked_iff.mpr ⟨hv, by simp⟩
  · exact fun hs => valid_channel_length (hs.length_le.2.2 rfl)

theorem length_joinSep_le (ws : List Text) :
    (joinSep ' ' ws).length ≤ (ws.map fun w => w.length + 1).sum - 1 := by
  by_cases hws : ws = []
  · simp [hws]
  · have := length_joinSep ' ' hws
    omega

/-- `-k` is there at most once. -/
theorem Mlock.Accepted.filter_off (h : m.Accepted) :
    m.off.filter (· = 'k') = if 'k' ∈ m.off then ['k'] else [] := by
  rw [List.filter_eq]
  split
  · rename_i hk
    rw [List.count_eq_one_of_mem h.nodup.of_append_right hk]
    rfl
  · rename_i hk
    rw [List.count_eq_zero.mpr hk]
    rfl

/-- Without a key all the parameters fit, also with the argument of `-k`. -/
theorem Mlock.Accepted.room_of_off (h : m.Accepted) (hk : 'k' ∈ m.off) :
    (joinSep ' ' (argsOf m.demands)).length < 300 := by
  have hkey : m.key = [] := by
    by_contra hne
    exact (h.stored ('k', m.key) (Mlock.mem_locked_iff.mpr ⟨hne, by simp⟩)).2 hk
  have hstar : m.off.filter (· = 'k') = ['k'] := by rw [h.filter_off, if_pos hk]
  have hle := length_joinSep_le (argsOf m.demands)
  obtain ⟨-, h2, h3, h4, h5⟩ := h.sizes
  rw [Mlock.argsOf_demands, hstar, List.map_append, List.sum_append, sum_locked, hkey, paramSize,
    if_pos rfl] at hle
  rw [Mlock.argsOf_demands, hstar]
  simp only [List.map_cons, List.map_nil, List.sum_cons, List.sum_nil, List.length_cons,
    List.length_nil] at hle ⊢
  omega

/-- Only all five together do not fit, and then the redirect is cut or missing. -/
theorem Mlock.Accepted.five (h : m.Accepted)
    (hroom : ¬ (joinSep ' ' (argsOf m.demands)).length < 300) :
    m.locked = [('k', m.key), ('l', m.limit), ('f', m.flood), ('j', m.jt), ('L', m.redirect)] ∧
      (joinSep ' ' [m.key, m.limit, m.flood, m.jt]).length < 300 ∧
      argsOf m.demands = [m.key, m.limit, m.flood, m.jt, m.redirect] := by
  have hoff : 'k' ∉ m.off := fun hk => hroom (h.room_of_off hk)
  have hnone : m.off.filter (· = 'k') = [] := by rw [h.filter_off, if_neg hoff]
  have hargs : argsOf m.demands = m.locked.map Prod.snd := by
    rw [Mlock.argsOf_demands, hnone, List.map_nil, List.append_nil]
  have hle := length_joinSep_le (argsOf m.demands)
  rw [hargs, sum_locked] at hle
  rw [hargs] at hroom ⊢
  obtain ⟨h1, h2, h3, h4, h5⟩ := h.sizes
  have hne : ∀ {v : Text}, 0 < paramSize v → v ≠ [] := by
    rintro v hv rfl
    exact absurd hv (by simp [paramSize])
  have hkey : m.key ≠ [] := hne (by omega)
  have hlimit : m.limit ≠ [] := hne (by omega)
  have hflood : m.flood ≠ [] := hne (by omega)
  have hjt : m.jt ≠ [] := hne (by omega)
  have hredirect : m.redirect ≠ [] := hne (by omega)
  have hlocked : m.locked =
      [('k', m.key), ('l', m.limit), ('f', m.flood), ('j', m.jt), ('L', m.redirect)] := by
    simp [Mlock.locked, hkey, hlimit, hflood, hjt, hredirect]
  refine ⟨hlocked, ?_, by rw [hlocked]; rfl⟩
  have hle4 := length_joinSep_le [m.key, m.limit, m.flood, m.jt]
  simp only [paramSize, if_neg hkey, if_neg hlimit, if_neg hflood, if_neg hjt] at h1 h2 h3 h4
  simp only [List.map_cons, List.map_nil, List.sum_cons, List.sum_nil] at hle4
  omega

end Sizes

/-! ## 4. When a lock arrives whole

Each of the conditions is needed: without it there is a channel on which one letter goes wrong. -/

section Theorem

variable {srv : Server} {svc : Client} {cfg : ServicesCfg} {name : Text} {m : Mlock}

theorem Mlock.Accepted.args_plain (h : m.Accepted) : ∀ v ∈ argsOf m.demands, v ≠ [] ∧ ' ' ∉ v := by
  intro v hv
  rw [Mlock.argsOf_demands] at hv
  rcases List.mem_append.mp hv with hv | hv
  · obtain ⟨x, hx, rfl⟩ := List.mem_map.mp hv
    obtain ⟨hne, hsp, -⟩ := (h.stored x hx).1.word (Mlock.letter_mem_of_locked hx)
    exact ⟨hne, hsp⟩
  · obtain ⟨c, -, rfl⟩ := List.mem_map.mp hv
    simp

theorem Mlock.Accepted.args_ne_nil (h : m.Accepted) : ∀ v ∈ argsOf m.demands, v ≠ [] :=
  fun v hv => (h.args_plain v hv).1

/-- Without a colon in front of the key all the arguments are words. -/
theorem Mlock.Accepted.args_words (h : m.Accepted) (hkey : m.key.head? ≠ some ':') :
    Words (argsOf m.demands) := by
  intro v hv
  rw [Mlock.argsOf_demands] at hv
  rcases List.mem_append.mp hv with hv | hv
  · obtain ⟨⟨c, v⟩, hx, rfl⟩ := List.mem_map.mp hv
    obtain ⟨hne, hsp, hcolon⟩ := (h.stored _ hx).1.word (Mlock.letter_mem_of_locked hx)
    have hhead : v.head? ≠ some ':' := by
      by_cases hc : c = 'k'
      · have hvk : v = m.key := by
          have hx' := (Mlock.mem_locked_iff.mp hx).2
          simpa [hc] using hx'
        rwa [hvk]
      · exact hcolon hc
    exact ⟨hne, hsp, fun d hd hcol => hhead (hcol ▸ hd)⟩
  · obtain ⟨c, -, rfl⟩ := List.mem_map.mp hv
    exact ⟨by simp, by simp, by simp⟩

/-- **A lock that fits and has no colon in front of its key is applied letter by letter.** -/
theorem Mlock.Accepted.applied_demands (h : m.Accepted) (hcfg : cfg.Fits)
    (hname : ircValidChannel name 50 = true) (hsvc : svc.isService = true)
    (hkey : m.key.head? ≠ some ':') (hroom : (joinSep ' ' (argsOf m.demands)).length < 300)
    (rec : ChanRec) (chan : Channel) :
    lockApplied srv svc cfg (rec.withMlock m) name chan =
      m.demands.foldl (svcLetter srv svc) chan := by
  by_cases hne : m.modes = []
  · have hnil : m.demands = [] := by
      rw [← h.walk_demands, hne]
      rfl
    rw [lockApplied, applyMlock, h.lockModes, if_pos hne, hnil]
    rfl
  · have hlen : (argsOf m.demands).length ≤ 16 := by
      have hfive : m.locked.length ≤ 5 := List.length_filter_le _ _
      rw [Mlock.argsOf_demands, h.filter_off, List.length_append, List.length_map, List.length_map]
      split <;> simp only [List.length_cons, List.length_nil] <;> omega
    rw [h.applied_words hcfg hname hsvc h.args_ne_nil hne (h.args_words hkey) hlen
      (Or.inl (clip_of_fits hroom)), h.walk_demands]

theorem Mlock.Carried.taken (hc : m.Carried name) (h : m.Accepted) :
    ∀ t ∈ m.demands, Taken name t := by
  intro t ht hadd b hb
  rw [Mlock.demands] at ht
  rcases List.mem_append.mp ht with ht | ht
  · rcases List.mem_append.mp ht with ht | ht
    · obtain ⟨c, hon, rfl⟩ := List.mem_map.mp ht
      obtain ⟨b', hb'⟩ := flagBit_of_mem (h.on_flags c hon)
      obtain rfl := Option.some.inj ((removes_of_bit hb').symm.trans hb)
      exact flag_trivial hb'
    · obtain ⟨⟨c, v⟩, hx, rfl⟩ := List.mem_map.mp ht
      obtain ⟨hne, hx'⟩ := Mlock.mem_locked_iff.mp hx
      have hstored := (h.stored _ hx).1
      rcases hx' with ⟨rfl, rfl⟩ | ⟨rfl, rfl⟩ | ⟨rfl, rfl⟩ | ⟨rfl, rfl⟩ | ⟨rfl, rfl⟩
      · obtain rfl : .k = b := Option.some.inj hb
        exact ⟨_, rfl, (hstored.word (Mlock.letter_mem_of_locked hx)).2.1⟩
      · obtain rfl : .l = b := Option.some.inj hb
        exact hc.limit hne
      · obtain rfl : .flood = b := Option.some.inj hb
        exact hc.flood hne
      · obtain rfl : .jthrot = b := Option.some.inj hb
        exact hc.jt hne
      · obtain rfl : .redirect = b := Option.some.inj hb
        exact ⟨_, rfl, hstored.length_le.2.2 rfl, hc.redirect hne⟩
  · obtain ⟨c, -, rfl⟩ := List.mem_map.mp ht
    exact absurd hadd (by simp)

theorem Mlock.carried_of_taken (hkey : m.key.head? ≠ some ':')
    (hroom : (joinSep ' ' (m.locked.map Prod.snd)).length < 300)
    (h : ∀ x ∈ m.locked, Taken name ⟨true, x.1, some x.2⟩) : m.Carried name where
  key := hkey
  room := hroom
  limit hne := h ('l', m.limit) (Mlock.mem_locked_iff.mpr ⟨hne, by simp⟩) rfl .l rfl
  flood hne := h ('f', m.flood) (Mlock.mem_locked_iff.mpr ⟨hne, by simp⟩) rfl .flood rfl
  jt hne := h ('j', m.jt) (Mlock.mem_locked_iff.mpr ⟨hne, by simp⟩) rfl .jthrot rfl
  redirect hne := by
    obtain ⟨a, ha, -, hother⟩ :=
      h ('L', m.redirect) (Mlock.mem_locked_iff.mpr ⟨hne, by simp⟩) rfl .redirect rfl
    obtain rfl : m.redirect = a := Option.some.inj ha
    exact hother

theorem taken_congr {name name' : Text}
    (h : ircCasefold chanNameLen name = ircCasefold chanNameLen name') (t : Signed Text) :
    Taken name t ↔ Taken name' t := by
  have hval : ∀ b, ValueTaken name b t.arg ↔ ValueTaken name' b t.arg := by
    intro b
    cases b <;> simp [ValueTaken, h]
  simp only [Taken, hval]

theorem Mlock.Accepted.key_fits (h : m.Accepted) :
    ∀ t ∈ m.demands, t.letter = 'k' → ∀ a, t.arg = some a → a.length < chanKeyLen := by
  intro t ht hk a ha
  rw [Mlock.demands] at ht
  rcases List.mem_append.mp ht with ht | ht
  · rcases List.mem_append.mp ht with ht | ht
    · obtain ⟨c, -, rfl⟩ := List.mem_map.mp ht
      exact absurd ha (by simp)
    · obtain ⟨x, hx, rfl⟩ := List.mem_map.mp ht
      obtain rfl := Option.some.inj ha
      have hlen := (h.stored x hx).1.length_le.2.1 hk
      simp only [chanKeyLen]
      omega
  · obtain ⟨c, -, rfl⟩ := List.mem_map.mp ht
    obtain rfl : c = 'k' := hk
    obtain rfl : ['*'] = a := Option.some.inj ha
    decide

/-- **A lock that is carried is satisfied.** -/
theorem Mlock.Carried.satisfied (hc : m.Carried name) (h : m.Accepted) (hcfg : cfg.Fits)
    (hname : ircValidChannel name 50 = true) (hsvc : svc.isService = true) (rec : ChanRec)
    (chan : Channel) (hchan : chan.casefoldName = ircCasefold chanNameLen name) :
    (lockApplied srv svc cfg (rec.withMlock m) name chan).Satisfies m := by
  have hroom : (joinSep ' ' (argsOf m.demands)).length < 300 := by
    by_cases hk : 'k' ∈ m.off
    · exact h.room_of_off hk
    · rw [Mlock.argsOf_demands, h.filter_off, if_neg hk, List.map_nil, List.append_nil]
      exact hc.room
  rw [h.applied_demands hcfg hname hsvc hc.key hroom]
  intro t ht
  rw [meets_run hsvc h.distinct h.lockable h.key_fits chan ht, taken_congr hchan]
  exact Or.inl (hc.taken h t ht)

/-- The channel of this name with nothing set. -/
def bareChannel (name : Text) (h : ircValidChannel name 50 = true) : Channel :=
  { Settings.none with
    name := name, nameValid := h, topic := [], topicSetter := [], topicTime := 0, created := 0
    members := [] }

theorem not_meets_bare {h : ircValidChannel name 50 = true} {c : Char} (hc : Lockable c)
    (arg : Option Text) : ¬ (bareChannel name h).Meets ⟨true, c, arg⟩ := by
  have hbit : ∃ b, removes c = some b := by
    rcases hc with hc | hc
    · obtain ⟨b, hb⟩ := flagBit_of_mem hc
      exact ⟨b, removes_of_bit hb⟩
    · have hparams : ∀ c ∈ mlockParams, (removes c).isSome := by decide
      exact Option.isSome_iff_exists.mp (hparams c hc)
  obtain ⟨b, hb⟩ := hbit
  rw [meets_iff hb]
  rintro ⟨hmodes, -⟩
  exact absurd (hmodes.mpr rfl) (by simp [bareChannel, Settings.none])

/-- A key is not set by one with a blank in it, nor by a shorter one. -/
theorem not_meets_key (hsvc : svc.isService = true) {chan : Channel} {a v : Text}
    (hno : ¬ chan.Meets ⟨true, 'k', some v⟩) (ha : ' ' ∈ a ∨ a.length < v.length) :
    ¬ (svcLetter srv svc chan ⟨true, 'k', some a⟩).Meets ⟨true, 'k', some v⟩ := by
  rw [svcLetter, (applyLetter_svc_param hsvc chan true _).1]
  by_cases hsp : ' ' ∈ a
  · simpa [applyKey, hsp, Letter.skip] using hno
  · have hlt : a.length < v.length := ha.resolve_left hsp
    rw [meets_iff (b := .k) rfl]
    rintro ⟨-, hval⟩
    have hv : v = clip chanKeyLen a := by
      simpa [applyKey, hsp, Letter.done, Channel.HasValue] using hval rfl
    have hle : (clip chanKeyLen a).length ≤ a.length := by
      rw [clip, List.length_take]
      omega
    rw [← hv] at hle
    omega

theorem not_meets_redirect (hsvc : svc.isService = true) {chan : Channel} {arg : Option Text}
    {v : Text} (hno : ¬ chan.Meets ⟨true, 'L', some v⟩)
    (ha : ∀ a, arg = some a → a.length < v.length) :
    ¬ (svcLetter srv svc chan ⟨true, 'L', arg⟩).Meets ⟨true, 'L', some v⟩ := by
  rw [svcLetter, (applyLetter_svc_param hsvc chan true _).2.2.2.2]
  cases arg with
  | none => simpa [applyRedirect, Letter.skip] using hno
  | some a =>
    have hlt := ha a rfl
    by_cases hbad : ircValidChannel a 50 = false ∨
        ircCasefold chanNameLen a = ircCasefold chanNameLen chan.name
    · simpa [applyRedirect, hbad, Letter.refuse] using hno
    · rw [meets_iff (b := .redirect) rfl]
      rintro ⟨-, hval⟩
      have hv : v = clip chanNameLen a := by
        simpa [applyRedirect, hbad, Letter.done, Channel.HasValue] using hval rfl
      have hle : (clip chanNameLen a).length ≤ a.length := by
        rw [clip, List.length_take]
        omega
      rw [← hv] at hle
      omega

theorem Mlock.Accepted.lost (h : m.Accepted) {hname : ircValidChannel name 50 = true}
    {as : List Text} {pre post : List (Signed Text)} {t u : Signed Text}
    (hwalk : walk takesArg true m.modes as = pre ++ t :: post) (hu : u ∈ m.demands)
    (hadd : u.add = true) (hletter : u.letter = t.letter)
    (hstep : ∀ chan : Channel, ¬ chan.Meets u → ¬ (svcLetter srv svc chan t).Meets u) :
    ¬ ((walk takesArg true m.modes as).foldl (svcLetter srv svc) (bareChannel name hname)).Satisfies
      m := by
  have hdistinct : ((pre ++ t :: post).map Signed.letter).Nodup := by
    rw [← hwalk, letters_walk as (argsOf m.demands), h.walk_demands]
    exact h.distinct
  rw [List.map_append, List.map_cons] at hdistinct
  have hdisj := List.disjoint_of_nodup_append hdistinct
  have hpre : ∀ v ∈ pre, u.letter ≠ v.letter := by
    intro v hv heq
    have hmem : t.letter ∈ pre.map Signed.letter :=
      List.mem_map.mpr ⟨v, hv, by rw [← heq, hletter]⟩
    exact hdisj hmem List.mem_cons_self
  have hpost : ∀ v ∈ post, u.letter ≠ v.letter := by
    intro v hv heq
    have hmem : t.letter ∈ post.map Signed.letter :=
      List.mem_map.mpr ⟨v, hv, by rw [← heq, hletter]⟩
    exact (List.nodup_cons.mp hdistinct.of_append_right).1 hmem
  have hbare : ¬ (bareChannel name hname).Meets u := by
    obtain ⟨add, c, arg⟩ := u
    obtain rfl : add = true := hadd
    exact not_meets_bare (h.lockable _ hu) arg
  intro hsat
  have hmet := hsat u hu
  rw [hwalk, meets_run_split _ hpost] at hmet
  refine hstep _ ?_ hmet
  rw [meets_run_of_notMem _ _ hpre]
  exact hbare

/-- The letters without an argument come first. -/
theorem Mlock.Accepted.walk_on (h : m.Accepted) (as : List Text) : walk takesArg true m.modes as =
    m.on.map (⟨true, ·, Option.none⟩) ++ walk takesArg true
      (m.locked.map Prod.fst ++ if m.off = [] then [] else '-' :: m.off) as := by
  have hon := walk_written (m.locked.map Prod.fst ++ if m.off = [] then [] else '-' :: m.off) as
    h.on_written
  have honl :
      (m.on.map (fun c => (⟨true, c, Option.none⟩ : Signed Text))).map Signed.letter = m.on := by
    simp [Function.comp_def]
  have honargs : argsOf (m.on.map (fun c => (⟨true, c, Option.none⟩ : Signed Text))) = [] := by
    simp [argsOf]
  rw [honl, honargs, List.nil_append] at hon
  rw [Mlock.walk_modes, List.append_assoc, hon]

theorem Mlock.mem_demands {c : Char} {v : Text} (h : (c, v) ∈ m.locked) :
    (⟨true, c, some v⟩ : Signed Text) ∈ m.demands :=
  List.mem_append_left _ (List.mem_append_right _ (List.mem_map_of_mem h))

theorem Mlock.modes_ne_nil (h : m.locked ≠ []) : m.modes ≠ [] := by
  simp [Mlock.modes, h]

/-- **A key with a colon in front is lost**: the ircd takes all that is printed after the colon for
one parameter. -/
theorem Mlock.Accepted.key_lost (h : m.Accepted) (hcfg : cfg.Fits)
    (hname : ircValidChannel name 50 = true) (hsvc : svc.isService = true)
    (hkey : m.key.head? = some ':') (rec : ChanRec) :
    ¬ (lockApplied srv svc cfg (rec.withMlock m) name (bareChannel name hname)).Satisfies m := by
  obtain ⟨krest, hk⟩ : ∃ krest, m.key = ':' :: krest := by
    cases hkk : m.key with
    | nil => simp [hkk] at hkey
    | cons d krest => exact ⟨krest, by simpa [hkk] using hkey⟩
  have hmem : ('k', m.key) ∈ m.locked := Mlock.mem_locked_iff.mpr ⟨by simp [hk], by simp⟩
  have hshort : m.key.length < 60 := (h.stored _ hmem).1.length_le.2.1 rfl
  obtain ⟨more, hlocked⟩ : ∃ more, m.locked = ('k', m.key) :: more := by
    rw [Mlock.locked, List.filter_cons_of_pos (by simp [hk])]
    exact ⟨_, rfl⟩
  obtain ⟨ws, hargs⟩ : ∃ ws, argsOf m.demands = m.key :: ws := by
    rw [Mlock.argsOf_demands, hlocked]
    exact ⟨_, rfl⟩
  -- what the ircd gets for a key
  obtain ⟨tr, hprinted, htr⟩ :
      ∃ tr, m.printed = ':' :: tr ∧ (' ' ∈ tr ∨ tr.length < m.key.length) := by
    rw [Mlock.printed, hargs]
    cases ws with
    | nil =>
      exact ⟨krest, by rw [joinSep_singleton, clip_of_fits (by omega), hk], Or.inr (by simp [hk])⟩
    | cons w ws =>
      refine ⟨clip 299 (krest ++ ' ' :: joinSep ' ' (w :: ws)), ?_, Or.inl ?_⟩
      · rw [joinSep_cons m.key (List.cons_ne_nil w ws), hk]
        rfl
      · rw [hk, List.length_cons] at hshort
        rw [clip, List.take_append, List.mem_append]
        obtain ⟨n, hn⟩ : ∃ n, 299 - 1 - krest.length = n + 1 := ⟨297 - krest.length, by omega⟩
        rw [hn]
        exact Or.inr List.mem_cons_self
  have hwalk := h.walk_on [tr]
  have hk' : IsLetter 'k' ∧ takesArg true 'k' = true := by decide
  rw [hlocked, List.map_cons, List.cons_append, walk_letter hk'.1, if_pos hk'.2] at hwalk
  have hne : m.modes ≠ [] := Mlock.modes_ne_nil (by simp [hlocked])
  rw [h.applied_trailing hcfg hname hsvc h.args_ne_nil hne hprinted]
  exact h.lost hwalk (Mlock.mem_demands hmem) rfl rfl fun chan hno => not_meets_key hsvc hno htr

/-- What is printed when there is no room: the first four parameters, and less than the fifth. -/
theorem Mlock.Accepted.printed_cut (h : m.Accepted)
    (hroom : ¬ (joinSep ' ' (argsOf m.demands)).length < 300) :
    ∃ cut : Option Text,
      (∀ a, cut = some a → a.length < m.redirect.length ∧ a ≠ [] ∧ ∃ n, a = m.redirect.take n) ∧
      (m.printed = joinSep ' ' ([m.key, m.limit, m.flood, m.jt] ++ cut.toList) ∨
        m.printed = joinSep ' ' ([m.key, m.limit, m.flood, m.jt] ++ cut.toList) ++ [' ']) := by
  obtain ⟨-, hfour, hargs⟩ := h.five hroom
  have hjoin : joinSep ' ' (argsOf m.demands) =
      joinSep ' ' [m.key, m.limit, m.flood, m.jt] ++ ' ' :: m.redirect := by
    rw [hargs]
    exact joinSep_concat (List.cons_ne_nil m.key [m.limit, m.flood, m.jt]) m.redirect
  have hlen : 299 ≤ (joinSep ' ' [m.key, m.limit, m.flood, m.jt]).length + m.redirect.length := by
    rw [hjoin, List.length_append, List.length_cons] at hroom
    omega
  have hclip : m.printed = joinSep ' ' [m.key, m.limit, m.flood, m.jt] ++
      (' ' :: m.redirect).take (299 - (joinSep ' ' [m.key, m.limit, m.flood, m.jt]).length) := by
    rw [Mlock.printed, hjoin, clip, List.take_append, List.take_of_length_le (by omega)]
  rcases hn : 299 - (joinSep ' ' [m.key, m.limit, m.flood, m.jt]).length with _ | _ | n
  · refine ⟨Option.none, by simp, Or.inl ?_⟩
    rw [hclip, hn, List.take_zero, List.append_nil, Option.toList_none, List.append_nil]
  · refine ⟨Option.none, by simp, Or.inr ?_⟩
    rw [hclip, hn, Option.toList_none, List.append_nil]
    rfl
  · refine ⟨some (m.redirect.take (n + 1)), fun a ha => ?_, Or.inl ?_⟩
    · obtain rfl := Option.some.inj ha
      refine ⟨by rw [List.length_take]; omega, fun hnil => ?_, n + 1, rfl⟩
      have hzero := congrArg List.length hnil
      rw [List.length_take, List.length_nil] at hzero
      omega
    · rw [hclip, hn, Option.toList_some, joinSep_concat (by simp)]
      rfl

/-- **Without room the redirect is lost**, or a part of it. -/
theorem Mlock.Accepted.redirect_lost (h : m.Accepted) (hcfg : cfg.Fits)
    (hname : ircValidChannel name 50 = true) (hsvc : svc.isService = true)
    (hkey : m.key.head? ≠ some ':') (hroom : ¬ (joinSep ' ' (argsOf m.demands)).length < 300)
    (rec : ChanRec) :
    ¬ (lockApplied srv svc cfg (rec.withMlock m) name (bareChannel name hname)).Satisfies m := by
  obtain ⟨hlocked, -, hargs⟩ := h.five hroom
  obtain ⟨cut, hcut, hprinted⟩ := h.printed_cut hroom
  have hmem : ('L', m.redirect) ∈ m.locked := by
    rw [hlocked]
    simp
  have hwords : Words [m.key, m.limit, m.flood, m.jt, m.redirect] := hargs ▸ h.args_words hkey
  have hcutwords : Words ([m.key, m.limit, m.flood, m.jt] ++ cut.toList) := by
    intro v hv
    rcases List.mem_append.mp hv with hv | hv
    · exact hwords v (List.mem_append_left [m.redirect] hv)
    · obtain ⟨-, hne, n, hn⟩ := hcut v (Option.mem_toList.mp hv)
      obtain ⟨-, hsp, hcolon⟩ := hwords m.redirect (by simp)
      refine ⟨hne, fun hs => hsp (List.mem_of_mem_take (hn ▸ hs)), fun c hc => hcolon c ?_⟩
      rw [hn, List.head?_take] at hc
      split at hc
      · exact absurd hc (by simp)
      · exact hc
  have hcutlen : ([m.key, m.limit, m.flood, m.jt] ++ cut.toList).length ≤ 16 := by
    cases cut <;> simp
  have hhead : cut.toList.head? = cut := by cases cut <;> rfl
  -- the first four letters take the first four words
  have hfour : ∀ c ∈ ['k', 'l', 'f', 'j', 'L'], ∀ (cs : Text) (as : List Text),
      walk takesArg true (c :: cs) as = ⟨true, c, as.head?⟩ :: walk takesArg true cs as.tail := by
    have htable : ∀ c ∈ ['k', 'l', 'f', 'j', 'L'], IsLetter c ∧ takesArg true c = true := by decide
    intro c hc cs as
    rw [walk_letter (htable c hc).1, if_pos (htable c hc).2]
  have hwalk := h.walk_on ([m.key, m.limit, m.flood, m.jt] ++ cut.toList)
  rw [hlocked] at hwalk
  simp only [List.map_cons, List.map_nil, List.cons_append, List.nil_append] at hwalk
  rw [hfour 'k' (by decide), hfour 'l' (by decide), hfour 'f' (by decide), hfour 'j' (by decide),
    hfour 'L' (by decide)] at hwalk
  simp only [List.tail_cons, List.head?_cons, hhead] at hwalk
  have hsplit : ∀ (pre : List (Signed Text)) (a b c d : Signed Text) (t : Signed Text) post,
      pre ++ a :: b :: c :: d :: t :: post = (pre ++ [a, b, c, d]) ++ t :: post := by
    simp
  rw [hsplit] at hwalk
  have hne : m.modes ≠ [] := Mlock.modes_ne_nil (by simp [hlocked])
  rw [h.applied_words hcfg hname hsvc h.args_ne_nil hne hcutwords hcutlen
    (hprinted.imp_right fun hp => ⟨by simp, hp⟩)]
  exact h.lost hwalk (Mlock.mem_demands hmem) rfl rfl fun chan hno =>
    not_meets_redirect hsvc hno fun a ha => (hcut a ha).1

/-- All the arguments fit where those of the parameters do. -/
theorem Mlock.Accepted.room_of_args (h : m.Accepted)
    (hroom : (joinSep ' ' (argsOf m.demands)).length < 300) :
    (joinSep ' ' (m.locked.map Prod.snd)).length < 300 := by
  rw [Mlock.argsOf_demands, h.filter_off] at hroom
  split at hroom
  · by_cases hnil : m.locked = []
    · rw [hnil]
      decide
    · rw [List.map_cons, List.map_nil, joinSep_concat (by simpa using hnil), List.length_append]
        at hroom
      omega
  · simpa using hroom

/-- **On every channel of the name the lock is satisfied exactly when it is carried.** The lock
goes to the ircd as one MODE line, and what that line cannot bring, or the ircd reads in its own
way, stays unlocked. The condition is on the stored lock and the name alone. -/
theorem mlock_applied_iff (hcfg : cfg.Fits) (hsvc : svc.isService = true)
    (hname : ircValidChannel name 50 = true) {value : Text} (hm : mlockParse value = .ok m)
    (rec : ChanRec) :
    (∀ chan : Channel, chan.casefoldName = ircCasefold chanNameLen name →
      (lockApplied srv svc cfg (rec.withMlock m) name chan).Satisfies m) ↔ m.Carried name := by
  have h := mlockParse_accepted hm
  constructor
  · intro hall
    have hbare := hall (bareChannel name hname) rfl
    by_cases hkey : m.key.head? = some ':'
    · exact absurd hbare (h.key_lost hcfg hname hsvc hkey rec)
    by_cases hroom : (joinSep ' ' (argsOf m.demands)).length < 300
    · refine Mlock.carried_of_taken hkey (h.room_of_args hroom) fun x hx => ?_
      have hmem := Mlock.mem_demands hx
      rw [h.applied_demands hcfg hname hsvc hkey hroom] at hbare
      have hmet := (meets_run hsvc h.distinct h.lockable h.key_fits _ hmem).mp (hbare _ hmem)
      exact hmet.resolve_right (not_meets_bare (Or.inr (Mlock.letter_mem_of_locked hx)) _)
    · exact absurd hbare (h.redirect_lost hcfg hname hsvc hkey hroom rec)
  · exact fun hc chan hchan => hc.satisfied h hcfg hname hsvc rec chan hchan

end Theorem

def lockServices : ServicesCfg :=
  ⟨"ChanServ".toList, "services".toList, "services.a".toList, Option.none⟩

theorem lockServices_fits : lockServices.Fits := ⟨by decide, by decide⟩

def unlockedRec : ChanRec := ⟨false, [], [], [], [], [], [], []⟩

/-- `MLOCK +ntkl-s secret 25`. -/
theorem mlock_applied_keyed :
    (∀ chan : Channel, chan.casefoldName = ircCasefold chanNameLen "#c".toList →
      (lockApplied demoServer demoService lockServices
        (unlockedRec.withMlock ⟨"nt".toList, "s".toList, "secret".toList, "25".toList, [], [], []⟩)
        "#c".toList chan).Satisfies
          ⟨"nt".toList, "s".toList, "secret".toList, "25".toList, [], [], []⟩) ↔
      Mlock.Carried ⟨"nt".toList, "s".toList, "secret".toList, "25".toList, [], [], []⟩
        "#c".toList :=
  mlock_applied_iff lockServices_fits rfl demoName_valid
    (show mlockParse "+ntkl-s secret 25".toList = .ok _ by decide +kernel) unlockedRec

/-- `MLOCK +k :x` is accepted, and the key that is set is `x`. -/
theorem mlock_colon_key : ¬ ∀ value m, mlockParse value = .ok m → ∀ chan : Channel,
    (lockApplied demoServer demoService lockServices (unlockedRec.withMlock m) chan.name chan).Satisfies
      m := by
  intro h
  have hm : mlockParse "+k :x".toList = .ok ⟨[], [], ":x".toList, [], [], [], []⟩ := by
    decide +kernel
  exact (mlockParse_accepted hm).key_lost lockServices_fits demoName_valid rfl rfl unlockedRec
    (h _ _ hm (bareChannel "#c".toList demoName_valid))

end SekurIRCd
