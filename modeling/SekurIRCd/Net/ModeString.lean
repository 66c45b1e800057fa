/-
# The mode string there and back

A channel's modes travel in an SJOIN as the words of `channel_modes_string`, each a middle
parameter of its own, and `set_state_modes` makes modes of them again.  `modes_round_trip` says
which of the channels that MODE commands and MODE lines can make come back as they were.  The
letters always do, and so does `+f`.  A key or a redirect has to be a word that `irc_build`
leaves alone, and `+l` and `+j` need numbers that are shown.  MODE asks no more of a key than
that it has no space, and `handle_mode` asks nothing at all.

The parameters always have room: at their longest they fill the 256 bytes of
`channel_modes_string` to the last one.
-/
import SekurIRCd.Net.Existence
import SekurIRCd.Net.Merge

namespace SekurIRCd

open CLib

/-! ## 1. The round trip

The channel's modes go into a line with its members behind them, and what the parser takes out of
it again goes into the settings. -/

/-- What `handle_sjoin` hands to `set_state_modes`: the letters and their arguments. -/
def sjoinModes (line : Text) : Option (Text × List Text) :=
  match ircParseLine line with
  | some msg =>
    match msg.params with
    | _ :: _ :: modes :: rest => some (modes, rest.dropLast.take 10)
    | _ => none
  | none => none

/-- **The modes come back**: what the SJOIN of `chan` makes of the modes of `old`, in replace
mode, are the modes of `chan`. -/
def RoundTrips (srv : Server) (outsz : Nat) (members : Text) (chan old : Channel) : Prop :=
  (sjoinModes (sjoinLine srv outsz chan members)).map
    (fun m => (setStateModes old m.1 m.2 true).modesOnly) = some chan.modesOnly

instance (srv : Server) (outsz : Nat) (members : Text) (chan old : Channel) :
    Decidable (RoundTrips srv outsz members chan old) := inferInstanceAs (Decidable (_ = _))

/-- The parameters that are set can be sent: words that `irc_build` leaves alone, and numbers that
are shown. -/
structure Sendable (chan : Channel) : Prop where
  key : .k ∈ chan.modes → Plain chan.key
  limit : .l ∈ chan.modes → 0 < chan.limit
  redirect : .redirect ∈ chan.modes → Plain chan.redirect
  jthrot : .jthrot ∈ chan.modes → 0 < chan.jtJoins

/-! ## 2. The words of the string -/

theorem foldl_appendParam_flags (ps : List (Bool × Char × Text)) (f a : Text) :
    (ps.foldl appendParam (f, a)).1 = f ++ (ps.filter Prod.fst).map fun p => p.2.1 := by
  induction ps generalizing f a with
  | nil => simp
  | cons p ps ih =>
    obtain ⟨shown, c, t⟩ := p
    cases shown with
    | true => simp [appendParam, ih]
    | false => simp [appendParam, ih]

/-- The arguments are empty or start behind a space. -/
theorem foldl_appendParam_args (ps : List (Bool × Char × Text)) (f a : Text)
    (h : a = [] ∨ ∃ t, a = ' ' :: t) :
    (ps.foldl appendParam (f, a)).2 = [] ∨ ∃ t, (ps.foldl appendParam (f, a)).2 = ' ' :: t := by
  induction ps generalizing f a with
  | nil => exact h
  | cons p ps ih =>
    obtain ⟨shown, c, t⟩ := p
    rw [List.foldl_cons]
    cases shown with
    | false => exact ih f a h
    | true =>
      refine ih (f ++ [c]) (strncat 256 a (' ' :: t)) (Or.inr ?_)
      rcases h with rfl | ⟨s, rfl⟩
      · exact ⟨t.take 254, rfl⟩
      · exact ⟨(s ++ ' ' :: t).take 254, rfl⟩

/-- **The first word holds the letters**, and all of them fit in a line. -/
theorem strtok_modes (chan : Channel) :
    ∃ ws, strtok ' ' (channelModesString chan 360) = chan.modeFlags :: ws ∧
      ((chan.modeFlags :: ws).map fun w => w.length + 1).sum ≤ 360 := by
  have hflags : chan.modeFlags.length ≤ 29 := modeFlags_length
  have hargs := foldl_appendParam_args chan.shownParams
    ('+' :: (flagLetters.filter fun x => x.2 ∈ chan.modes).map Prod.fst) [] (Or.inl rfl)
  have hstr : ∃ r, channelModesString chan 360 = chan.modeFlags ++ r ∧ (r = [] ∨ ∃ t, r = ' ' :: t) := by
    rw [channelModesString, foldl_appendParam_flags]
    refine ⟨(chan.shownParams.foldl appendParam ('+' :: (flagLetters.filter fun x =>
      x.2 ∈ chan.modes).map Prod.fst, [])).2.take (359 - chan.modeFlags.length), ?_, ?_⟩
    · rw [clip, List.take_append, List.take_of_length_le]
      · rfl
      · exact hflags.trans (by decide)
    · rcases hargs with h | ⟨t, h⟩
      · exact Or.inl (by rw [h, List.take_nil])
      · obtain ⟨n, hn⟩ : ∃ n, 359 - chan.modeFlags.length = n + 1 :=
          ⟨358 - chan.modeFlags.length, by omega⟩
        exact Or.inr ⟨t.take n, by rw [h, hn]; rfl⟩
  obtain ⟨r, hr, hsplit⟩ := hstr
  have hne : chan.modeFlags ≠ [] := plain_modeFlags.ne_nil
  have hsp : ' ' ∉ chan.modeFlags := plain_modeFlags.no_space
  have htok : ∃ ws, strtok ' ' (channelModesString chan 360) = chan.modeFlags :: ws := by
    rw [hr]
    rcases hsplit with rfl | ⟨t, rfl⟩
    · refine ⟨[], ?_⟩
      rw [List.append_nil, strtok, splitSep_of_not_mem hsp, List.filter_cons_of_pos (by simpa using hne)]
      rfl
    · refine ⟨strtok ' ' t, ?_⟩
      rw [strtok, splitSep_append hsp, List.filter_cons_of_pos (by simpa using hne)]
      rfl
  obtain ⟨ws, hws⟩ := htok
  refine ⟨ws, hws, ?_⟩
  have hlen := strtok_length ' ' (channelModesString chan 360)
  have hstr : (channelModesString chan 360).length ≤ 359 := clip_length_le 360 _
  rw [hws] at hlen
  omega

theorem length_mids {ws : List Text} (h : ∀ w ∈ ws, w ≠ []) (n : Nat) :
    (((ws.take n).map mid).flatMap fun w => ' ' :: w).length ≤ (ws.map fun w => w.length + 1).sum := by
  induction ws generalizing n with
  | nil => simp
  | cons w ws ih =>
    cases n with
    | zero => simp
    | succ n =>
      have hw := mid_length_le (h w (by simp))
      have ih := ih (fun v hv => h v (List.mem_cons_of_mem _ hv)) n
      rw [List.take_succ_cons, List.map_cons, List.flatMap_cons, List.map_cons, List.sum_cons,
        List.length_append, List.length_cons]
      omega

/-! ## 3. What arrives -/

section Arrives

variable {srv : Server} {outsz : Nat} {chan : Channel}

/-- **What arrives are the letters, and words that can stand in a line**: those that were sent,
where these could. -/
theorem sjoinModes_sent (hs : SidShape srv.sid) (hsz : 460 ≤ outsz)
    (hc : 0 < chan.created ∧ chan.created ≤ longMax) (members : Text) :
    ∃ args, sjoinModes (sjoinLine srv outsz chan members) = some (chan.modeFlags, args) ∧
      (∀ a ∈ args, Plain a) ∧ (ParamsFit chan → args = chan.modeArgs) := by
  obtain ⟨ws, hws, hsum⟩ := strtok_modes chan
  have hts : Plain (intDecimal chan.created) := plain_intDecimal (by omega) hc.2
  have hname : Plain chan.name := plain_of_valid_channel chan.nameValid
  have hcmd : ircEscape 1024 "SJOIN".toList ≠ [] := by decide
  have hlen : (ircLine srv.sid "SJOIN".toList (intDecimal chan.created :: chan.name ::
      (chan.modeFlags :: ws).take 10)).length + 2 < outsz := by
    have htsl := intDecimal_length_le (z := chan.created) (k := 19) (by decide) (by omega)
      (by have := hc.2; simp only [longMax] at this; omega)
    have hnamel := valid_channel_length chan.nameValid
    have hsid := hs.length
    have hesc : ircEscape 1024 "SJOIN".toList = "SJOIN".toList := by decide
    have h5 : "SJOIN".toList.length = 5 := by decide
    have hne : ∀ w ∈ chan.modeFlags :: ws, w ≠ [] := fun w hw => (mem_strtok (hws ▸ hw)).1
    have hmids := length_mids hne 10
    rw [ircLine, hs.source.escape, hesc, joinSep_eq_flatMap, List.map_cons, List.map_cons,
      mid_of_plain hts, mid_of_plain hname, List.flatMap_cons, List.flatMap_cons]
    simp only [List.length_append, List.length_cons, sidLen] at *
    omega
  obtain ⟨cut, hcut⟩ := ircBuild_trailing hcmd members hlen
  have hline : ircParseLine (sjoinLine srv outsz chan members) =
      some { tags := [], pfx := some srv.sid, command := "SJOIN".toList, params :=
        intDecimal chan.created :: chan.name :: chan.modeFlags ::
          ((ws.take 9).map mid ++ [ircEscape 1024 cut]) } := by
    have hcount : (ws.take 9).length ≤ 9 := List.length_take_le _ _
    rw [sjoinLine, hws, hcut, ircParseLine_ircLineTrailing hs.source (by decide)
      (by simp only [List.take_succ_cons, List.length_cons, ircMaxParams]; omega)]
    simp only [List.take_succ_cons, List.map_cons, mid_of_plain hts, mid_of_plain hname,
      mid_of_plain plain_modeFlags, List.cons_append]
  have hargs : (((ws.take 9).map mid ++ [ircEscape 1024 cut]).dropLast.take 10) =
      (ws.take 9).map mid := by
    rw [List.dropLast_concat]
    exact List.take_of_length_le (by
      rw [List.length_map]
      exact (List.length_take_le _ _).trans (by decide))
  refine ⟨(ws.take 9).map mid, ?_, ?_, ?_⟩
  · simp only [sjoinModes, hline, hargs]
  · intro a ha
    obtain ⟨w, -, rfl⟩ := List.mem_map.mp ha
    exact plain_mid w
  · intro hfit
    have hws' : ws = chan.modeArgs := by
      have h := strtok_channelModesString hfit
      rw [hws] at h
      exact (List.cons.inj h).2
    have hfew := modeArgs_length chan
    rw [hws', List.take_of_length_le (by omega), map_mid_of_plain hfit.plain_args]

end Arrives

/-! ## 4. What reading leaves

What was read is made of words of a line, so it could have been sent. This is the direction from
coming back to being sendable. -/

/-- The letters of the modes with a parameter. -/
def paramLetters : List (CMode × Char) :=
  [(.k, 'k'), (.l, 'l'), (.flood, 'f'), (.jthrot, 'j'), (.redirect, 'L')]

/-- A letter with a parameter sets its own mode at most. -/
theorem mem_stateParam {s : Settings} {c : Char} {a : Text} {b : CMode}
    (h : b ∈ (stateParam s c a).modes) : b ∈ s.modes ∨ (b, c) ∈ paramLetters := by
  unfold stateParam at h
  split at h
  · next hc =>
    subst hc
    rcases Finset.mem_insert.mp h with rfl | h
    · exact Or.inr (by decide)
    · exact Or.inl h
  · split at h
    · next hc =>
      subst hc
      simp only at h
      split at h
      · rcases Finset.mem_insert.mp h with rfl | h
        · exact Or.inr (by decide)
        · exact Or.inl h
      · exact Or.inl h
    · split at h
      · next hc =>
        subst hc
        split at h
        · rcases Finset.mem_insert.mp h with rfl | h
          · exact Or.inr (by decide)
          · exact Or.inl h
        · exact Or.inl h
      · split at h
        · next hc =>
          subst hc
          split at h
          · rcases Finset.mem_insert.mp h with rfl | h
            · exact Or.inr (by decide)
            · exact Or.inl h
          · exact Or.inl h
        · split at h
          · next hc =>
            subst hc
            rcases Finset.mem_insert.mp h with rfl | h
            · exact Or.inr (by decide)
            · exact Or.inl h
          · exact Or.inl h

theorem flag_not_param {c : Char} {b : CMode} (h : channelFlagBit c = some b) (x : Char) :
    (b, x) ∉ paramLetters := by
  have hall : ∀ y ∈ flagLetters, y.2 ∉ paramLetters.map Prod.fst := by decide
  exact fun hm => hall _ (mem_flagLetters h) (List.mem_map_of_mem (f := Prod.fst) hm)

/-- A mode with a parameter comes from its letter. -/
theorem mem_stateLoop {b : CMode} (hb : b ∈ paramLetters.map Prod.fst) : ∀ (cs : Text)
    (args : List Text) (s : Settings), b ∈ (stateLoop cs args s).modes →
    b ∈ s.modes ∨ ∃ c ∈ cs, (b, c) ∈ paramLetters
  | [], _, _, h => Or.inl h
  | c :: cs, args, s, h => by
    have hskip : (b ∈ s.modes ∨ ∃ c ∈ cs, (b, c) ∈ paramLetters) →
        b ∈ s.modes ∨ ∃ x ∈ c :: cs, (b, x) ∈ paramLetters := by
      rintro (h | ⟨x, hx, hm⟩)
      · exact Or.inl h
      · exact Or.inr ⟨x, List.mem_cons_of_mem _ hx, hm⟩
    rw [stateLoop.eq_def] at h
    simp only at h
    split at h
    · exact hskip (mem_stateLoop hb cs args s h)
    · split at h
      · rename_i bit hbit
        rcases mem_stateLoop hb cs args _ h with h | h
        · rcases Finset.mem_insert.mp h with rfl | h
          · obtain ⟨x, hx, rfl⟩ := List.mem_map.mp hb
            exact absurd hx (flag_not_param hbit x.2)
          · exact Or.inl h
        · exact hskip (Or.inr h)
      · split at h
        · exact Or.inl h
        · rename_i a args
          rcases mem_stateLoop hb cs args _ h with h | h
          · rcases mem_stateParam h with h | h
            · exact Or.inl h
            · exact Or.inr ⟨c, by simp, h⟩
          · exact hskip (Or.inr h)

/-- The key and the redirect are words of a line. -/
structure LineWords (s : Settings) : Prop where
  key : .k ∈ s.modes → Plain s.key
  redirect : .redirect ∈ s.modes → Plain s.redirect

theorem Plain.clip {a : Text} (h : Plain a) {n : Nat} (hn : 2 ≤ n) : Plain (clip n a) := by
  obtain ⟨c, cs, rfl⟩ := List.exists_cons_of_ne_nil h.ne_nil
  obtain ⟨m, rfl⟩ : ∃ m, n = m + 2 := ⟨n - 2, by omega⟩
  have hlen := (clip_length_le (m + 2) (c :: cs))
  have hshort : (CLib.clip (m + 2) (c :: cs)).length < 512 :=
    (List.length_take_le' _ _).trans_lt h.short
  exact ⟨by simp [CLib.clip], fun d hd => h.head_ne_colon d (by simpa [CLib.clip] using hd),
    fun hm => h.no_space (mem_of_mem_clip hm), fun hm => h.no_cr (mem_of_mem_clip hm),
    fun hm => h.no_lf (mem_of_mem_clip hm), hshort⟩

theorem LineWords.stateParam {s : Settings} (h : LineWords s) (c : Char) {a : Text} (ha : Plain a) :
    LineWords (stateParam s c a) := by
  unfold SekurIRCd.stateParam
  split
  · exact ⟨fun _ => ha.clip (by decide), fun hm => h.redirect (by simpa using hm)⟩
  · split
    · refine ⟨fun hm => h.key ?_, fun hm => h.redirect ?_⟩
      all_goals
        simp only at hm
        split at hm
        · simpa using hm
        · exact hm
    · split
      · split
        · exact ⟨fun hm => h.key (by simpa using hm), fun hm => h.redirect (by simpa using hm)⟩
        · exact h
      · split
        · split
          · exact ⟨fun hm => h.key (by simpa using hm), fun hm => h.redirect (by simpa using hm)⟩
          · exact h
        · split
          · exact ⟨fun hm => h.key (by simpa using hm), fun _ => ha.clip (by decide)⟩
          · exact h

/-- **What is read from a line can be sent on.** -/
theorem LineWords.stateLoop : ∀ (cs : Text) {args : List Text} {s : Settings}, LineWords s →
    (∀ a ∈ args, Plain a) → LineWords (stateLoop cs args s)
  | [], _, _, h, _ => h
  | c :: cs, args, s, h, ha => by
    rw [stateLoop.eq_def]
    simp only
    split
    · exact LineWords.stateLoop cs h ha
    · split
      · rename_i bit hbit
        have hne : ∀ x : CMode, x ∈ paramLetters.map Prod.fst → x ≠ bit := by
          rintro x hx rfl
          obtain ⟨y, hy, rfl⟩ := List.mem_map.mp hx
          exact flag_not_param hbit y.2 hy
        refine LineWords.stateLoop cs ⟨fun hm => h.key ?_, fun hm => h.redirect ?_⟩ ha
        · exact (Finset.mem_insert.mp hm).resolve_left (hne _ (by decide))
        · exact (Finset.mem_insert.mp hm).resolve_left (hne _ (by decide))
      · split
        · exact h
        · rename_i a args
          exact LineWords.stateLoop cs (h.stateParam c (ha a (by simp)))
            fun x hx => ha x (List.mem_cons_of_mem _ hx)

theorem shown_of_mem_modeFlags {chan : Channel} {c : Char}
    (hc : c ∈ paramLetters.map Prod.snd) (h : c ∈ chan.modeFlags) :
    ∃ p ∈ chan.shownParams, p.1 = true ∧ p.2.1 = c := by
  have hno : ∀ x ∈ paramLetters.map Prod.snd, x ∉ '+' :: flagLetters.map Prod.fst := by decide
  rw [Channel.modeFlags] at h
  rcases List.mem_append.mp h with h | h
  · refine absurd ?_ (hno c hc)
    rcases List.mem_cons.mp h with h | h
    · simp [h]
    · obtain ⟨x, hx, rfl⟩ := List.mem_map.mp h
      exact List.mem_cons_of_mem _ (List.mem_map_of_mem (List.mem_of_mem_filter hx))
  · obtain ⟨p, hp, rfl⟩ := List.mem_map.mp h
    obtain ⟨hm, hs⟩ := List.mem_filter.mp hp
    exact ⟨p, hm, hs, rfl⟩

/-- **Modes that come back can be sent.** -/
theorem RoundTrips.sendable {srv : Server} {outsz : Nat} {members : Text} {chan old : Channel}
    (hs : SidShape srv.sid) (hsz : 460 ≤ outsz) (hc : 0 < chan.created ∧ chan.created ≤ longMax)
    (h : RoundTrips srv outsz members chan old) : Sendable chan := by
  obtain ⟨args, hargs, hplain, -⟩ := sjoinModes_sent hs hsz hc members
  have hread : (setStateModes old chan.modeFlags args true).modesOnly = chan.modesOnly := by
    rw [RoundTrips, hargs] at h
    exact Option.some.inj h
  have hmodes : (stateLoop chan.modeFlags args old.toSettings.cleared).modes = chan.modes :=
    (congrArg Settings.modes hread :)
  have hkey : (stateLoop chan.modeFlags args old.toSettings.cleared).key = chan.key :=
    (congrArg Settings.key hread :)
  have hredirect : (stateLoop chan.modeFlags args old.toSettings.cleared).redirect =
      chan.redirect := (congrArg Settings.redirect hread :)
  have hwired : LineWords (stateLoop chan.modeFlags args old.toSettings.cleared) :=
    LineWords.stateLoop _ ⟨fun hm => absurd hm (by simp [Settings.cleared, Settings.none]),
      fun hm => absurd hm (by simp [Settings.cleared, Settings.none])⟩ hplain
  have hletter : ∀ b c, b ∈ chan.modes → (∀ x, (b, x) ∈ paramLetters → x = c) →
      b ∈ paramLetters.map Prod.fst → c ∈ paramLetters.map Prod.snd →
      ∃ p ∈ chan.shownParams, p.1 = true ∧ p.2.1 = c := by
    intro b c hb huniq hbp hcp
    rw [← hmodes] at hb
    rcases mem_stateLoop hbp _ _ _ hb with h | ⟨x, hx, hxm⟩
    · exact absurd h (by simp [Settings.cleared, Settings.none])
    · exact shown_of_mem_modeFlags hcp (huniq x hxm ▸ hx)
  refine ⟨fun hm => hkey ▸ hwired.key (hmodes ▸ hm), fun hm => ?_,
    fun hm => hredirect ▸ hwired.redirect (hmodes ▸ hm), fun hm => ?_⟩
  · obtain ⟨p, hp, hshown, hc⟩ := hletter .l 'l' hm (by simp [paramLetters]) (by decide) (by decide)
    simp only [Channel.shownParams, List.mem_cons, List.not_mem_nil, or_false] at hp
    rcases hp with rfl | rfl | rfl | rfl | rfl
    · simp at hc
    · exact (of_decide_eq_true hshown).2
    all_goals simp at hc
  · obtain ⟨p, hp, hshown, hc⟩ := hletter .jthrot 'j' hm (by simp [paramLetters]) (by decide)
      (by decide)
    simp only [Channel.shownParams, List.mem_cons, List.not_mem_nil, or_false] at hp
    rcases hp with rfl | rfl | rfl | rfl | rfl
    · simp at hc
    · simp at hc
    · simp at hc
    · simp at hc
    · exact (of_decide_eq_true hshown).2

/-! ## 5. What can be reached

A mode command checks its parameters and a MODE line nearly none, and a channel may have been
through both. -/

/-- What every mode command and every MODE line leaves. This is what makes parameters fit into the
string. -/
structure Settled (s : Settings) : Prop where
  key : s.key.length < chanKeyLen ∧ (.k ∉ s.modes → s.key = [])
  limit : s.limit ≤ intMax ∧ (.l ∉ s.modes → s.limit = 0)
  redirect : s.redirect.length < chanNameLen ∧ (.redirect ∉ s.modes → s.redirect = [])
  flood : if .flood ∈ s.modes then Parsed s.flood else s.flood = Flood.clear
  jthrot : s.jtJoins ≤ intMax ∧ (-(2 ^ 31) ≤ s.jtSecs ∧ s.jtSecs ≤ intMax) ∧
    (.jthrot ∉ s.modes → s.jtJoins = 0 ∧ s.jtSecs = 0)

/-- A channel whose modes were made by mode commands and MODE lines.  Whatever else happens to
it leaves its modes alone. -/
inductive Reaches : Channel → Prop
  | created (srv : Server) (name : Text) (h : ircValidChannel name 50 = true) (now : Int) :
      Reaches { newChannel name h now with modes := defaultModeBits srv }
  | command (srv : Server) (cl : Client) (ms : Text) (args : List Text) (full : Bool)
      {chan : Channel} : Reaches chan →
      Reaches (cmdApplyChannelMode srv cl chan ms args full).chan
  | line (srv : Server) (peer : Text) (msg : IrcMessage) {chan : Channel} : Reaches chan →
      Reaches (handleMode srv peer chan msg).chan
  | other {chan chan' : Channel} : Reaches chan → chan'.modesOnly = chan.modesOnly → Reaches chan'

/-- A change as `handle_mode` makes it, which checks `+f` only. -/
def Change.Unchecked : Change → Prop
  | .flag _ b => channelFlagBit (flagLetter b) = some b
  | .limit (some n) => n ≤ intMax
  | .flood (some f) => Parsed f
  | .jthrot (some p) => p.1 ≤ intMax ∧ -(2 ^ 31) ≤ p.2 ∧ p.2 ≤ intMax
  | _ => True

theorem Change.Admitted.unchecked {users : List Client} {chan : Channel} {ch : Change}
    (h : ch.Admitted users chan) : ch.Unchecked := by
  cases ch with
  | flag on b => exact h.1
  | limit v =>
    cases v with
    | none => trivial
    | some n => exact h.2
  | flood v =>
    cases v with
    | none => trivial
    | some f => exact h
  | jthrot v =>
    cases v with
    | none => trivial
    | some p =>
      obtain ⟨⟨-, h1⟩, h2, h3⟩ := h
      simp only [Change.Unchecked, intMax]
      omega
  | _ => trivial

theorem Settled.change {s : Settings} (h : Settled s) {ch : Change} (hc : ch.Unchecked) :
    Settled (ch.settings s) := by
  obtain ⟨hk, hl, hr, hf, hj⟩ := h
  cases ch with
  | flag on b =>
    have hne : ∀ x ∈ paramLetters.map Prod.fst, x ≠ b := by
      rintro x hx rfl
      obtain ⟨y, hy, rfl⟩ := List.mem_map.mp hx
      exact flag_not_param hc y.2 hy
    have hsame : ∀ x ∈ paramLetters.map Prod.fst,
        x ∈ ((Change.flag on b).settings s).modes ↔ x ∈ s.modes := by
      intro x hx
      cases on <;> simp [Change.settings, hne x hx]
    have hk' := hsame .k (by decide)
    have hl' := hsame .l (by decide)
    have hr' := hsame .redirect (by decide)
    have hf' := hsame .flood (by decide)
    have hj' := hsame .jthrot (by decide)
    exact ⟨by rwa [hk'], by rwa [hl'], by rwa [hr'], by simp only [hf']; exact hf, by rwa [hj']⟩
  | key v =>
    cases v with
    | none => exact ⟨⟨by simp [Change.settings, chanKeyLen], fun _ => rfl⟩, by simpa [Change.settings] using hl,
        by simpa [Change.settings] using hr, by simpa [Change.settings] using hf,
        by simpa [Change.settings] using hj⟩
    | some v =>
      have hlen : (clip chanKeyLen v).length < chanKeyLen :=
        (clip_length_le _ _).trans_lt (by decide)
      exact ⟨⟨hlen, by simp [Change.settings]⟩, by simpa [Change.settings] using hl,
        by simpa [Change.settings] using hr, by simpa [Change.settings] using hf,
        by simpa [Change.settings] using hj⟩
  | limit v =>
    cases v with
    | none => exact ⟨by simpa [Change.settings] using hk,
        ⟨by simp [Change.settings, intMax], fun _ => rfl⟩,
        by simpa [Change.settings] using hr, by simpa [Change.settings] using hf,
        by simpa [Change.settings] using hj⟩
    | some n => exact ⟨by simpa [Change.settings] using hk, ⟨hc, by simp [Change.settings]⟩,
        by simpa [Change.settings] using hr, by simpa [Change.settings] using hf,
        by simpa [Change.settings] using hj⟩
  | redirect v =>
    cases v with
    | none => exact ⟨by simpa [Change.settings] using hk, by simpa [Change.settings] using hl,
        ⟨by simp [Change.settings, chanNameLen], fun _ => rfl⟩,
        by simpa [Change.settings] using hf, by simpa [Change.settings] using hj⟩
    | some v =>
      have hlen : (clip chanNameLen v).length < chanNameLen :=
        (clip_length_le _ _).trans_lt (by decide)
      exact ⟨by simpa [Change.settings] using hk, by simpa [Change.settings] using hl,
        ⟨hlen, by simp [Change.settings]⟩, by simpa [Change.settings] using hf,
        by simpa [Change.settings] using hj⟩
  | flood v =>
    cases v with
    | none => exact ⟨by simpa [Change.settings] using hk, by simpa [Change.settings] using hl,
        by simpa [Change.settings] using hr, by simp [Change.settings],
        by simpa [Change.settings] using hj⟩
    | some f => exact ⟨by simpa [Change.settings] using hk, by simpa [Change.settings] using hl,
        by simpa [Change.settings] using hr, by simpa [Change.settings] using (show Parsed f from hc),
        by simpa [Change.settings] using hj⟩
  | jthrot v =>
    cases v with
    | none => exact ⟨by simpa [Change.settings] using hk, by simpa [Change.settings] using hl,
        by simpa [Change.settings] using hr, by simpa [Change.settings] using hf,
        ⟨by simp [Change.settings, intMax], by simp [Change.settings, intMax],
          fun _ => ⟨rfl, rfl⟩⟩⟩
    | some v => exact ⟨by simpa [Change.settings] using hk, by simpa [Change.settings] using hl,
        by simpa [Change.settings] using hr, by simpa [Change.settings] using hf,
        ⟨hc.1, hc.2, by simp [Change.settings]⟩⟩
  | mask on kind m => cases on <;> cases kind <;> exact ⟨hk, hl, hr, hf, hj⟩
  | rank on b uid nick => exact ⟨hk, hl, hr, hf, hj⟩

theorem Settled.congr {a b : Channel} (h : Settled a.toSettings) (he : b.modesOnly = a.modesOnly) :
    Settled b.toSettings := by
  have ha : Settled a.modesOnly := ⟨h.key, h.limit, h.redirect, h.flood, h.jthrot⟩
  have hb : Settled b.modesOnly := he ▸ ha
  exact ⟨hb.key, hb.limit, hb.redirect, hb.flood, hb.jthrot⟩

/-- One letter of a MODE line is a change, or leaves the modes alone. -/
theorem remoteLetter_unchecked (users : List Client) (chan : Channel) (sign : Bool) (c : Char)
    (arg : Option Text) :
    (remoteLetter users chan sign c arg).1.modesOnly = chan.modesOnly ∨
      ∃ ch : Change, ch.Unchecked ∧
        (remoteLetter users chan sign c arg).1.toSettings = ch.settings chan.toSettings := by
  unfold remoteLetter
  split
  · rename_i bit hbit
    have hflag : channelFlagBit (flagLetter bit) = some bit := by rwa [flagLetter_of_bit hbit]
    refine Or.inr ⟨.flag sign bit, hflag, ?_⟩
    cases sign with
    | true => rfl
    | false =>
      simp only [Bool.false_eq_true, if_false]
      split <;> rfl
  · split
    · split
      · rename_i a
        exact Or.inr ⟨.key (some a), trivial, rfl⟩
      · exact Or.inr ⟨.key none, trivial, rfl⟩
    · split
      · split
        · rename_i a
          exact Or.inr ⟨.limit (some (atoi a)), (atoi_range a).2, rfl⟩
        · exact Or.inr ⟨.limit none, trivial, rfl⟩
      · split
        · split
          · split
            · rename_i chan' h
              obtain ⟨f, hf, rfl⟩ := Option.map_eq_some_iff.mp h
              exact Or.inr ⟨.flood (some f), parseFlood_parsed hf, rfl⟩
            · exact Or.inl rfl
          · exact Or.inl rfl
          · exact Or.inr ⟨.flood none, trivial, rfl⟩
        · split
          · split
            · split
              · rename_i n secs h
                obtain ⟨⟨-, h1⟩, h2⟩ := scanPair_range h
                exact Or.inr ⟨.jthrot (some (n, secs)), ⟨h1, h2⟩, rfl⟩
              · exact Or.inl rfl
            · exact Or.inl rfl
            · exact Or.inr ⟨.jthrot none, trivial, rfl⟩
          · split
            · split
              · rename_i a
                exact Or.inr ⟨.redirect (some a), trivial, rfl⟩
              · exact Or.inr ⟨.redirect none, trivial, rfl⟩
            · split
              · split
                · rename_i kind _ a _ l _
                  exact Or.inl (by cases kind <;> rfl)
                · exact Or.inl rfl
              · split <;> exact Or.inl rfl
              · exact Or.inl rfl

theorem remoteLetter_settled (users : List Client) {chan : Channel} (h : Settled chan.toSettings)
    (sign : Bool) (c : Char) (arg : Option Text) :
    Settled (remoteLetter users chan sign c arg).1.toSettings := by
  rcases remoteLetter_unchecked users chan sign c arg with he | ⟨ch, hch, he⟩
  · exact h.congr he
  · rw [he]
    exact h.change hch

theorem recvLoop_settled (users : List Client) : ∀ (cs : Text) (s : ModeRecv),
    Settled s.chan.toSettings → Settled (recvLoop users cs s).chan.toSettings
  | [], _, h => h
  | c :: cs, s, h => by
    rw [recvLoop]
    split
    · exact h
    · refine recvLoop_settled users cs _ ?_
      unfold recvChar
      split
      · exact h
      · split
        · exact h
        · have hl := remoteLetter_settled users h s.sign c
            (if takesArg s.sign c then s.args.head? else none)
          simp only [recvLetter]
          split <;> exact hl

/-- **Every channel that is reached is settled.** -/
theorem Reaches.settled {chan : Channel} (h : Reaches chan) : Settled chan.toSettings := by
  induction h with
  | created srv name h now =>
    have hno : ∀ b ∈ paramLetters.map Prod.fst, b ∉ defaultModeBits srv := by
      intro b hb hm
      rw [defaultModeBits, List.mem_toFinset, List.mem_filterMap] at hm
      obtain ⟨c, -, hc⟩ := hm
      obtain ⟨-, hbit⟩ := Option.ite_none_right_eq_some.mp hc
      obtain ⟨x, hx, rfl⟩ := List.mem_map.mp hb
      exact flag_not_param hbit x.2 hx
    exact ⟨⟨by simp [newChannel, Settings.none, chanKeyLen], fun _ => rfl⟩,
      ⟨by simp [newChannel, Settings.none, intMax], fun _ => rfl⟩,
      ⟨by simp [newChannel, Settings.none, chanNameLen], fun _ => rfl⟩,
      by rw [if_neg (hno .flood (by decide))]; rfl,
      ⟨by simp [newChannel, Settings.none, intMax], by simp [newChannel, Settings.none, intMax],
        fun _ => ⟨rfl, rfl⟩⟩⟩
  | command srv cl ms args full _ ih =>
    rename_i chan _
    obtain ⟨chs, -, hadm, hfold⟩ := cmdApplyChannelMode_changes srv cl chan ms args full
    rw [← hfold]
    have hall : ∀ (chs : List Change) (chan : Channel), Settled chan.toSettings →
        AllAdmitted srv.users.clients chan chs →
        Settled (chs.foldl Change.apply chan).toSettings := by
      intro chs
      induction chs with
      | nil => exact fun _ h _ => h
      | cons ch chs ih =>
        intro chan h ha
        refine ih _ ?_ ha.2
        rw [apply_settings]
        exact h.change ha.1.unchecked
    exact hall chs chan ih hadm
  | line srv peer msg _ ih =>
    unfold handleMode
    split
    · split
      · exact ih
      · simp only
        split
        · exact recvLoop_settled _ _ _ ih
        · exact ih
    · exact ih
  | other _ he ih => exact ih.congr he

/-! ## 6. When the modes come back -/

/-- A settled channel's parameters fit when they can be sent. -/
theorem Settled.fit {chan : Channel} (h : Settled chan.toSettings) (hs : Sendable chan) :
    ParamsFit chan where
  key := by
    split
    · exact ⟨hs.key ‹_›, h.key.1⟩
    · exact h.key.2 ‹_›
  limit := by
    split
    · exact ⟨hs.limit ‹_›, h.limit.1⟩
    · exact h.limit.2 ‹_›
  redirect := by
    split
    · exact ⟨hs.redirect ‹_›, h.redirect.1⟩
    · exact h.redirect.2 ‹_›
  flood := h.flood
  jthrot := by
    split
    · exact ⟨⟨hs.jthrot ‹_›, h.jthrot.1⟩, h.jthrot.2.1⟩
    · exact h.jthrot.2.2 ‹_›
  room := by
    -- the longest are 63, 10, 63, 92 and 22 characters, each behind its space
    have hkey := h.key.1
    have hredirect := h.redirect.1
    have hlimit : (intDecimal chan.limit).length ≤ 10 := by
      have h0 : 0 ≤ chan.limit := by
        by_cases hm : .l ∈ chan.modes
        · have := hs.limit hm
          omega
        · have := h.limit.2 hm
          omega
      have hmax := h.limit.1
      exact intDecimal_length_le (by decide) h0 (by simp only [intMax] at hmax; omega)
    have hjoins : (intDecimal chan.jtJoins).length ≤ 10 := by
      have h0 : 0 ≤ chan.jtJoins := by
        by_cases hm : .jthrot ∈ chan.modes
        · have := hs.jthrot hm
          omega
        · have := (h.jthrot.2.2 hm).1
          omega
      have hmax := h.jthrot.1
      exact intDecimal_length_le (by decide) h0 (by simp only [intMax] at hmax; omega)
    have hsecs := (plain_int h.jthrot.2.1.1 h.jthrot.2.1.2).2
    have hflood : (clip 99 (channelFloodParam chan.flood)).length ≤ 92 := by
      have hf := h.flood
      split at hf
      · rw [hf.clip_text]
        have := hf.length_lt
        omega
      · rw [hf]
        decide
    have hsum := length_shown chan.shownParams
    simp only [Channel.shownParams, List.map_cons, List.map_nil, List.sum_cons, List.sum_nil,
      List.length_append, List.length_cons, chanKeyLen, chanNameLen] at hsum hkey hredirect
    simp only [Channel.shownParams] at hsum ⊢
    omega

/-- **A channel's modes come back exactly when its parameters can be sent.** A word that the
builder would rewrite, or a number that the parser refuses, shifts or drops what stands behind it.
The channel may be any that requests can lead to. -/
theorem modes_round_trip {srv : Server} {outsz : Nat} {chan : Channel} (h : Reaches chan)
    (hs : SidShape srv.sid) (hsz : 460 ≤ outsz) (hc : 0 < chan.created ∧ chan.created ≤ longMax)
    (members : Text) (old : Channel) :
    RoundTrips srv outsz members chan old ↔ Sendable chan := by
  refine ⟨RoundTrips.sendable hs hsz hc, fun hsend => ?_⟩
  have hfit := h.settled.fit hsend
  obtain ⟨args, hargs, -, hsame⟩ := sjoinModes_sent hs hsz hc members
  rw [RoundTrips, hargs, hsame hfit, Option.map_some]
  simp only [setStateModes, if_true, stateLoop_modes hfit, withModes_cleared hfit]
  rfl

/-- A new channel. -/
def demoMade : Channel :=
  { newChannel "#tea".toList (by decide) 100 with modes := defaultModeBits demoServer }

/-- The channel after `MODE #tea <ms> <args>` by an op. -/
def demoModes (ms : Text) (args : List Text) : Channel :=
  (cmdApplyChannelMode demoServer demoOp demoMade ms args true).chan

theorem reaches_demoModes (ms : Text) (args : List Text) : Reaches (demoModes ms args) :=
  .command _ _ _ _ _ (.created demoServer "#tea".toList (by decide) 100)

theorem modes_round_trip_demo :
    RoundTrips demoServer 1200 []
      (demoModes "+klj".toList ["sesame".toList, "5".toList, "3:10".toList]) demoMade :=
  (modes_round_trip (reaches_demoModes _ _) (by decide) (by decide) (by decide +kernel) [] _).mpr
    ⟨fun _ => by decide +kernel, fun _ => by decide +kernel, fun h => absurd h (by decide +kernel),
      fun _ => by decide +kernel⟩

/-- `+k` takes the key `:x`, which arrives as `_x`, and an empty key, which does not arrive. -/
theorem odd_keys_change :
    (Reaches (demoModes "+k".toList [":x".toList]) ∧
      sjoinModes (sjoinLine demoServer 1200 (demoModes "+k".toList [":x".toList]) []) =
        some ("+ntk".toList, ["_x".toList]) ∧
      ¬ RoundTrips demoServer 1200 [] (demoModes "+k".toList [":x".toList]) demoMade) ∧
    Reaches (demoModes "+k".toList [[]]) ∧
      (demoModes "+k".toList [[]]).modes = {.n, .t, .k} ∧
      sjoinModes (sjoinLine demoServer 1200 (demoModes "+k".toList [[]]) []) =
        some ("+nt".toList, []) ∧
      ¬ RoundTrips demoServer 1200 [] (demoModes "+k".toList [[]]) demoMade := by
  have hnot : ∀ key : Text, ¬ Plain (demoModes "+k".toList [key]).key →
      .k ∈ (demoModes "+k".toList [key]).modes →
      0 < (demoModes "+k".toList [key]).created ∧
        (demoModes "+k".toList [key]).created ≤ longMax →
      ¬ RoundTrips demoServer 1200 [] (demoModes "+k".toList [key]) demoMade :=
    fun key hkey hk hc h => hkey ((h.sendable (by decide) (by decide) hc).key hk)
  refine ⟨⟨reaches_demoModes _ _, ?_, hnot _ ?_ ?_ ?_⟩, reaches_demoModes _ _, ?_, ?_,
    hnot _ ?_ ?_ ?_⟩ <;> decide +kernel

end SekurIRCd
