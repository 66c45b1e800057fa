/-
# What clients make of an announced MODE line

ISUPPORT tells a client how to read a MODE line: CHANMODES=beI,k,lfjL,.. and PREFIX=(qaohv).
Modes of the first two groups and the ranks always take an argument, those of the third only
when set.  A client that follows it keeps a picture of the channel (`ModeView`), and the
announcement is exact when reading the line turns the picture before into the picture after.

Change by change it is (`read_signed`).  Line by line it is not: `-k` is announced without the
argument that ISUPPORT promises, a line over 509 bytes is not sent at all, `irc_build` rewrites
an empty or colon-led argument, and a key is announced longer than it is stored.
`announcement_exact` shows that these are the only ways to fail.
-/
import SekurIRCd.Mode.Change
import Mathlib.Data.Finset.SDiff

namespace SekurIRCd

open CLib CLib.Signed

/-! ## 1. The reader

A client that follows ISUPPORT knows of a letter only its group and its sign. The picture is what
such a client can show, with ranks by nick, since it sees no UIDs. -/

/-- Which letters take an argument, by CHANMODES and PREFIX. A letter that is in neither is taken
for a flag. -/
def isupportTakes (add : Bool) (c : Char) : Bool :=
  decide (c ∈ "beIkqaohv".toList) || (add && decide (c ∈ "lfjL".toList))

/-- What a client knows of a channel's modes: flags, parameters as text, lists and, by nick,
ranks. -/
@[ext] structure ModeView where
  flags : Finset CMode
  key : Option Text
  limit : Option Text
  redirect : Option Text
  flood : Option Text
  jthrot : Option Text
  lists : ListKind → List Text
  ranks : Text → Option Rank

/-- The modes that have a parameter. -/
def withParam : Finset CMode := {.k, .l, .redirect, .flood, .jthrot}

/-- The picture of a channel. Parameters are in it as they are announced, and a member without a
nick among the users is not. -/
def modeView (users : List Client) (chan : Channel) : ModeView where
  flags := chan.modes \ withParam
  key := if .k ∈ chan.modes then some chan.key else none
  limit := if .l ∈ chan.modes then some (intDecimal chan.limit) else none
  redirect := if .redirect ∈ chan.modes then some chan.redirect else none
  flood := if .flood ∈ chan.modes then some (channelFloodParam chan.flood) else none
  jthrot := if .jthrot ∈ chan.modes then
    some (intDecimal chan.jtJoins ++ ':' :: intDecimal chan.jtSecs) else none
  lists := chan.list
  ranks nick := (serverFindUser users nick).bind fun u => chan.rankOf u.uid

/-- A rank granted or taken away. -/
def Rank.set (rank : Rank) (on : Bool) (b : RankBit) : Rank :=
  if on then rank.grant b else rank.revoke b

/-- Reading one letter with its argument. A flag is set or cleared, a list gains or loses a mask, a
nick gains or loses a rank. -/
def ModeView.read (v : ModeView) (t : Signed Text) : ModeView :=
  match channelFlagBit t.letter with
  | some b => { v with flags := if t.add then insert b v.flags else v.flags.erase b }
  | none =>
    let param := if t.add then t.arg else none
    if t.letter = 'k' then { v with key := param }
    else if t.letter = 'l' then { v with limit := param }
    else if t.letter = 'L' then { v with redirect := param }
    else if t.letter = 'f' then { v with flood := param }
    else if t.letter = 'j' then { v with jthrot := param }
    else match listKind t.letter, rankBit t.letter, t.arg with
    | some kind, _, some m =>
      { v with lists := fun k => if k = kind then
          (if t.add then v.lists k ++ [m] else (v.lists k).eraseP (caseEq · m)) else v.lists k }
    | none, some b, some nick =>
      { v with ranks := fun n => if ircCasefold nickLen n = ircCasefold nickLen nick then
          (v.ranks n).map (Rank.set · t.add b) else v.ranks n }
    | _, _, _ => v

/-! ## 2. One change

Each kind of change is read as what it did: a flag, a parameter, a mask in a list, a rank under a
nick. -/

theorem rank_setRank (on : Bool) (b : RankBit) (m : Member) :
    (Member.setRank on b m).client = m.client ∧
      (Member.setRank on b m).rank = Rank.set m.rank on b := by
  cases on <;> exact ⟨rfl, rfl⟩

theorem rankOf_setRank (chan : Channel) (uid v : Text) (on : Bool) (b : RankBit) :
    (chan.updateMember uid (Member.setRank on b)).rankOf v =
      if v = uid then (chan.rankOf v).map (Rank.set · on b) else chan.rankOf v :=
  rankOf_updateMember chan uid v fun m => rank_setRank on b m

theorem flag_notMem_withParam {b : CMode} (h : channelFlagBit (flagLetter b) = some b) :
    b ∉ withParam := by
  have hall : ∀ x ∈ flagLetters, x.2 ∉ withParam := by decide
  exact hall _ (mem_flagLetters h)

/-- A change writes a flag or one parameter's register, never another's. -/
theorem param_mem_iff {modes : Finset CMode} {b x : CMode} (h : x ≠ b) :
    (x ∈ insert b modes ↔ x ∈ modes) ∧ (x ∈ modes.erase b ↔ x ∈ modes) := by
  simp [h]

theorem modeView_flags_insert {modes : Finset CMode} {b : CMode} (h : b ∈ withParam) :
    insert b modes \ withParam = modes \ withParam ∧
      modes.erase b \ withParam = modes \ withParam := by
  constructor
  · exact Finset.insert_sdiff_of_mem _ h
  · ext x
    simp only [Finset.mem_sdiff, Finset.mem_erase]
    exact ⟨fun hx => ⟨hx.1.2, hx.2⟩, fun hx => ⟨⟨fun e => hx.2 (e ▸ h), hx.1⟩, hx.2⟩⟩

/-- An announced key is the stored one when it fits the key's buffer. -/
def KeyFits (t : Signed Text) : Prop :=
  t.letter = 'k' → ∀ a ∈ t.arg, a.length < chanKeyLen

instance (t : Signed Text) : Decidable (KeyFits t) := inferInstanceAs (Decidable (_ → _))

theorem clip_lt_iff {n : Nat} {s : Text} (hn : n ≤ 255) (h : (clip 256 s).length < n) :
    clip 256 s = s ∧ s.length < n := by
  have hs : s.length < n := by
    unfold clip at h
    rw [List.length_take] at h
    omega
  exact ⟨clip_of_fits (by omega), hs⟩

section Read

variable (v : ModeView) (add : Bool) (arg : Option Text)

theorem read_flag {c : Char} {b : CMode} (h : channelFlagBit c = some b) :
    v.read ⟨add, c, arg⟩ =
      { v with flags := if add then insert b v.flags else v.flags.erase b } := by
  simp only [ModeView.read, h]

theorem read_key : v.read ⟨add, 'k', arg⟩ = { v with key := if add then arg else none } := rfl

theorem read_limit : v.read ⟨add, 'l', arg⟩ = { v with limit := if add then arg else none } := rfl

theorem read_redirect :
    v.read ⟨add, 'L', arg⟩ = { v with redirect := if add then arg else none } := rfl

theorem read_flood : v.read ⟨add, 'f', arg⟩ = { v with flood := if add then arg else none } := rfl

theorem read_jthrot :
    v.read ⟨add, 'j', arg⟩ = { v with jthrot := if add then arg else none } := rfl

theorem read_mask (kind : ListKind) (m : Text) : v.read ⟨add, kind.letter, some m⟩ =
    { v with lists := fun k => if k = kind then
        (if add then v.lists k ++ [m] else (v.lists k).eraseP (caseEq · m)) else v.lists k } := by
  cases kind <;> rfl

theorem read_rank (b : RankBit) (nick : Text) : v.read ⟨add, rankLetter b, some nick⟩ =
    { v with ranks := fun n => if ircCasefold nickLen n = ircCasefold nickLen nick then
        (v.ranks n).map (Rank.set · add b) else v.ranks n } := by
  cases b <;> rfl

end Read

/-- A change of one rank is seen under one nick. -/
theorem ranks_setRank (us : Users) (chan : Channel) {u : Client} (hu : u ∈ us.clients)
    (hne : u.uid ≠ []) (on : Bool) (b : RankBit) (n : Text) :
    (modeView us.clients (chan.updateMember u.uid (Member.setRank on b))).ranks n =
      if ircCasefold nickLen n = ircCasefold nickLen u.nick then
        ((modeView us.clients chan).ranks n).map (Rank.set · on b)
      else (modeView us.clients chan).ranks n := by
  simp only [modeView]
  cases hf : serverFindUser us.clients n with
  | none => simp
  | some w =>
    obtain ⟨hw, hkey⟩ := serverFindUser_some hf
    have hiff : w.uid = u.uid ↔ ircCasefold nickLen n = ircCasefold nickLen u.nick := by
      rw [← hkey, ← us.ok.keyed u hu]
      exact ⟨fun h => by rw [us.ok.uid_inj w hw u hu h (h ▸ hne)],
        fun h => by rw [us.ok.nick_inj w hw u hu h]⟩
    simp only [Option.bind_some, rankOf_setRank]
    by_cases hc : w.uid = u.uid
    · rw [if_pos hc, if_pos (hiff.mp hc)]
    · rw [if_neg hc, if_neg fun h => hc (hiff.mpr h)]

/-- **Reading a change does to the picture what making it did to the channel.** -/
theorem read_signed (us : Users) (chan : Channel) (ch : Change)
    (ha : ch.Admitted us.clients chan) (hk : KeyFits ch.signed) :
    (modeView us.clients chan).read ch.signed = modeView us.clients (ch.apply chan) := by
  have hk' : CMode.k ∈ withParam ∧ CMode.l ∈ withParam ∧ CMode.redirect ∈ withParam ∧
      CMode.flood ∈ withParam ∧ CMode.jthrot ∈ withParam := by decide
  obtain ⟨hkp, hlp, hrp, hfp, hjp⟩ := hk'
  cases ch with
  | flag on b =>
    obtain ⟨hb, -⟩ := ha
    have hnp := flag_notMem_withParam hb
    have hne : ∀ x ∈ withParam, x ≠ b := fun x hx e => hnp (e ▸ hx)
    rw [Change.signed, read_flag _ _ _ hb]
    cases on with
    | true =>
      have hm : ∀ x ∈ withParam, (x ∈ insert b chan.modes ↔ x ∈ chan.modes) := fun x hx =>
        (param_mem_iff (hne x hx)).1
      simp only [modeView, Change.apply, if_true, hm _ hkp, hm _ hlp, hm _ hrp, hm _ hfp, hm _ hjp,
        Finset.insert_sdiff_of_notMem _ hnp]
      rfl
    | false =>
      have hm : ∀ x ∈ withParam, (x ∈ chan.modes.erase b ↔ x ∈ chan.modes) := fun x hx =>
        (param_mem_iff (hne x hx)).2
      have hmodes : (Change.apply chan (.flag false b)).modes = chan.modes.erase b := by
        simp only [Change.apply]
        split <;> rfl
      have hrank : ∀ w, (Change.apply chan (.flag false b)).rankOf w = chan.rankOf w := by
        intro w
        simp only [Change.apply]
        split
        · rw [rankOf_revealAll]; rfl
        · rfl
      have hsame : (Change.apply chan (.flag false b)).toSettings =
          { chan.toSettings with modes := chan.modes.erase b } := by
        simp only [Change.apply]
        split <;> rfl
      have hlist : (Change.apply chan (.flag false b)).list = chan.list := by
        funext kind
        simp only [Change.apply]
        split <;> cases kind <;> rfl
      simp only [modeView, hsame, hrank, hlist, hm _ hkp, hm _ hlp, hm _ hrp, hm _ hfp, hm _ hjp,
        Bool.false_eq_true, if_false, Finset.erase_sdiff_comm]
  | key v =>
    cases v with
    | some v =>
      have hfit := hk rfl (clip 256 v) rfl
      obtain ⟨hc, hlen⟩ := clip_lt_iff (by decide) hfit
      have hst : clip chanKeyLen v = v := clip_of_fits hlen
      simp only [Change.signed, Option.isSome_some, Option.map_some, read_key, modeView,
        Change.apply, if_true, hc, hst, (modeView_flags_insert hkp).1, Finset.mem_insert,
        reduceCtorEq, false_or, true_or]
      rfl
    | none =>
      simp only [Change.signed, Option.isSome_none, read_key, modeView, Change.apply,
        (modeView_flags_insert hkp).2, Finset.mem_erase, reduceCtorEq, ne_eq, not_true,
        not_false_eq_true, true_and, false_and, if_false, Bool.false_eq_true]
      rfl
  | limit v =>
    cases v with
    | some n =>
      have hlen := intDecimal_length_le (z := n) (k := 10) (by decide) (by have := ha.1; omega)
        (by have := ha.2; simp only [intMax] at this; omega)
      have hc : clip 256 (intDecimal n) = intDecimal n := clip_of_fits (by omega)
      simp only [Change.signed, Option.isSome_some, Option.map_some, read_limit, modeView,
        Change.apply, if_true, hc, (modeView_flags_insert hlp).1, Finset.mem_insert,
        reduceCtorEq, false_or, true_or]
      rfl
    | none =>
      simp only [Change.signed, Option.isSome_none, read_limit, modeView, Change.apply,
        (modeView_flags_insert hlp).2, Finset.mem_erase, reduceCtorEq, ne_eq, not_true,
        not_false_eq_true, true_and, false_and, if_false, Bool.false_eq_true]
      rfl
  | redirect v =>
    cases v with
    | some t =>
      have hlen := valid_channel_length ha
      have hc : clip 256 t = t := clip_of_fits (by omega)
      have hst : clip chanNameLen t = t := clip_of_fits (by simp only [chanNameLen]; omega)
      simp only [Change.signed, Option.isSome_some, Option.map_some, read_redirect, modeView,
        Change.apply, if_true, hc, hst, (modeView_flags_insert hrp).1, Finset.mem_insert,
        reduceCtorEq, false_or, true_or]
      rfl
    | none =>
      simp only [Change.signed, Option.isSome_none, read_redirect, modeView, Change.apply,
        (modeView_flags_insert hrp).2, Finset.mem_erase, reduceCtorEq, ne_eq, not_true,
        not_false_eq_true, true_and, false_and, if_false, Bool.false_eq_true]
      rfl
  | flood v =>
    cases v with
    | some f =>
      have hlen := Parsed.length_lt ha
      have hc : clip 256 (channelFloodParam f) = channelFloodParam f := clip_of_fits (by omega)
      simp only [Change.signed, Option.isSome_some, Option.map_some, read_flood, modeView,
        Change.apply, if_true, hc, (modeView_flags_insert hfp).1, Finset.mem_insert,
        reduceCtorEq, false_or, true_or]
      rfl
    | none =>
      simp only [Change.signed, Option.isSome_none, read_flood, modeView, Change.apply,
        (modeView_flags_insert hfp).2, Finset.mem_erase, reduceCtorEq, ne_eq, not_true,
        not_false_eq_true, true_and, false_and, if_false, Bool.false_eq_true]
      rfl
  | jthrot v =>
    cases v with
    | some r =>
      obtain ⟨n, secs⟩ := r
      obtain ⟨h1, h2⟩ := ha
      have hc : clip 256 (intDecimal n ++ ':' :: intDecimal secs) =
          intDecimal n ++ ':' :: intDecimal secs := by
        have hn := intDecimal_length_le (z := n) (k := 3) (by decide) (by omega) (by omega)
        have hs := intDecimal_length_le (z := secs) (k := 3) (by decide) (by omega) (by omega)
        exact clip_of_fits (by simp only [List.length_append, List.length_cons]; omega)
      simp only [Change.signed, Option.isSome_some, Option.map_some, read_jthrot, modeView,
        Change.apply, if_true, hc, (modeView_flags_insert hjp).1, Finset.mem_insert,
        reduceCtorEq, false_or, true_or]
      rfl
    | none =>
      simp only [Change.signed, Option.isSome_none, read_jthrot, modeView, Change.apply,
        (modeView_flags_insert hjp).2, Finset.mem_erase, reduceCtorEq, ne_eq, not_true,
        not_false_eq_true, true_and, false_and, if_false, Bool.false_eq_true]
      rfl
  | mask on kind m =>
    obtain ⟨⟨a, -, rfl⟩, -⟩ := ha
    have hc : clip 256 (channelNormalizeMask a) = channelNormalizeMask a :=
      clip_of_fits (by have := channelNormalizeMask_length a; omega)
    rw [Change.signed, read_mask, hc]
    have hset : ∀ l : List Text, modeView us.clients (chan.setList kind l) =
        { modeView us.clients chan with
          lists := fun k => if k = kind then l else chan.list k } := by
      intro l
      cases kind <;> ext1 <;> first | rfl | (funext k; cases k <;> rfl)
    cases on with
    | true =>
      rw [Change.apply, hset, hc]
      ext1 <;> try rfl
      funext k
      by_cases hkk : k = kind
      · simp only [hkk, if_true, modeView]
      · simp only [if_neg hkk, modeView]
    | false =>
      rw [Change.apply, hset]
      ext1 <;> try rfl
      funext k
      by_cases hkk : k = kind
      · simp only [hkk, if_true, modeView, Bool.false_eq_true, if_false]
      · simp only [if_neg hkk, modeView]
  | rank on b uid nick =>
    obtain ⟨⟨u, hu, rfl, rfl⟩, m, hm, -⟩ := ha
    have hne : u.uid ≠ [] := by
      have hmc : m.client = u.uid := by simpa using List.find?_some hm
      exact hmc ▸ m.named
    have hlen := valid_nick_length (us.ok.nick_valid u hu)
    have hc : clip 256 u.nick = u.nick := clip_of_fits (by simp only [nickLen] at hlen; omega)
    rw [Change.signed, read_rank, hc, Change.apply]
    ext1 <;> try rfl
    funext n
    rw [ranks_setRank us chan hu hne on b n]

theorem foldl_read_signed (us : Users) : ∀ (chs : List Change) (chan : Channel),
    AllAdmitted us.clients chan chs → (∀ ch ∈ chs, KeyFits ch.signed) →
    (chs.map Change.signed).foldl ModeView.read (modeView us.clients chan) =
      modeView us.clients (chs.foldl Change.apply chan)
  | [], _, _, _ => rfl
  | ch :: chs, chan, ha, hk => by
    rw [List.map_cons, List.foldl_cons, List.foldl_cons,
      read_signed us chan ch ha.1 (hk ch (by simp))]
    exact foldl_read_signed us chs _ ha.2 fun x hx => hk x (List.mem_cons_of_mem _ hx)

/-! ## 3. The line -/

/-- Reading a MODE line into a picture, if it can be read at all. -/
def readModeLine (v : ModeView) (line : Text) : Option ModeView :=
  (ircParseLine line).bind fun msg =>
    match msg.params with
    | _ :: flags :: params =>
      if msg.command = "MODE".toList then
        (strictWalk isupportTakes true flags params).map fun ts => ts.foldl ModeView.read v
      else none
    | _ => none

theorem isupportTakes_eq (add : Bool) (c : Char) : isupportTakes add c = takesArg add c := by
  have h : c ∈ "beIkqaohv".toList ↔ c ∈ "kbeIohvqa".toList := by
    have h1 : ∀ d ∈ "beIkqaohv".toList, d ∈ "kbeIohvqa".toList := by decide
    have h2 : ∀ d ∈ "kbeIohvqa".toList, d ∈ "beIkqaohv".toList := by decide
    exact ⟨h1 c, h2 c⟩
  rw [isupportTakes, takesArg, decide_eq_decide.mpr h]

section Line

variable (srv : Server) (cl : Client) (chan : Channel) (ms : Text) (args : List Text)
  (full : Bool)

/-- **An exact announcement**: when the channel changed, one line is sent, and reading it turns
the picture before into the picture after. -/
def AnnouncementExact : Prop :=
  (cmdApplyChannelMode srv cl chan ms args full).chan ≠ chan →
    ∃ line, (cmdApplyChannelMode srv cl chan ms args full).line = some line ∧
      readModeLine (modeView srv.users.clients chan) line =
        some (modeView srv.users.clients (cmdApplyChannelMode srv cl chan ms args full).chan)

/-- The line that announces what the request changes. -/
def announcedLine : Text :=
  ircLine (clientSource cl) "MODE".toList (chan.name ::
    encode none (announced srv cl chan ms args full) ::
    argsOf (announced srv cl chan ms args full))

/-- **The ways to fail are not taken**: the line is within 509 bytes, no key is removed, no
parameter is rewritten on the way, and no key is longer than what is kept of it. -/
structure Announceable : Prop where
  fits : (announcedLine srv cl chan ms args full).length < 510
  no_unkey : ∀ t ∈ announced srv cl chan ms args full, ¬ IsUnkey t
  plain : ∀ a ∈ argsOf (announced srv cl chan ms args full), Plain a
  key_fits : ∀ t ∈ announced srv cl chan ms args full, KeyFits t

theorem announced_ne_nil (h : (cmdApplyChannelMode srv cl chan ms args full).chan ≠ chan) :
    announced srv cl chan ms args full ≠ [] := by
  obtain ⟨chs, hsig, -, hfold⟩ := cmdApplyChannelMode_changes srv cl chan ms args full
  intro hnil
  rw [hnil, List.map_eq_nil_iff] at hsig
  rw [hsig] at hfold
  exact h hfold.symm

theorem line_eq (h : announced srv cl chan ms args full ≠ []) :
    (cmdApplyChannelMode srv cl chan ms args full).line =
      if (announcedLine srv cl chan ms args full).length < 510 then
        some (announcedLine srv cl chan ms args full) else none := by
  have hcmd : ircEscape 1024 "MODE".toList ≠ [] := by decide
  have htake : (argsOf (announced srv cl chan ms args full)).take 16 =
      argsOf (announced srv cl chan ms args full) := by
    have hargs := announced_args_le srv cl chan ms args full
    exact List.take_of_length_le (by simp only [maxModeParams] at hargs; omega)
  rw [(cmdApplyChannelMode_out srv cl chan ms args full h).2.2, modeLine,
    cmdApplyChannelMode_name, htake]
  by_cases hfit : (announcedLine srv cl chan ms args full).length < 510
  · rw [if_pos hfit]
    simp only [ircBuild_of_fits hcmd hfit, if_true]
    rfl
  · have hok := (ircBuild_ok_iff hcmd).not.mpr hfit
    rw [if_neg hfit]
    exact if_neg hok

theorem parse_announcedLine (hcl : cl ∈ srv.users.clients)
    (h : announced srv cl chan ms args full ≠ []) :
    ircParseLine (announcedLine srv cl chan ms args full) =
      some { tags := [], pfx := some (clientSource cl), command := "MODE".toList
             params := chan.name :: encode none (announced srv cl chan ms args full) ::
               (argsOf (announced srv cl chan ms args full)).map mid } := by
  have hargs := announced_args_le srv cl chan ms args full
  rw [announcedLine, ircParseLine_ircLine (srv.users.ok.source cl hcl) (by decide)
    (by simp only [List.length_cons, maxModeParams, ircMaxParams] at *; omega)]
  rw [List.map_cons, List.map_cons, mid_of_plain (plain_name chan), mid_of_plain (plain_flags h)]

/-- The table is right about every letter when no key is removed. -/
theorem announced_exact (h : ∀ t ∈ announced srv cl chan ms args full, ¬ IsUnkey t) :
    Exact isupportTakes (announced srv cl chan ms args full) := by
  intro t ht
  rw [isupportTakes_eq]
  refine (announced_forall (p := fun t => t.arg.isSome = takesArg t.add t.letter ∨
    (IsUnkey t ∧ t.arg = none)) (fun _ _ ha => ha.takes) t ht).resolve_right ?_
  exact fun hu => h t ht hu.1

/-- **Announcements are exact when no way to fail is taken**, and a changed channel is never
announced exactly by a line that does not fit or by one that removes the key. Exact means that a
reader of the line turns the channel's picture before the request into the one after it. -/
theorem announcement_exact (hcl : cl ∈ srv.users.clients) :
    (Announceable srv cl chan ms args full → AnnouncementExact srv cl chan ms args full) ∧
    (AnnouncementExact srv cl chan ms args full →
      (cmdApplyChannelMode srv cl chan ms args full).chan ≠ chan →
      (announcedLine srv cl chan ms args full).length < 510 ∧
        ∀ t ∈ announced srv cl chan ms args full, ¬ IsUnkey t) := by
  have hletter : ∀ t ∈ announced srv cl chan ms args full, IsLetter t.letter :=
    fun t ht => isLetter_of_mem (announced_letter t ht)
  constructor
  · intro hok hch
    have hne := announced_ne_nil srv cl chan ms args full hch
    refine ⟨announcedLine srv cl chan ms args full, ?_, ?_⟩
    · rw [line_eq srv cl chan ms args full hne, if_pos hok.fits]
    · have hwalk : strictWalk isupportTakes true (encode none (announced srv cl chan ms args full))
          (argsOf (announced srv cl chan ms args full)) =
            some (announced srv cl chan ms args full) :=
        (strictWalk_encode_iff hletter (by simp)).mpr
          (announced_exact srv cl chan ms args full hok.no_unkey)
      obtain ⟨chs, hsig, hadm, hfold⟩ := cmdApplyChannelMode_changes srv cl chan ms args full
      have hread := foldl_read_signed srv.users chs chan hadm fun ch hm =>
        hok.key_fits ch.signed (hsig ▸ List.mem_map_of_mem hm)
      rw [readModeLine, parse_announcedLine srv cl chan ms args full hcl hne, Option.bind_some]
      simp only [map_mid_of_plain hok.plain, hwalk, if_true, Option.map_some]
      rw [← hfold, ← hread, hsig]
  · intro hex hch
    have hne := announced_ne_nil srv cl chan ms args full hch
    obtain ⟨line, hline, hread⟩ := hex hch
    rw [line_eq srv cl chan ms args full hne] at hline
    split at hline
    · rename_i hfits
      refine ⟨hfits, fun t ht hu => ?_⟩
      obtain rfl := Option.some.inj hline
      rw [readModeLine, parse_announcedLine srv cl chan ms args full hcl hne,
        Option.bind_some] at hread
      simp only [if_true] at hread
      obtain ⟨ts, hts, -⟩ := Option.map_eq_some_iff.mp hread
      -- the reader was content with as many arguments as were announced
      have hall : (walk isupportTakes true (encode none (announced srv cl chan ms args full))
          ((argsOf (announced srv cl chan ms args full)).map mid)).all fun t =>
            !isupportTakes t.add t.letter || t.arg.isSome := by
        unfold strictWalk at hts
        split at hts
        · assumption
        · exact absurd hts (by simp)
      have hsub : ∀ u ∈ announced srv cl chan ms args full, u.arg.isSome = true →
          isupportTakes u.add u.letter = true := by
        refine announced_forall fun _ _ ha harg => ?_
        rw [isupportTakes_eq]
        rcases ha.takes with h | h
        · rw [← h, harg]
        · rw [h.2] at harg
          exact absurd harg (by simp)
      have hunkey : ∀ u ∈ announced srv cl chan ms args full, IsUnkey u → u.arg = none :=
        announced_forall fun _ _ _ => Change.unkey_arg
      have hexact := (exact_of_strictWalk hletter hsub (by simp) hall).2 (by simp) t ht
      rw [hunkey t ht hu, isupportTakes_eq, hu.1, hu.2] at hexact
      exact absurd hexact (by decide)
    · exact absurd hline (by simp)

end Line

/-- Alice mutes the channel, limits it to twenty and gives Bob a voice. -/
theorem announcement_exact_mute :
    AnnouncementExact demoServer demoOp demoChan "+mlv".toList ["20".toList, "bob".toList] true :=
  (announcement_exact demoServer demoOp demoChan "+mlv".toList ["20".toList, "bob".toList] true
    (by decide)).1 ⟨by decide, by decide, by decide, by decide⟩

/-- The removed key takes Bob's name, and the op that he was given has none. -/
theorem unkey_not_announced : ¬ AnnouncementExact demoServer demoOp demoChan "-k+o".toList
    ["x".toList, "bob".toList] true := by
  intro h
  obtain ⟨line, hline, hread⟩ := h (by decide)
  have hnone : ∀ line ∈ (cmdApplyChannelMode demoServer demoOp demoChan "-k+o".toList
      ["x".toList, "bob".toList] true).line,
      (readModeLine (modeView demoServer.users.clients demoChan) line).isSome = false := by
    decide
  have hsome := hnone line hline
  rw [hread] at hsome
  exact absurd hsome (by simp)

end SekurIRCd
