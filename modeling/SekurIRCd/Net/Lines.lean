/-
# Lines about a channel mean what they say

Between two servers that know each other's users, an SJOIN is read as it was meant: what
`receive` makes of the sender's line is a function of the sender's channel and of the members
named in it (`recvSjoin`).  The two sides use different code for it: `channel_modes_string` and
a walk over the members write the line, `handle_sjoin` splits it at blanks, reads a time, a
channel name, the mode letters with their arguments and the members' tokens.  So the proof goes
through the parser once, here; behind this module no SJOIN is parsed again.

The last section holds what every other line with a source needs as well: such a line comes
through with its source, its command and its parameters, whether its last text was cut or not
(`parse_sent`).
-/
import SekurIRCd.Net.Channels

namespace SekurIRCd

open CLib

/-! ## 1. Names on the wire

What the checks and the counters of a server make its identifiers: letters and digits, and so many
of them. -/

/-- A UID: nine letters and digits. It is a word, too, and comes through every line as it is. -/
structure UidShape (uid : Text) : Prop where
  length : uid.length = uidLen
  alnum : ∀ c ∈ uid, isAlnum c = true

instance (uid : Text) : Decidable (UidShape uid) :=
  decidable_of_iff (uid.length = uidLen ∧ ∀ c ∈ uid, isAlnum c = true)
    ⟨fun ⟨h1, h2⟩ => ⟨h1, h2⟩, fun ⟨h1, h2⟩ => ⟨h1, h2⟩⟩

theorem UidShape.notMem {uid : Text} (h : UidShape uid) {c : Char} (hc : isAlnum c = false) :
    c ∉ uid := by
  intro hm
  rw [h.alnum c hm] at hc
  exact absurd hc (by simp)

theorem UidShape.ne_nil {uid : Text} (h : UidShape uid) : uid ≠ [] := by
  rintro rfl
  exact absurd h.length (by decide)

theorem UidShape.plain {uid : Text} (h : UidShape uid) : Plain uid := by
  have hlen := h.length
  refine ⟨h.ne_nil, ?_, h.notMem (by decide), h.notMem (by decide), h.notMem (by decide),
    by simp only [uidLen] at hlen; omega⟩
  rintro c hc rfl
  exact h.notMem (by decide) (List.mem_of_mem_head? hc)

theorem UidShape.source {uid : Text} (h : UidShape uid) : Source uid :=
  have hlen := h.plain.short
  ⟨h.plain.no_space, h.plain.no_cr, h.plain.no_lf, by omega⟩

/-- The SID of a server, three letters and digits. It is a word, so it can stand in any
parameter. -/
structure SidShape (sid : Text) : Prop where
  length : sid.length = sidLen
  alnum : ∀ c ∈ sid, isAlnum c = true

instance (sid : Text) : Decidable (SidShape sid) :=
  decidable_of_iff (sid.length = sidLen ∧ ∀ c ∈ sid, isAlnum c = true)
    ⟨fun ⟨h1, h2⟩ => ⟨h1, h2⟩, fun ⟨h1, h2⟩ => ⟨h1, h2⟩⟩

theorem SidShape.source {sid : Text} (h : SidShape sid) : Source sid := by
  have hlen := h.length
  have hno : ∀ c, isAlnum c = false → c ∉ sid := by
    intro c hc hm
    rw [h.alnum c hm] at hc
    exact absurd hc (by simp)
  exact ⟨hno ' ' (by decide), hno '\r' (by decide), hno '\n' (by decide),
    by simp only [sidLen] at hlen; omega⟩

/-- The other end of a link holds this user, as one behind the link. This is what makes the source
of a line, or a member that it names, acceptable there. -/
def SpeaksFor (srv : Server) (peer uid : Text) : Prop :=
  ∃ u, srcUser srv peer (some uid) = some u ∧ u.uid = uid

theorem speaksFor_of_isSome {srv : Server} {peer uid : Text}
    (h : (srcUser srv peer (some uid)).isSome = true) : SpeaksFor srv peer uid := by
  obtain ⟨u, hu⟩ := Option.isSome_iff_exists.mp h
  have hf := (Option.eq_some_of_filter_eq_some hu)
  exact ⟨u, hu, (netsyncFindUid_some hf).2.1⟩

/-- Such a user is found by UID, and is remote. -/
theorem SpeaksFor.find {srv : Server} {peer uid : Text} (h : SpeaksFor srv peer uid) :
    ∃ u, netsyncFindUid srv.users.clients uid = some u ∧ u.remote = true ∧ u.uid = uid := by
  obtain ⟨u, hu, huid⟩ := h
  obtain ⟨hf, hp⟩ := Option.filter_eq_some_iff.mp hu
  simp only [Bool.and_eq_true] at hp
  exact ⟨u, hf, hp.1, huid⟩

/-! ## 2. Members

A token is written highest rank first, and the reader takes status characters as long as there are
any. -/

theorem mem_foldl_grant {x : RankBit} : ∀ (bs : List RankBit) (r : Rank),
    x ∈ (bs.foldl Rank.grant r).bits ↔
      x ∈ r.bits ∨ x ∈ bs ∨ x = .op ∧ (.owner ∈ bs ∨ .admin ∈ bs)
  | [], r => by simp
  | b :: bs, r => by
    rw [List.foldl_cons, mem_foldl_grant bs (r.grant b)]
    have hg : x ∈ (r.grant b).bits ↔ x = b ∨ x ∈ r.bits ∨ x = .op ∧ (b = .owner ∨ b = .admin) := by
      simp only [Rank.grant]
      split
      · rename_i hb
        simp only [Finset.mem_insert, hb]
        tauto
      · rename_i hb
        simp only [Finset.mem_insert, hb]
        tauto
    rw [hg]
    simp only [List.mem_cons]
    constructor
    · rintro ((rfl | h | ⟨h, hb⟩) | h | ⟨h, hb⟩)
      · exact Or.inr (Or.inl (Or.inl rfl))
      · exact Or.inl h
      · exact Or.inr (Or.inr ⟨h, hb.imp (fun e => Or.inl e.symm) fun e => Or.inl e.symm⟩)
      · exact Or.inr (Or.inl (Or.inr h))
      · exact Or.inr (Or.inr ⟨h, hb.imp Or.inr Or.inr⟩)
    · rintro (h | (rfl | h) | ⟨h, hb⟩)
      · exact Or.inl (Or.inr (Or.inl h))
      · exact Or.inl (Or.inl rfl)
      · exact Or.inr (Or.inl h)
      · rcases hb with (hb | hb) | (hb | hb)
        · exact Or.inl (Or.inr (Or.inr ⟨h, Or.inl hb.symm⟩))
        · exact Or.inr (Or.inr ⟨h, Or.inl hb⟩)
        · exact Or.inl (Or.inr (Or.inr ⟨h, Or.inr hb.symm⟩))
        · exact Or.inr (Or.inr ⟨h, Or.inr hb⟩)

/-- The ranks with their status characters, highest first. -/
def rankMarks : List (RankBit × Char) :=
  [(.owner, '~'), (.admin, '&'), (.op, '@'), (.halfop, '%'), (.voice, '+')]

theorem rankFromMarks_marks : ∀ (ms : List (RankBit × Char)), (∀ x ∈ ms, x ∈ rankMarks) →
    ∀ (r : Rank) (s : Text), (∀ c ∈ s.head?, markRank c = none) →
    rankFromMarks r (ms.map Prod.snd ++ s) = ((ms.map Prod.fst).foldl Rank.grant r, s)
  | [], _, r, [], _ => rfl
  | [], _, r, c :: s, hs => by
    have hc := hs c (by simp)
    simp only [List.map_nil, List.nil_append, rankFromMarks, hc, List.foldl_nil]
  | x :: ms, h, r, s, hs => by
    have hall : ∀ x ∈ rankMarks, markRank x.2 = some x.1 := by decide
    have hx := hall x (h x (by simp))
    simp only [List.map_cons, List.cons_append, rankFromMarks, hx, List.foldl_cons]
    exact rankFromMarks_marks ms (fun y hy => h y (List.mem_cons_of_mem _ hy)) _ s hs

/-- **A member's token is read back as the member's rank and UID.** -/
theorem rankFromMarks_token {m : Member} (h : UidShape m.client) :
    rankFromMarks Rank.none (memberToken m) = (m.rank, m.client) := by
  have hlen := h.length
  have hmarks : (channelRankMarks m.rank).length ≤ 5 := by
    rw [channelRankMarks, List.length_map]
    exact List.length_filter_le _ _
  have hclip : memberToken m = channelRankMarks m.rank ++ m.client :=
    clip_of_fits (by rw [List.length_append]; simp only [uidLen] at hlen; omega)
  have hhead : ∀ c ∈ m.client.head?, markRank c = none := by
    intro c hc
    have hal := h.alnum c (List.mem_of_mem_head? hc)
    have hne : ∀ d, isAlnum d = false → c ≠ d := by
      rintro d hd rfl
      rw [hal] at hd
      exact absurd hd (by simp)
    simp only [markRank, if_neg (hne '~' (by decide)), if_neg (hne '&' (by decide)),
      if_neg (hne '@' (by decide)), if_neg (hne '%' (by decide)), if_neg (hne '+' (by decide))]
  rw [hclip, channelRankMarks]
  refine (rankFromMarks_marks _ (fun x hx => List.mem_of_mem_filter hx) Rank.none m.client
    hhead).trans (Prod.ext (Rank.ext ?_) rfl)
  ext x
  have hmem : ∀ b : RankBit, b ∈ (rankMarks.filter fun x => x.1 ∈ m.rank.bits).map Prod.fst ↔
      b ∈ m.rank.bits := by
    intro b
    have hall : ∀ b ∈ [RankBit.voice, .halfop, .op, .admin, .owner],
        b ∈ rankMarks.map Prod.fst := by decide
    obtain ⟨y, hy, rfl⟩ := List.mem_map.mp (hall b (by cases b <;> simp))
    simp only [List.mem_map, List.mem_filter, decide_eq_true_eq]
    constructor
    · rintro ⟨z, ⟨-, hz⟩, hzy⟩
      exact hzy ▸ hz
    · exact fun hb => ⟨y, ⟨hy, hb⟩, rfl⟩
  have hcl := m.rank.closed
  have hgoal : x ∈ (((rankMarks.filter fun x => x.1 ∈ m.rank.bits).map Prod.fst).foldl Rank.grant
      Rank.none).bits ↔ x ∈ m.rank.bits := by
    rw [mem_foldl_grant, hmem, hmem, hmem]
    constructor
    · rintro (h | h | ⟨rfl, h⟩)
      · exact absurd h (by simp [Rank.none])
      · exact h
      · exact hcl h
    · exact fun h => Or.inr (Or.inl h)
  exact hgoal

/-- A member as it arrives. -/
def arrive (keepRanks : Bool) (m : Member) : Member :=
  { m with rank := if keepRanks then m.rank else Rank.none, hidden := false }

/-- The members of an SJOIN, those who are there already left alone. -/
def addArrivals (keepRanks : Bool) (chan : Channel) (ms : List Member) : Channel :=
  ms.foldl (fun c m => channelAddMember c (arrive keepRanks m)) chan

/-- The member loop adds the members it was sent. -/
theorem sjoinMembers_tokens {srv : Server} {peer : Text} (keep : Bool) : ∀ (ms : List Member)
    (nj : Nat) (chan : Channel), (∀ m ∈ ms, UidShape m.client ∧ SpeaksFor srv peer m.client) →
    nj + ms.length ≤ 64 →
    sjoinMembers srv.users.clients keep (ms.map memberToken) nj chan = addArrivals keep chan ms
  | [], _, _, _, _ => rfl
  | m :: ms, nj, chan, h, hn => by
    obtain ⟨hshape, hspeaks⟩ := h m (by simp)
    obtain ⟨u, hu, hr, huid⟩ := hspeaks.find
    have hms : ∀ x ∈ ms, UidShape x.client ∧ SpeaksFor srv peer x.client :=
      fun x hx => h x (List.mem_cons_of_mem _ hx)
    rw [List.length_cons] at hn
    have htok := rankFromMarks_token hshape
    have hrank : (rankFromMarks Rank.none (memberToken m)).1 = m.rank := by rw [htok]
    have hfind : netsyncFindUid srv.users.clients (rankFromMarks Rank.none (memberToken m)).2 =
        some u := by rw [htok]; exact hu
    rw [List.map_cons, sjoinMembers, if_neg (by omega)]
    simp only
    split
    · rename_i hnone
      rw [hfind] at hnone
      exact absurd hnone (by simp)
    · rename_i v hv
      obtain rfl : v = u := Option.some.inj (hv.symm.trans hfind)
      rw [addArrivals, List.foldl_cons]
      by_cases hin : (channelFindMember chan v.uid).isSome = true
      · have hskip : channelAddMember chan (arrive keep m) = chan := by
          rw [channelAddMember, if_pos (by rw [show (arrive keep m).client = v.uid from huid.symm]; exact hin)]
        rw [if_pos (Or.inr hin), sjoinMembers_tokens keep ms nj chan hms (by omega), hskip]
        rfl
      · rw [if_neg (by simp [hr, hin]), sjoinMembers_tokens keep ms (nj + 1) _ hms (by omega)]
        simp only [hrank, huid]
        rfl

/-! ## 3. What the lines say

The line is built, parsed and handled. The times of the two channels decide between
three results. -/

/-- The modes of a channel without its lists. -/
def Channel.modesOnly (a : Channel) : Settings :=
  { a.toSettings with bans := [], exceptions := [], invex := [] }

/-- **An SJOIN for the channel `a` with the members `ms`.** The older channel wins; at the same age
the modes of both are merged. -/
def recvSjoin (a : Channel) (ms : List Member) : Option Channel → Channel
  | none =>
    addArrivals true { newChannel a.name a.nameValid a.created with toSettings := a.modesOnly } ms
  | some c =>
    if a.created < c.created then
      addArrivals true { resetChannelForTs c with toSettings := a.modesOnly, created := a.created } ms
    else if a.created = c.created then
      addArrivals true { c with toSettings := c.toSettings.withModes a.toSettings } ms
    else addArrivals false c ms

/-- What the checks on times and names keep true of a channel. -/
structure ChannelOk (a : Channel) : Prop where
  params : ParamsOk a.toSettings
  created : 0 < a.created ∧ a.created ≤ longMax

theorem atol_intDecimal {z : Int} (h0 : 0 ≤ z) (h : z ≤ longMax) : atol (intDecimal z) = z := by
  have hs := strtol_intDecimal (z := z) (r := []) (by omega) h (by simp)
  rw [List.append_nil] at hs
  rw [atol, hs]
  rfl

section Lines

variable {sender srv : Server} {a : Channel}

theorem sjoin_plain (h : ChannelOk a) : ∀ p ∈ intDecimal a.created :: a.name ::
    a.modeFlags :: a.modeArgs, Plain p := by
  intro p hp
  simp only [List.mem_cons] at hp
  rcases hp with rfl | rfl | rfl | hp
  · exact plain_intDecimal (by have := h.created.1; omega) h.created.2
  · exact plain_of_valid_channel a.nameValid
  · exact plain_modeFlags
  · exact h.params.fit.plain_args p hp

theorem modeArgs_length (a : Channel) : a.modeArgs.length ≤ 5 := by
  rw [Channel.modeArgs, List.length_map]
  exact List.length_filter_le _ _

theorem sjoin_length (h : ChannelOk a) (hs : SidShape sender.sid) :
    (ircLine sender.sid "SJOIN".toList (intDecimal a.created :: a.name :: a.modeFlags ::
      a.modeArgs)).length ≤ 350 := by
  have hts := intDecimal_length_le (z := a.created) (k := 19) (by decide)
    (by have := h.created.1; omega) (by have := h.created.2; simp only [longMax] at this; omega)
  have hname := valid_channel_length a.nameValid
  have hflags : a.modeFlags.length ≤ 29 := modeFlags_length
  have hargs := h.params.args_length
  have hsid := hs.length
  have hcmd : ircEscape 1024 "SJOIN".toList = "SJOIN".toList := by decide
  have hfm : (a.modeArgs.flatMap fun w => ' ' :: w) =
      (a.shownParams.filter Prod.fst).flatMap fun p => ' ' :: p.2.2 := by
    rw [Channel.modeArgs, List.flatMap_map]
  rw [ircLine, hs.source.escape, hcmd, map_mid_of_plain (sjoin_plain h), joinSep_eq_flatMap,
    List.flatMap_cons, List.flatMap_cons, List.flatMap_cons, hfm]
  simp only [List.length_append, List.length_cons, sidLen] at *
  have h5 : "SJOIN".toList.length = 5 := by decide
  omega

theorem memberToken_word {m : Member} (h : UidShape m.client) :
    (∀ c, isAlnum c = false → c ∉ ['~', '&', '@', '%', '+'] → c ∉ memberToken m) ∧
      9 ≤ (memberToken m).length := by
  have hlen := h.length
  have hmarks : (channelRankMarks m.rank).length ≤ 5 := by
    rw [channelRankMarks, List.length_map]
    exact List.length_filter_le _ _
  have hclip : memberToken m = channelRankMarks m.rank ++ m.client :=
    clip_of_fits (by rw [List.length_append]; simp only [uidLen] at hlen; omega)
  rw [hclip]
  constructor
  · intro c hc hmark hm
    rcases List.mem_append.mp hm with hm | hm
    · rw [channelRankMarks] at hm
      obtain ⟨x, hx, rfl⟩ := List.mem_map.mp hm
      have hall : ∀ x ∈ rankMarks, x.2 ∈ ['~', '&', '@', '%', '+'] := by decide
      exact hmark (hall x (List.mem_of_mem_filter hx))
    · exact h.notMem hc hm
  · rw [List.length_append]
    simp only [uidLen] at hlen
    omega

/-- **The SJOIN of a channel means what it says.** -/
theorem receive_sjoin {peer : Text} {outsz : Nat} {now : Int} (h : ChannelOk a) (hs : SidShape sender.sid)
    (hpeer : peer = sender.sid) (hknown : (netsyncFindSid srv peer).isSome = true)
    {ms : List Member} (hms : ∀ m ∈ ms, UidShape m.client ∧ SpeaksFor srv peer m.client)
    (hlen : (joinSep ' ' (ms.map memberToken)).length < 600)
    (hsz : (joinSep ' ' (ms.map memberToken)).length + 353 ≤ outsz) (view : Option Channel) :
    receive srv peer a.casefoldName now view
        (sjoinLine sender outsz a (joinSep ' ' (ms.map memberToken))) =
      some (recvSjoin a ms view) := by
  have hplain := sjoin_plain h
  have hline := sjoin_length h hs
  have hcmd : ircEscape 1024 "SJOIN".toList ≠ [] := by decide
  have hno : ∀ c, isAlnum c = false → c ∉ ['~', '&', '@', '%', '+'] →
      ∀ w ∈ ms.map memberToken, c ∉ w := by
    intro c hc hmark w hw
    obtain ⟨m, hm, rfl⟩ := List.mem_map.mp hw
    exact (memberToken_word (hms m hm).1).1 c hc hmark
  have hnine : ∀ w ∈ ms.map memberToken, 9 ≤ w.length := by
    intro w hw
    obtain ⟨m, hm, rfl⟩ := List.mem_map.mp hw
    exact (memberToken_word (hms m hm).1).2
  have hfew := length_le_joinSep hnine
  rw [List.length_map] at hfew
  have hnoT : ∀ c, isAlnum c = false → c ∉ [' ', '~', '&', '@', '%', '+'] →
      c ∉ joinSep ' ' (ms.map memberToken) := by
    intro c hc hmark hm
    rcases mem_joinSep hm with rfl | ⟨w, hw, hcw⟩
    · exact hmark (by simp)
    · exact hno c hc (fun h => hmark (List.mem_cons_of_mem _ h)) w hw hcw
  have hesc : ircEscape 1024 (joinSep ' ' (ms.map memberToken)) =
      joinSep ' ' (ms.map memberToken) :=
    ircEscape_eq_self (hnoT '\r' (by decide) (by decide)) (hnoT '\n' (by decide) (by decide))
      (by omega)
  have htoks : strtok ' ' (clip 640 (joinSep ' ' (ms.map memberToken))) = ms.map memberToken := by
    rw [clip_of_fits (by omega)]
    refine strtok_joinSep (fun w hw => ?_) (hno ' ' (by decide) (by decide))
    rintro rfl
    exact absurd (hnine [] hw) (by decide)
  have hargs := modeArgs_length a
  have htake : (a.modeFlags :: a.modeArgs).take 10 = a.modeFlags :: a.modeArgs :=
    List.take_of_length_le (by simp only [List.length_cons]; omega)
  have hbuild : sjoinLine sender outsz a (joinSep ' ' (ms.map memberToken)) =
      ircLineTrailing sender.sid "SJOIN".toList (intDecimal a.created :: a.name :: a.modeFlags ::
        a.modeArgs) (joinSep ' ' (ms.map memberToken)) := by
    rw [sjoinLine, strtok_channelModesString h.params.fit, htake, ircBuild_trailing_of_fits hcmd (by
      simp only [ircLineTrailing, List.length_append, List.length_cons, hesc]
      omega)]
  obtain ⟨from', hfrom⟩ : ∃ s, fromServer srv peer (some sender.sid) = some s := by
    rw [fromServer, if_pos (by rw [hpeer])]
    exact Option.isSome_iff_exists.mp (by simp [hknown])
  have hcreated : atol (intDecimal a.created) = a.created :=
    atol_intDecimal (by have := h.created.1; omega) h.created.2
  have hlast : (a.modeArgs ++ [joinSep ' ' (ms.map memberToken)]).getLast? =
      some (joinSep ' ' (ms.map memberToken)) := by simp
  have hinit : (a.modeArgs ++ [joinSep ' ' (ms.map memberToken)]).dropLast.take 10 = a.modeArgs := by
    rw [List.dropLast_concat]
    exact List.take_of_length_le (by omega)
  have hmem : ∀ keep chan, sjoinMembers srv.users.clients keep (ms.map memberToken) 0 chan =
      addArrivals keep chan ms := fun keep chan =>
    sjoinMembers_tokens keep ms 0 chan hms (by omega)
  rw [receive, hbuild, ircParseLine_ircLineTrailing hs.source (by decide)
    (by simp only [List.length_cons, ircMaxParams]; omega), hesc, map_mid_of_plain hplain]
  dsimp only
  rw [netsyncHandle, if_pos rfl]
  simp only [handleSjoin, hfrom, List.cons_append, hlast, hinit, htoks, hcreated, if_neg (show ¬ a.created ≤ 0 by have := h.created.1; omega), hmem]
  rw [dif_pos ⟨a.nameValid, rfl⟩]
  cases view with
  | none =>
    simp only [setStateModes, if_true, stateLoop_modes h.params.fit, recvSjoin,
      withModes_cleared h.params.fit]
    rfl
  | some c =>
    simp only [recvSjoin]
    split
    · simp only [setStateModes, if_true, stateLoop_modes h.params.fit, withModes_cleared h.params.fit]
      rfl
    · split
      · simp only [setStateModes, Bool.false_eq_true, if_false, stateLoop_modes h.params.fit]
      · rfl

/-- A line with a source, plain parameters and any trailing text, whether it was cut or not. -/
theorem parse_sent {outsz : Nat} {pfx command : Text} {params : List Text} (hs : Source pfx)
    (hc : Command command) (hp : ∀ p ∈ params, Plain p) (hn : params.length < ircMaxParams)
    (hlen : (ircLine pfx command params).length + 2 < outsz) (trailing : Option Text) :
    ∃ rest, ircParseLine (ircBuild outsz [] (some pfx) command params trailing).text =
      some { tags := [], pfx := some pfx, command := command, params := params ++ rest } := by
  have hne : ircEscape 1024 command ≠ [] := by rw [hc.escape]; exact hc.ne_nil
  cases trailing with
  | none =>
    refine ⟨[], ?_⟩
    rw [ircBuild_of_fits hne (by omega), ircParseLine_ircLine hs hc (by omega),
      map_mid_of_plain hp, List.append_nil]
  | some t =>
    obtain ⟨cut, hcut⟩ := ircBuild_trailing hne t hlen
    refine ⟨[ircEscape 1024 cut], ?_⟩
    rw [hcut, ircParseLine_ircLineTrailing hs hc hn, map_mid_of_plain hp]

theorem sent_length {pfx command : Text} {params : List Text} (hs : Source pfx)
    (hc : Command command) (hp : ∀ p ∈ params, Plain p) :
    (ircLine pfx command params).length =
      pfx.length + command.length + (params.flatMap fun p => ' ' :: p).length + 2 := by
  rw [ircLine, hs.escape, hc.escape, map_mid_of_plain hp, joinSep_eq_flatMap]
  simp only [List.length_append, List.length_cons]
  omega

end Lines

end SekurIRCd
