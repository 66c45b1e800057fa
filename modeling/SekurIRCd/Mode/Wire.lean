/-
# Mode changes on the wire

`netsync_chan_mode` sends an announcement to the other servers, with the nicks of rank letters
replaced by UIDs, and `handle_mode` applies it there.  Both walk the letters with a table of
their own, and `handle_mode` has its own limits: it stops when its flags may pass 63 bytes one
letter earlier than the command does, and after eight parameters.

The statement of the two is `Change` again: on a server that held the same channel, a letter
that the command announced makes the same change (`remoteLetter_change`), so a line that is
read as it was written leaves the two servers with the same channel (`mode_replicates`).  What
can go wrong is the reading: a removed key takes another letter's parameter, a line over 899
bytes loses its end, a parameter is rewritten by `irc_build`, and a letter behind the sixtieth
byte of the flags is not looked at.
-/
import SekurIRCd.Mode.Change

namespace SekurIRCd

open CLib CLib.Signed

/-! ## 1. Sending

The sender goes through the flags with the table of arguments and replaces the nicks of rank
letters. The line may be too long for its buffer, and is sent as it is. -/

/-- A nick becomes a UID on the wire. -/
def wireArg (srv : Server) (c : Char) (a : Text) : Text :=
  if c ∈ "ohvqa".toList then
    match serverFindUser srv.users.clients a with
    | some t => if t.uid ≠ [] then t.uid else a
    | none => a
  else a

/-- `netsync_chan_mode`.  The line goes out as it is in the buffer, whole or not. -/
def netsyncChanMode (srv : Server) (chan : Channel) (setter : Client) (modes : Text)
    (args : List Text) : Text :=
  let ps := (walk takesArg true modes args).filterMap fun t => t.arg.map (wireArg srv t.letter)
  (ircBuild 900 [] (some (wireSource srv setter)) "MODE".toList
    (chan.name :: modes :: ps.take 12) none).text

/-- The line a mode command sends to the other servers, if it sends one. -/
def modeWire (srv : Server) (cl : Client) (chan : Channel) (ms : Text) (args : List Text)
    (full : Bool) : Option Text :=
  let r := cmdApplyChannelMode srv cl chan ms args full
  if r.outflags = [] then none
  else some (netsyncChanMode srv r.chan cl r.outflags (r.outparams.take 8))

/-! ## 2. Receiving

The receiver checks no rights. It asks only whether the source is somebody behind the link. -/

/-- One letter of `handle_mode`: the channel after it and, when it is passed on to the local
members, its parameter. -/
def remoteLetter (users : List Client) (chan : Channel) (sign : Bool) (c : Char)
    (arg : Option Text) : Channel × Option (Option Text) :=
  match channelFlagBit c with
  | some bit =>
    if sign then ({ chan with modes := insert bit chan.modes }, some none)
    else
      let chan := { chan with modes := chan.modes.erase bit }
      (if bit = .delayjoin then chan.revealAll else chan, some none)
  | none =>
    if c = 'k' then
      match sign, arg with
      | true, some a =>
        ({ chan with key := clip chanKeyLen a, modes := insert .k chan.modes }, some (some a))
      | _, _ => ({ chan with key := [], modes := chan.modes.erase .k }, some (some ['*']))
    else if c = 'l' then
      match sign, arg with
      | true, some a => ({ chan with limit := atoi a, modes := insert .l chan.modes }, some (some a))
      | _, _ => ({ chan with limit := 0, modes := chan.modes.erase .l }, some none)
    else if c = 'f' then
      match sign, arg with
      | true, some a => match channelSetFlood chan a with
        | some chan' => (chan', some (some a))
        | none => (chan, none)
      | true, none => (chan, none)
      | false, _ => (channelClearFlood chan, some none)
    else if c = 'j' then
      match sign, arg with
      | true, some a => match scanPair a with
        | some (n, secs) =>
          ({ chan with jtJoins := n, jtSecs := secs, modes := insert .jthrot chan.modes },
            some (some a))
        | none => (chan, none)
      | true, none => (chan, none)
      | false, _ =>
        ({ chan with modes := chan.modes.erase .jthrot, jtJoins := 0, jtSecs := 0 }, some none)
    else if c = 'L' then
      match sign, arg with
      | true, some a =>
        ({ chan with redirect := clip chanNameLen a, modes := insert .redirect chan.modes },
          some (some a))
      | _, _ => ({ chan with redirect := [], modes := chan.modes.erase .redirect }, some none)
    else match listKind c, rankBit c, arg with
      | some kind, _, some a =>
        match if sign then masklistAdd (chan.list kind) a else masklistDel (chan.list kind) a with
        | some l => (chan.setList kind l, some (some a))
        | none => (chan, none)
      | none, some bit, some a =>
        match (netsyncFindUid users a).filter fun t => (channelFindMember chan t.uid).isSome with
        | some t =>
          (chan.updateMember t.uid (Member.setRank sign bit), some (some (clip nickLen t.nick)))
        | none => (chan, none)
      | _, _, _ => (chan, none)

/-- The variables of the loop. It has those of `cmd_apply_channel_mode` but for the replies, since
nobody is told what a line from a server did not do. -/
structure ModeRecv where
  chan : Channel
  args : List Text
  sign : Bool
  cursign : Option Bool
  outflags : Text
  outparams : List Text
deriving DecidableEq

/-- A letter, with the argument it takes. -/
def recvLetter (users : List Client) (s : ModeRecv) (c : Char) : ModeRecv :=
  let arg := if takesArg s.sign c then s.args.head? else none
  let r := remoteLetter users s.chan s.sign c arg
  let s := { s with chan := r.1, args := if takesArg s.sign c then s.args.tail else s.args }
  match r.2 with
  | none => s
  | some p =>
    { s with
      outflags := s.outflags ++ (if s.cursign = some s.sign then [] else [signChar s.sign]) ++ [c]
      cursign := some s.sign
      outparams := s.outparams ++ (p.map (clip 260)).toList }

/-- One pass of the loop body. -/
def recvChar (users : List Client) (s : ModeRecv) (c : Char) : ModeRecv :=
  if c = '+' then { s with sign := true }
  else if c = '-' then { s with sign := false }
  else recvLetter users s c

/-- `handle_mode` has no room for another letter. Its limits are not those of the command, so a
line may be cut here that was not cut there. -/
def ModeRecv.full (s : ModeRecv) : Prop := 64 ≤ s.outflags.length + 3 ∨ 8 ≤ s.outparams.length

instance (s : ModeRecv) : Decidable s.full := inferInstanceAs (Decidable (_ ∨ _))

/-- The loop of `handle_mode`. -/
def recvLoop (users : List Client) : Text → ModeRecv → ModeRecv
  | [], s => s
  | c :: cs, s => if s.full then s else recvLoop users cs (recvChar users s c)

/-- What `handle_mode` does: the channel after it, the line for the local members and the line
for the servers behind the other links. -/
structure RecvOutcome where
  chan : Channel
  line : Option Text
  forward : Option Text
deriving DecidableEq

/-- The user or server a line comes from, under the name that members are shown. -/
def lineSource (srv : Server) (peer : Text) (pfx : Option Text) : Option Text :=
  match srcUser srv peer pfx with
  | some u => some (clientSource u)
  | none => (srcServer srv peer pfx).map NetServer.name

/-- `handle_mode`, for a line from the link to `peer` on the server's channel `chan`. A line whose
source is not behind the link is dropped. -/
def handleMode (srv : Server) (peer : Text) (chan : Channel) (msg : IrcMessage) : RecvOutcome :=
  match msg.params, lineSource srv peer msg.pfx with
  | target :: modes :: args, some source =>
    if target.head? ≠ some '#' then ⟨chan, none, none⟩
    else
      let forward :=
        some (ircBuild 900 [] msg.pfx "MODE".toList (msg.params.take 12) none).text
      if ircCasefold chanNameLen target = chan.casefoldName then
        let s := recvLoop srv.users.clients modes ⟨chan, args, true, none, [], []⟩
        ⟨s.chan, if s.outflags.length ≤ 1 then none else some (ircBuild 900 [] (some source)
          "MODE".toList (chan.name :: s.outflags :: s.outparams) none).text, forward⟩
      else ⟨chan, none, forward⟩
  | _, _ => ⟨chan, none, none⟩

/-- A MODE line arriving on the link to `peer`. -/
def receiveMode (srv : Server) (peer : Text) (chan : Channel) (line : Text) : Channel :=
  match ircParseLine line with
  | some msg => if msg.command = "MODE".toList then (handleMode srv peer chan msg).chan else chan
  | none => chan

/-! ## 3. The same channel on two servers

Two servers have the members of a channel in their own order, so the same channel is one with the
same settings and the same rank for every UID. -/

/-- **Two servers hold the same channel**: the same flags, parameters and lists, and the same ranks
under the same UIDs. The order of members is not compared. -/
structure Same (a b : Channel) : Prop where
  settings : a.toSettings = b.toSettings
  ranks : ∀ uid, a.rankOf uid = b.rankOf uid

theorem Same.refl (a : Channel) : Same a a := ⟨rfl, fun _ => rfl⟩

theorem Same.symm {a b : Channel} (h : Same a b) : Same b a :=
  ⟨h.settings.symm, fun uid => (h.ranks uid).symm⟩

theorem Same.trans {a b c : Channel} (h : Same a b) (h' : Same b c) : Same a c :=
  ⟨h.settings.trans h'.settings, fun uid => (h.ranks uid).trans (h'.ranks uid)⟩

theorem Same.modes {a b : Channel} (h : Same a b) : a.modes = b.modes :=
  congrArg Settings.modes h.settings

theorem Same.list {a b : Channel} (h : Same a b) (kind : ListKind) : a.list kind = b.list kind := by
  cases kind
  · exact congrArg Settings.bans h.settings
  · exact congrArg Settings.exceptions h.settings
  · exact congrArg Settings.invex h.settings

/-- What a change writes into the settings depends on the settings alone. -/
def Change.settings (s : Settings) : Change → Settings
  | .flag on b => { s with modes := if on then insert b s.modes else s.modes.erase b }
  | .key (some v) => { s with key := clip chanKeyLen v, modes := insert .k s.modes }
  | .key none => { s with key := [], modes := s.modes.erase .k }
  | .limit (some n) => { s with limit := n, modes := insert .l s.modes }
  | .limit none => { s with limit := 0, modes := s.modes.erase .l }
  | .redirect (some t) => { s with redirect := clip chanNameLen t, modes := insert .redirect s.modes }
  | .redirect none => { s with redirect := [], modes := s.modes.erase .redirect }
  | .flood (some f) => { s with flood := f, modes := insert .flood s.modes }
  | .flood none => { s with flood := Flood.clear, modes := s.modes.erase .flood }
  | .jthrot (some (n, secs)) =>
    { s with jtJoins := n, jtSecs := secs, modes := insert .jthrot s.modes }
  | .jthrot none => { s with jtJoins := 0, jtSecs := 0, modes := s.modes.erase .jthrot }
  | .mask true .ban m => { s with bans := s.bans ++ [clip 256 m] }
  | .mask true .exception m => { s with exceptions := s.exceptions ++ [clip 256 m] }
  | .mask true .invex m => { s with invex := s.invex ++ [clip 256 m] }
  | .mask false .ban m => { s with bans := s.bans.eraseP (caseEq · m) }
  | .mask false .exception m => { s with exceptions := s.exceptions.eraseP (caseEq · m) }
  | .mask false .invex m => { s with invex := s.invex.eraseP (caseEq · m) }
  | .rank .. => s

theorem apply_settings (chan : Channel) (ch : Change) :
    (ch.apply chan).toSettings = ch.settings chan.toSettings := by
  cases ch with
  | flag on b =>
    cases on with
    | true => rfl
    | false =>
      simp only [Change.apply]
      split <;> rfl
  | key v => cases v <;> rfl
  | limit v => cases v <;> rfl
  | redirect v => cases v <;> rfl
  | flood v => cases v <;> rfl
  | jthrot v => cases v <;> rfl
  | mask on kind m => cases on <;> cases kind <;> rfl
  | rank on b uid nick => rfl

/-- What a change does to the rank under a UID. -/
def Change.rankAt (uid : Text) (r : Option Rank) : Change → Option Rank
  | .rank on b u _ => if uid = u then r.map fun r => if on then r.grant b else r.revoke b else r
  | _ => r

theorem apply_rankOf (chan : Channel) (ch : Change) (uid : Text) :
    (ch.apply chan).rankOf uid = ch.rankAt uid (chan.rankOf uid) := by
  cases ch with
  | flag on b =>
    cases on with
    | true => rfl
    | false =>
      simp only [Change.apply]
      split
      · rw [rankOf_revealAll]; rfl
      · rfl
  | key v => cases v <;> rfl
  | limit v => cases v <;> rfl
  | redirect v => cases v <;> rfl
  | flood v => cases v <;> rfl
  | jthrot v => cases v <;> rfl
  | mask on kind m => cases on <;> cases kind <;> rfl
  | rank on b u nick =>
    refine rankOf_updateMember chan u uid fun m => ?_
    cases on <;> exact ⟨rfl, rfl⟩

/-- Making one change on both servers keeps them the same. -/
theorem Same.apply {a b : Channel} (h : Same a b) (ch : Change) : Same (ch.apply a) (ch.apply b) where
  settings := by rw [apply_settings, apply_settings, h.settings]
  ranks uid := by rw [apply_rankOf, apply_rankOf, h.ranks]

theorem Same.foldl {a b : Channel} (h : Same a b) (chs : List Change) :
    Same (chs.foldl Change.apply a) (chs.foldl Change.apply b) := by
  induction chs generalizing a b with
  | nil => exact h
  | cons ch chs ih => exact ih (h.apply ch)

/-- **What a change does where it arrives**: a mask that is there already, or is not there to be
removed, changes nothing. -/
def Change.recv (chan : Channel) : Change → Channel
  | .mask on kind m =>
    match if on then masklistAdd (chan.list kind) m else masklistDel (chan.list kind) m with
    | some l => chan.setList kind l
    | none => chan
  | ch => ch.apply chan

/-- On a channel that admits the change it is the change. -/
theorem recv_of_admitted {users : List Client} {chan chan' : Channel} {ch : Change}
    (ha : ch.Admitted users chan) (hs : Same chan chan') : ch.recv chan' = ch.apply chan' := by
  cases ch with
  | mask on kind m =>
    obtain ⟨-, hl⟩ := ha
    rw [Change.recv, ← hs.list]
    cases on with
    | true =>
      rw [if_pos rfl] at hl ⊢
      rw [hl, Change.apply, ← hs.list]
    | false =>
      rw [if_neg (by simp)] at hl ⊢
      rw [hl, Change.apply, ← hs.list]
  | _ => rfl

theorem foldl_recv_of_admitted {users : List Client} : ∀ {chs : List Change} {chan chan' : Channel},
    AllAdmitted users chan chs → Same chan chan' →
    chs.foldl Change.recv chan' = chs.foldl Change.apply chan'
  | [], _, _, _, _ => rfl
  | ch :: chs, chan, chan', ha, hs => by
    rw [List.foldl_cons, List.foldl_cons, recv_of_admitted ha.1 hs]
    exact foldl_recv_of_admitted ha.2 (hs.apply ch)

theorem updateMember_of_none {chan : Channel} {uid : Text} (h : channelFindMember chan uid = none)
    (f : Member → Member) : chan.updateMember uid f = chan := by
  have hmem : chan.members.map (fun m => if m.client = uid then f m else m) = chan.members := by
    refine (List.map_congr_left fun m hm => ?_).trans (List.map_id _)
    have hne := List.find?_eq_none.mp h m hm
    rw [if_neg (by simpa using hne), id]
  rw [Channel.updateMember, hmem]

/-! ## 4. One letter

A letter is read by the receiver's table. It is compared with the change that the letter was sent
for, on a channel that may differ from the sender's. -/

/-- A change as it travels: a member is named by UID. -/
def Change.wire : Change → Signed Text
  | .rank on b uid _ => ⟨on, rankLetter b, some uid⟩
  | ch => ch.signed

theorem Change.wire_isSome (ch : Change) : ch.wire.arg.isSome = ch.signed.arg.isSome := by
  cases ch <;> rfl

/-- A server that knows every user of the other under the same UID. -/
def KnowsUids (users users' : List Client) : Prop :=
  ∀ u ∈ users, u.uid ≠ [] → (netsyncFindUid users' u.uid).isSome = true

theorem remoteLetter_list (users : List Client) (chan : Channel) (sign : Bool) (kind : ListKind)
    (a : Text) : remoteLetter users chan sign kind.letter (some a) =
      match if sign then masklistAdd (chan.list kind) a else masklistDel (chan.list kind) a with
      | some l => (chan.setList kind l, some (some a))
      | none => (chan, none) := by
  cases kind <;> rfl

theorem remoteLetter_rank (users : List Client) (chan : Channel) (sign : Bool) (b : RankBit)
    (a : Text) : remoteLetter users chan sign (rankLetter b) (some a) =
      match (netsyncFindUid users a).filter fun t => (channelFindMember chan t.uid).isSome with
      | some t =>
        (chan.updateMember t.uid (Member.setRank sign b), some (some (clip nickLen t.nick)))
      | none => (chan, none) := by
  cases b <;> rfl

/-- **The letter makes the same change on the other server**, whatever it holds, and what is passed
on there has no parameter that was not sent. -/
theorem remoteLetter_change {users users' : List Client} {chan : Channel} {ch : Change}
    (ha : ch.Admitted users chan) (hk : KnowsUids users users') (chan' : Channel) :
    ∃ e, remoteLetter users' chan' ch.signed.add ch.signed.letter ch.wire.arg =
      (ch.recv chan', e) ∧
        ∀ p, e = some (some p) → ch.wire.arg.isSome = true ∨ IsUnkey ch.signed := by
  cases ch with
  | flag on b =>
    refine ⟨some none, ?_, by simp⟩
    simp only [remoteLetter, Change.signed, ha.1]
    cases on <;> rfl
  | key v =>
    cases v with
    | none => exact ⟨some (some ['*']), rfl, fun _ _ => Or.inr ⟨rfl, rfl⟩⟩
    | some v =>
      refine ⟨some (some (clip 256 v)), ?_, fun _ _ => Or.inl rfl⟩
      have hc : clip chanKeyLen (clip 256 v) = clip chanKeyLen v := clip_clip_of_le (by decide) v
      show ({ chan' with key := clip chanKeyLen (clip 256 v), modes := insert CMode.k chan'.modes },
        some (some (clip 256 v))) = _
      rw [hc]
      rfl
  | limit v =>
    cases v with
    | none => exact ⟨some none, rfl, by simp⟩
    | some n =>
      refine ⟨some (some (clip 256 (intDecimal n))), ?_, fun _ _ => Or.inl rfl⟩
      have hlen := intDecimal_length_le (z := n) (k := 10) (by decide) (by have := ha.1; omega)
        (by have := ha.2; simp only [intMax] at this; omega)
      have hc : atoi (clip 256 (intDecimal n)) = n := by
        rw [clip_of_fits (by omega)]
        exact atoi_intDecimal (by have := ha.1; omega) ha.2
      show ({ chan' with limit := atoi (clip 256 (intDecimal n)), modes := insert CMode.l chan'.modes },
        some (some (clip 256 (intDecimal n)))) = _
      rw [hc]
      rfl
  | redirect v =>
    cases v with
    | none => exact ⟨some none, rfl, by simp⟩
    | some t =>
      refine ⟨some (some (clip 256 t)), ?_, fun _ _ => Or.inl rfl⟩
      have hc : clip chanNameLen (clip 256 t) = clip chanNameLen t := clip_clip_of_le (by decide) t
      show ({ chan' with redirect := clip chanNameLen (clip 256 t)
                         modes := insert CMode.redirect chan'.modes },
        some (some (clip 256 t))) = _
      rw [hc]
      rfl
  | flood v =>
    cases v with
    | none => exact ⟨some none, rfl, by simp⟩
    | some f =>
      refine ⟨some (some (clip 256 (channelFloodParam f))), ?_, fun _ _ => Or.inl rfl⟩
      have hlen := Parsed.length_lt ha
      have hc : channelSetFlood chan' (clip 256 (channelFloodParam f)) =
          some { chan' with modes := insert .flood chan'.modes, flood := f } := by
        rw [clip_of_fits (by omega), channelSetFlood, Parsed.parse ha]
        rfl
      show (match channelSetFlood chan' (clip 256 (channelFloodParam f)) with
        | some c => (c, some (some (clip 256 (channelFloodParam f))))
        | none => (chan', none)) = _
      rw [hc]
      rfl
  | jthrot v =>
    cases v with
    | none => exact ⟨some none, rfl, by simp⟩
    | some r =>
      obtain ⟨n, secs⟩ := r
      refine ⟨some (some (clip 256 (intDecimal n ++ ':' :: intDecimal secs))), ?_,
        fun _ _ => Or.inl rfl⟩
      obtain ⟨h1, h2⟩ := ha
      simp only at h1 h2
      have hc : scanPair (clip 256 (intDecimal n ++ ':' :: intDecimal secs)) = some (n, secs) := by
        have hn := intDecimal_length_le (z := n) (k := 3) (by decide) (by omega) (by omega)
        have hsec := intDecimal_length_le (z := secs) (k := 3) (by decide) (by omega) (by omega)
        rw [clip_of_fits (by simp only [List.length_append, List.length_cons]; omega)]
        exact scanPair_print (by omega) (by simp only [intMax]; omega) (by omega)
          (by simp only [intMax]; omega)
      show (match scanPair (clip 256 (intDecimal n ++ ':' :: intDecimal secs)) with
        | some (n, secs) =>
          ({ chan' with jtJoins := n, jtSecs := secs, modes := insert CMode.jthrot chan'.modes },
            some (some _))
        | none => (chan', none)) = _
      rw [hc]
      rfl
  | mask on kind m =>
    obtain ⟨⟨a, -, rfl⟩, -⟩ := ha
    have hc : clip 256 (channelNormalizeMask a) = channelNormalizeMask a :=
      clip_of_fits (by have := channelNormalizeMask_length a; omega)
    have hr : remoteLetter users' chan' on kind.letter (some (clip 256 (channelNormalizeMask a))) =
        match if on then masklistAdd (chan'.list kind) (channelNormalizeMask a)
          else masklistDel (chan'.list kind) (channelNormalizeMask a) with
        | some l => (chan'.setList kind l, some (some (channelNormalizeMask a)))
        | none => (chan', none) := by
      rw [remoteLetter_list, hc]
    refine ⟨_, hr.trans (Prod.ext ?_ rfl), fun _ _ => Or.inl rfl⟩
    rw [Change.recv]
    cases (if on then masklistAdd (chan'.list kind) (channelNormalizeMask a)
      else masklistDel (chan'.list kind) (channelNormalizeMask a)) <;> rfl
  | rank on b uid nick =>
    obtain ⟨⟨u, hu, rfl, rfl⟩, m, hm, -⟩ := ha
    have hmc : m.client = u.uid := by simpa using List.find?_some hm
    obtain ⟨t, ht⟩ := Option.isSome_iff_exists.mp (hk u hu (hmc ▸ m.named))
    obtain ⟨-, huid, -⟩ := netsyncFindUid_some ht
    have hr : remoteLetter users' chan' on (rankLetter b) (some u.uid) = _ :=
      remoteLetter_rank users' chan' on b u.uid
    rw [ht] at hr
    by_cases hmem : (channelFindMember chan' u.uid).isSome = true
    · have hfind : (some t).filter (fun t => (channelFindMember chan' t.uid).isSome) = some t := by
        simp [Option.filter, huid, hmem]
      rw [hfind] at hr
      refine ⟨some (some (clip nickLen t.nick)), hr.trans ?_, fun _ _ => Or.inl rfl⟩
      simp only [huid]
      rfl
    · have hfind : (some t).filter (fun t => (channelFindMember chan' t.uid).isSome) = none := by
        simp [Option.filter, huid, hmem]
      rw [hfind] at hr
      refine ⟨none, hr.trans (Prod.ext ?_ rfl), by simp⟩
      have hn : channelFindMember chan' u.uid = none := by simpa using hmem
      exact (updateMember_of_none hn _).symm

/-! ## 5. The loop

By induction on the changes: what is left of the letters is what is left of the changes, and there
is room for all of them. -/

/-- How many parameters `handle_mode` may still pass on: one for each argument left, and one
for the removal of a key. -/
def room (chan : Channel) (args : List Text) : Nat :=
  if args = [] then (if .k ∈ chan.modes then 1 else 0) else args.length + 1

theorem argsOf_wire_length (chs : List Change) :
    (argsOf (chs.map Change.wire)).length = (argsOf (chs.map Change.signed)).length := by
  induction chs with
  | nil => rfl
  | cons ch chs ih =>
    have h := ch.wire_isSome
    rw [List.map_cons, List.map_cons, argsOf_cons, argsOf_cons, List.length_append,
      List.length_append, ih]
    cases hw : ch.wire.arg <;> cases hg : ch.signed.arg <;> simp_all

/-- Only `+k` sets a key. -/
theorem key_mem_of_apply {chan : Channel} {ch : Change} (h : ch.signed.arg = none)
    (hb : ∀ on, ch ≠ .flag on .k) (hk : .k ∈ (ch.apply chan).modes) : .k ∈ chan.modes := by
  rw [show (ch.apply chan).modes = (ch.settings chan.toSettings).modes by rw [← apply_settings]] at hk
  cases ch with
  | flag on b =>
    have hne : CMode.k ≠ b := fun e => hb on (e ▸ rfl)
    cases on with
    | true => exact Finset.mem_of_mem_insert_of_ne hk hne
    | false => exact Finset.mem_of_mem_erase hk
  | key v =>
    cases v with
    | none => exact Finset.mem_of_mem_erase hk
    | some v => exact absurd h (by simp [Change.signed])
  | limit v =>
    cases v with
    | none => exact Finset.mem_of_mem_erase hk
    | some v => exact absurd h (by simp [Change.signed])
  | redirect v =>
    cases v with
    | none => exact Finset.mem_of_mem_erase hk
    | some v => exact absurd h (by simp [Change.signed])
  | flood v =>
    cases v with
    | none => exact Finset.mem_of_mem_erase hk
    | some v => exact absurd h (by simp [Change.signed])
  | jthrot v =>
    cases v with
    | none => exact Finset.mem_of_mem_erase hk
    | some v => exact absurd h (by simp [Change.signed])
  | mask on kind m => exact absurd h (by simp [Change.signed])
  | rank on b uid nick => exact absurd h (by simp [Change.signed])

theorem Change.eq_of_isUnkey {users : List Client} {chan : Channel} {ch : Change}
    (ha : ch.Admitted users chan) (h : IsUnkey ch.signed) : ch = .key none := by
  obtain ⟨hl, hn⟩ := h
  cases ch with
  | flag on b =>
    have hb : channelFlagBit 'k' = some b := hl ▸ ha.1
    rw [show channelFlagBit 'k' = none by decide] at hb
    exact absurd hb (by simp)
  | key v =>
    cases v with
    | none => rfl
    | some v => exact absurd hn (by simp [Change.signed])
  | limit v => exact absurd hl (by simp [Change.signed])
  | redirect v => exact absurd hl (by simp [Change.signed])
  | flood v => exact absurd hl (by simp [Change.signed])
  | jthrot v => exact absurd hl (by simp [Change.signed])
  | mask on kind m => cases kind <;> exact absurd hl (by simp [Change.signed, ListKind.letter])
  | rank on b uid nick => cases b <;> exact absurd hl (by simp [Change.signed, rankLetter])

section Loop

variable {users users' : List Client} {chan : Channel}

/-- The letter takes the argument it was written with. -/
theorem recvLetter_change {s : ModeRecv} {ch : Change} {chs : List Change}
    (ha : ch.Admitted users chan) (hk : KnowsUids users users')
    (hal : Aligned takesArg ((ch :: chs).map Change.signed))
    (hargs : s.args = argsOf ((ch :: chs).map Change.wire)) (hsign : s.sign = ch.signed.add) :
    ∃ e : Option (Option Text), recvLetter users' s ch.signed.letter =
      { chan := ch.recv s.chan
        args := argsOf (chs.map Change.wire)
        sign := s.sign
        cursign := if e.isSome then some s.sign else s.cursign
        outflags := s.outflags ++ if e.isSome then encodeOne s.cursign ch.signed else []
        outparams := s.outparams ++ (e.join.map (clip 260)).toList } ∧
      (e.join.isSome = true → ch.wire.arg.isSome = true ∨ IsUnkey ch.signed) := by
  obtain ⟨h1, h2, -⟩ := hal
  rw [List.map_cons, argsOf_cons] at hargs
  have hlen := argsOf_wire_length chs
  have harg : (if takesArg s.sign ch.signed.letter then s.args.head? else none) = ch.wire.arg ∧
      (if takesArg s.sign ch.signed.letter then s.args.tail else s.args) =
        argsOf (chs.map Change.wire) := by
    rw [hsign, hargs]
    have hw := ch.wire_isSome
    cases hwa : ch.wire.arg with
    | some a =>
      rw [hwa] at hw
      rw [h1 hw.symm]
      exact ⟨rfl, rfl⟩
    | none =>
      rw [hwa] at hw
      by_cases ht : takesArg ch.signed.add ch.signed.letter = true
      · have hnil : argsOf (chs.map Change.wire) = [] := by
          rcases h2 ht with h | h
          · rw [← hw] at h
            exact absurd h (by simp)
          · rw [h] at hlen
            exact List.length_eq_zero_iff.mp hlen
        rw [hnil, if_pos ht, if_pos ht]
        exact ⟨rfl, rfl⟩
      · rw [if_neg ht, if_neg ht]
        exact ⟨rfl, rfl⟩
  obtain ⟨e, he, hep⟩ := remoteLetter_change ha hk s.chan
  refine ⟨e, ?_, fun hj => ?_⟩
  · simp only [recvLetter, harg.1, harg.2]
    rw [hsign] at *
    simp only [he]
    cases e with
    | none => simp
    | some p => simp [encodeOne]
  · obtain ⟨p, hp⟩ := Option.isSome_iff_exists.mp hj
    exact hep p (by simpa [Option.join_eq_some_iff] using hp)

theorem room_change {ch : Change} {chs : List Change} {p : Option Text}
    (ha : ch.Admitted users chan) (hal : Aligned takesArg ((ch :: chs).map Change.signed))
    (hp : p.isSome = true → ch.wire.arg.isSome = true ∨ IsUnkey ch.signed) :
    (p.map (clip 260)).toList.length + room (ch.apply chan) (argsOf (chs.map Change.wire)) ≤
      room chan (argsOf ((ch :: chs).map Change.wire)) := by
  have hple : (p.map (clip 260)).toList.length ≤ 1 := by cases p <;> simp
  rw [List.map_cons, argsOf_cons]
  cases hwa : ch.wire.arg with
  | some a =>
    simp only [room, Option.toList_some, List.cons_append, List.nil_append, reduceCtorEq,
      if_false, List.length_cons]
    split
    · split <;> omega
    · omega
  | none =>
    have hsa : ch.signed.arg = none := by
      have := ch.wire_isSome
      rw [hwa] at this
      exact Option.not_isSome_iff_eq_none.mp (by rw [← this]; simp)
    rw [Option.toList_none, List.nil_append]
    by_cases hu : IsUnkey ch.signed
    · have hch := Change.eq_of_isUnkey ha hu
      subst hch
      have hnil : argsOf (chs.map Change.wire) = [] := by
        rcases hal.2.1 (by decide) with h | h
        · exact absurd h (by simp [Change.signed])
        · have hlen := argsOf_wire_length chs
          rw [h] at hlen
          exact List.length_eq_zero_iff.mp hlen
      have hkey : .k ∈ chan.modes := ha
      have hgone : .k ∉ ((Change.key none).apply chan).modes := by simp [Change.apply]
      simp only [room, hnil, if_true, if_pos hkey, if_neg hgone]
      omega
    · have hpn : p = none := by
        cases p with
        | none => rfl
        | some v =>
          rcases hp rfl with h | h
          · rw [hwa] at h
            exact absurd h (by simp)
          · exact absurd h hu
      have hflag : ∀ on, ch ≠ .flag on .k := by
        rintro on rfl
        exact absurd ha.1 (by decide)
      simp only [hpn, Option.map_none, Option.toList_none, List.length_nil, Nat.zero_add, room]
      split
      · by_cases hm : .k ∈ (ch.apply chan).modes
        · rw [if_pos hm, if_pos (key_mem_of_apply hsa hflag hm)]
        · rw [if_neg hm]
          exact Nat.zero_le _
      · exact le_refl _

/-- The sign in front of a letter is read before the letter. -/
theorem recvLoop_encodeOne {s : ModeRecv} {cur : Option Bool} {t : Signed Text} (cs : Text)
    (hl : IsLetter t.letter) (hcur : ∀ b, cur = some b → b = s.sign) (hf : ¬ s.full) :
    recvLoop users' (encodeOne cur t ++ cs) s =
      recvLoop users' cs (recvLetter users' { s with sign := t.add } t.letter) := by
  have hletter : ∀ s : ModeRecv, recvChar users' s t.letter = recvLetter users' s t.letter := by
    intro s
    rw [recvChar, if_neg hl.1, if_neg hl.2]
  by_cases h : cur = some t.add
  · have hsign : { s with sign := t.add } = s := by rw [hcur _ h]
    rw [encodeOne, if_pos h, hsign, List.nil_append, List.singleton_append, recvLoop, if_neg hf,
      hletter]
  · have hf' : ¬ ({ s with sign := t.add } : ModeRecv).full := hf
    have hsc : recvChar users' s (signChar t.add) = { s with sign := t.add } := by
      cases t.add <;> rfl
    rw [encodeOne, if_neg h, List.singleton_append, List.cons_append, recvLoop, if_neg hf, hsc,
      List.singleton_append, recvLoop, if_neg hf', hletter]

/-- What is passed on is no longer than what was sent: a letter that is not passed on may save
a sign, and costs one at most. -/
theorem encodeOne_length_le (cur c : Option Bool) (t : Signed Text) :
    (encodeOne c t).length ≤ (encodeOne cur t).length + if c = cur then 0 else 1 := by
  simp only [encodeOne]
  by_cases h : c = cur
  · rw [if_pos h, h]
    exact le_refl _
  · rw [if_neg h]
    split <;> split <;> simp

/-- **A run makes the changes it was sent**, as long as it has room for the last letter. A removed
key takes an argument here, so none may follow it. -/
theorem recvLoop_changes (hk : KnowsUids users users') : ∀ (chs : List Change) {chan : Channel}
    {s : ModeRecv} {cur : Option Bool}, AllAdmitted users chan chs →
    Aligned takesArg (chs.map Change.signed) → s.args = argsOf (chs.map Change.wire) →
    (∀ b, cur = some b → b = s.sign) →
    (chs ≠ [] → s.outflags.length + (if s.cursign = cur then 0 else 1) +
      (encode cur (chs.map Change.signed).dropLast).length ≤ 60) →
    s.outparams.length + room chan s.args ≤ 7 →
    (recvLoop users' (encode cur (chs.map Change.signed)) s).chan = chs.foldl Change.recv s.chan
  | [], _, _, _, _, _, _, _, _, _ => rfl
  | ch :: chs, chan, s, cur, ha, hal, hargs, hcur, hearly, hroom => by
    have hstart := hearly (by simp)
    have hf : ¬ s.full := by
      simp only [ModeRecv.full, not_or]
      omega
    have hl : IsLetter ch.signed.letter := isLetter_of_mem ha.1.letter_mem
    obtain ⟨e, he, hej⟩ := recvLetter_change (s := { s with sign := ch.signed.add }) ha.1 hk hal
      hargs rfl
    have hbudget := room_change ha.1 hal hej
    rw [List.map_cons, encode, recvLoop_encodeOne _ hl hcur hf, List.foldl_cons, he]
    refine recvLoop_changes hk chs ha.2 hal.2.2 rfl (fun b hb => (Option.some.inj hb).symm)
      (fun hne => ?_) ?_
    · obtain ⟨x, xs, rfl⟩ := List.exists_cons_of_ne_nil hne
      rw [List.map_cons, List.map_cons, List.dropLast_cons_cons, encode, List.length_append] at hstart
      have hone := encodeOne_length_le cur s.cursign ch.signed
      have htwo : 1 ≤ (encodeOne cur ch.signed).length := by simp [encodeOne]
      simp only [List.length_append, List.map_cons]
      cases e with
      | none =>
        simp only [Option.isSome_none, Bool.false_eq_true, if_false, List.length_nil]
        split <;> omega
      | some p =>
        simp only [Option.isSome_some, if_true]
        omega
    · rw [hargs] at hroom
      simp only [List.length_append]
      omega

end Loop

/-! ## 6. The line

The line is built, parsed and received. What is needed of the other server is what a link keeps up:
it knows our users by the same UIDs. -/

/-- What the server at the other end of a link holds of this one: the users under their UIDs, and
the setter as somebody behind the link.  It may have users of its own, in the channel or not; no line
of theirs would be taken from there, and none is asked for. -/
structure PeerOf (srv peer : Server) (link : Text) (setter : Client) : Prop where
  sid : Source srv.sid
  knows : KnowsUids srv.users.clients peer.users.clients
  source : (lineSource peer link (some (wireSource srv setter))).isSome = true

/-- The parameters of the line. -/
def wireArgs (srv : Server) (ts : List (Signed Text)) : List Text :=
  ts.filterMap fun t => t.arg.map (wireArg srv t.letter)

/-- The arguments the letters of a change travel with. -/
theorem wire_arg_eq {srv : Server} {chan : Channel} {ch : Change}
    (ha : ch.Admitted srv.users.clients chan) :
    ch.wire.arg = ch.signed.arg.map (wireArg srv ch.signed.letter) := by
  have hrank : ∀ c, c ∉ "ohvqa".toList → ∀ o : Option Text, o = o.map (wireArg srv c) := by
    intro c hc o
    cases o with
    | none => rfl
    | some a => rw [Option.map_some, wireArg, if_neg hc]
  cases ch with
  | flag on b => rfl
  | key v => exact hrank 'k' (by decide) _
  | limit v => exact hrank 'l' (by decide) _
  | redirect v => exact hrank 'L' (by decide) _
  | flood v => exact hrank 'f' (by decide) _
  | jthrot v => exact hrank 'j' (by decide) _
  | mask on kind m =>
    have hall : ∀ k ∈ [ListKind.ban, .exception, .invex], k.letter ∉ "ohvqa".toList := by decide
    exact hrank _ (hall kind (by cases kind <;> simp)) _
  | rank on b uid nick =>
    obtain ⟨⟨u, hu, rfl, rfl⟩, m, hm, -⟩ := ha
    have hmc : m.client = u.uid := by simpa using List.find?_some hm
    have hall : ∀ b ∈ [RankBit.voice, .halfop, .op, .admin, .owner],
        rankLetter b ∈ "ohvqa".toList := by decide
    have hlen := valid_nick_length (srv.users.ok.nick_valid u hu)
    have hc : clip 256 u.nick = u.nick := clip_of_fits (by simp only [nickLen] at hlen; omega)
    rw [Change.wire, Change.signed, Option.map_some, wireArg,
      if_pos (hall b (by cases b <;> simp)), hc, srv.users.find_nick hu]
    simp only [if_pos (show u.uid ≠ [] from hmc ▸ m.named)]

theorem wireArgs_eq {srv : Server} : ∀ {chs : List Change} {chan : Channel},
    AllAdmitted srv.users.clients chan chs →
    wireArgs srv (chs.map Change.signed) = argsOf (chs.map Change.wire)
  | [], _, _ => rfl
  | ch :: chs, chan, ha => by
    have ih := wireArgs_eq ha.2
    rw [wireArgs] at ih ⊢
    rw [List.map_cons, List.map_cons, argsOf_cons, List.filterMap_cons, ih, wire_arg_eq ha.1]
    cases ch.signed.arg <;> rfl

/-- A parameter that travels as it is travels as it is under its UID, too. -/
theorem plain_wireArg (srv : Server) (c : Char) {a : Text} (h : Plain a) : Plain (wireArg srv c a) := by
  unfold wireArg
  split
  · split
    · rename_i t ht
      split
      · rename_i hne
        exact srv.users.ok.uid_plain t (serverFindUser_some ht).1 hne
      · exact h
    · exact h
  · exact h

section Line

variable (srv peer : Server) (link : Text) (cl : Client) (chan : Channel) (ms : Text)
  (args : List Text) (full : Bool)

/-- The line that tells the other servers what the request changes. -/
def announcedWire : Text :=
  ircLine (wireSource srv cl) "MODE".toList (chan.name ::
    encode none (announced srv cl chan ms args full) ::
    wireArgs srv (announced srv cl chan ms args full))

/-- **The request replicates**: a server at the other end of a link that held the same channel
under the same name holds the same channel again when it has received the line. -/
def Replicates : Prop :=
  ∀ chan', chan'.casefoldName = chan.casefoldName → Same chan chan' →
    Same (cmdApplyChannelMode srv cl chan ms args full).chan
      ((modeWire srv cl chan ms args full).elim chan' (receiveMode peer link chan'))

/-- **When it does.**  The line is within 899 bytes, no removed key is followed by a letter
with a parameter, the last letter begins within the first sixty bytes of the flags, and no
parameter is rewritten. -/
structure Replicable : Prop where
  fits : (announcedWire srv cl chan ms args full).length < 900
  aligned : Aligned takesArg (announced srv cl chan ms args full)
  early : (encode none (announced srv cl chan ms args full).dropLast).length ≤ 60
  plain : ∀ a ∈ argsOf (announced srv cl chan ms args full), Plain a

theorem modeWire_eq (hal : Aligned takesArg (announced srv cl chan ms args full))
    (hfits : (announcedWire srv cl chan ms args full).length < 900)
    (hne : announced srv cl chan ms args full ≠ []) :
    modeWire srv cl chan ms args full = some (announcedWire srv cl chan ms args full) := by
  have hletter : ∀ t ∈ announced srv cl chan ms args full, IsLetter t.letter :=
    fun t ht => isLetter_of_mem (announced_letter t ht)
  obtain ⟨hflags, hparams, -⟩ := cmdApplyChannelMode_out srv cl chan ms args full hne
  have hargs := announced_args_le srv cl chan ms args full
  have hflags_ne : encode none (announced srv cl chan ms args full) ≠ [] := by
    have h2 := two_le_encode_none hne
    exact fun h => absurd h2 (by rw [h]; decide)
  have htake8 : (argsOf (announced srv cl chan ms args full)).take 8 =
      argsOf (announced srv cl chan ms args full) :=
    List.take_of_length_le (by simp only [maxModeParams] at hargs; omega)
  have hwalk : walk takesArg true (encode none (announced srv cl chan ms args full))
      (argsOf (announced srv cl chan ms args full)) = announced srv cl chan ms args full :=
    (walk_encode_iff hletter (by simp)).mpr hal
  have hle : ∀ ts : List (Signed Text), (wireArgs srv ts).length = (argsOf ts).length := by
    intro ts
    induction ts with
    | nil => rfl
    | cons t ts ih =>
      rw [wireArgs] at ih ⊢
      rw [List.filterMap_cons, argsOf_cons]
      cases t.arg <;> simp [ih]
  have htake12 : (wireArgs srv (announced srv cl chan ms args full)).take 12 =
      wireArgs srv (announced srv cl chan ms args full) :=
    List.take_of_length_le (by rw [hle]; simp only [maxModeParams] at hargs; omega)
  simp only [modeWire, hflags, hparams, if_neg hflags_ne, netsyncChanMode, htake8, hwalk]
  rw [show ((announced srv cl chan ms args full).filterMap fun t => t.arg.map (wireArg srv t.letter)) =
    wireArgs srv (announced srv cl chan ms args full) from rfl, htake12, cmdApplyChannelMode_name,
    ircBuild_of_fits (by decide) hfits]
  rfl

theorem parse_announcedWire (hsid : Source srv.sid) (hcl : cl ∈ srv.users.clients)
    (hok : Replicable srv cl chan ms args full)
    (hne : announced srv cl chan ms args full ≠ []) :
    ircParseLine (announcedWire srv cl chan ms args full) =
      some { tags := [], pfx := some (wireSource srv cl), command := "MODE".toList
             params := chan.name :: encode none (announced srv cl chan ms args full) ::
               wireArgs srv (announced srv cl chan ms args full) } := by
  obtain ⟨chs, hsig, hadm, -⟩ := cmdApplyChannelMode_changes srv cl chan ms args full
  have hsrc : Source (wireSource srv cl) := by
    unfold wireSource
    split
    · rename_i h
      have hp := srv.users.ok.uid_plain cl hcl h
      exact ⟨hp.no_space, hp.no_cr, hp.no_lf, by have := hp.short; omega⟩
    · exact hsid
  have hargs := announced_args_le srv cl chan ms args full
  have hlen : (wireArgs srv (announced srv cl chan ms args full)).length ≤ 6 := by
    rw [← hsig, wireArgs_eq hadm, argsOf_wire_length, hsig]
    exact hargs
  have hplain : ∀ a ∈ wireArgs srv (announced srv cl chan ms args full), Plain a := by
    intro a ha
    obtain ⟨t, ht, hta⟩ := List.mem_filterMap.mp ha
    obtain ⟨b, hb, rfl⟩ := Option.map_eq_some_iff.mp hta
    exact plain_wireArg srv t.letter (hok.plain b (List.mem_filterMap.mpr ⟨t, ht, hb⟩))
  rw [announcedWire, ircParseLine_ircLine hsrc (by decide)
    (by simp only [List.length_cons, ircMaxParams]; omega), List.map_cons, List.map_cons,
    mid_of_plain (plain_name chan), mid_of_plain (plain_flags hne), map_mid_of_plain hplain]

/-- **What the line of a request does to any channel of that name**: its changes, one after the
other. -/
theorem receive_modeWire (hpeer : PeerOf srv peer link cl) (hcl : cl ∈ srv.users.clients)
    (hok : Replicable srv cl chan ms args full) {chs : List Change}
    (hsig : chs.map Change.signed = announced srv cl chan ms args full)
    (hadm : AllAdmitted srv.users.clients chan chs) {chan' : Channel}
    (hname : chan'.casefoldName = chan.casefoldName) :
    (modeWire srv cl chan ms args full).elim chan' (receiveMode peer link chan') =
      chs.foldl Change.recv chan' := by
  by_cases hne : announced srv cl chan ms args full = []
  · have hnil : chs = [] := by simpa [hne] using hsig
    have hw : modeWire srv cl chan ms args full = none := by
      simp only [modeWire, (cmdApplyChannelMode_silent srv cl chan ms args full hne).2, if_true]
    rw [hw, hnil]
    rfl
  · have hlen : (wireArgs srv (announced srv cl chan ms args full)).length ≤ 6 := by
      rw [← hsig, wireArgs_eq hadm, argsOf_wire_length, hsig]
      exact announced_args_le srv cl chan ms args full
    obtain ⟨source, hsource⟩ := Option.isSome_iff_exists.mp hpeer.source
    have hhash := valid_channel_head chan.nameValid
    have hfold' : ircCasefold chanNameLen chan.name = chan'.casefoldName := hname.symm
    have hloop : (recvLoop peer.users.clients (encode none (chs.map Change.signed))
        ⟨chan', wireArgs srv (announced srv cl chan ms args full), true, none, [], []⟩).chan =
        chs.foldl Change.recv chan' :=
      recvLoop_changes hpeer.knows chs hadm (hsig ▸ hok.aligned)
        (by rw [← wireArgs_eq hadm, hsig]) (by simp)
        (fun _ => by rw [hsig]; simpa using hok.early) (by
          simp only [room, List.length_nil]
          split
          · split <;> omega
          · omega)
    rw [modeWire_eq srv cl chan ms args full hok.aligned hok.fits hne, Option.elim_some,
      receiveMode, parse_announcedWire srv cl chan ms args full hpeer.sid hcl hok hne]
    simp only [handleMode, hsource, hhash, hfold', if_true, ne_eq, not_true, if_false]
    rw [hsig] at hloop
    exact hloop

/-- **A request replicates when no way to fail is taken.** The setter's server sends what it
announces, and the peer reads that line as a request of the setter and trusts it. Each way to fail
is a difference between the letters and arguments sent and those read. -/
theorem mode_replicates (hpeer : PeerOf srv peer link cl) (hcl : cl ∈ srv.users.clients)
    (hok : Replicable srv cl chan ms args full) :
    Replicates srv peer link cl chan ms args full := by
  intro chan' hname hsame
  obtain ⟨chs, hsig, hadm, hfold⟩ := cmdApplyChannelMode_changes srv cl chan ms args full
  rw [receive_modeWire srv peer link cl chan ms args full hpeer hcl hok hsig hadm hname,
    foldl_recv_of_admitted hadm hsame, ← hfold]
  exact hsame.foldl chs

end Line

/-- A user of the server at the other end of the link. -/
def demoFar : Client :=
  ⟨"dave".toList, "dave".toList, "da".toList, "host.d".toList, "2BB000001".toList,
    "2BB".toList, false, false, false, true⟩

/-- The server with him among its users. -/
def demoNear : Server where
  sid := "1AA".toList
  name := "irc.a".toList
  servers := [⟨"1AA".toList, "irc.a".toList, none⟩,
    ⟨"2BB".toList, "irc.b".toList, some "1AA".toList⟩]
  users := ⟨[demoOp, demoGuest, demoService, { demoFar with remote := true }], by decide⟩
  defaultModes := "nt".toList

/-- The server at the other end of the link. -/
def demoPeer : Server where
  sid := "2BB".toList
  name := "irc.b".toList
  servers := [⟨"2BB".toList, "irc.b".toList, none⟩,
    ⟨"1AA".toList, "irc.a".toList, some "2BB".toList⟩]
  users := ⟨[{ demoOp with remote := true }, { demoGuest with remote := true },
    { demoService with remote := true }, demoFar], by decide⟩
  defaultModes := "nt".toList

/-- A channel with users of both. -/
def demoJoint : Channel :=
  { demoChan with
    members := demoChan.members ++ [⟨"2BB000001".toList, by decide, Rank.none, false⟩] }

theorem demoPeer_peerOf : PeerOf demoNear demoPeer "1AA".toList demoOp where
  sid := by decide
  knows := by
    unfold KnowsUids
    decide
  source := by decide

/-- Alice mutes the channel and gives voice to a user of the other server, and so it is there. -/
theorem mode_replicates_mute : Replicates demoNear demoPeer "1AA".toList demoOp demoJoint
    "+mv".toList ["dave".toList] true := by
  have hts : announced demoNear demoOp demoJoint "+mv".toList ["dave".toList] true =
      [⟨true, 'm', none⟩, ⟨true, 'v', some "dave".toList⟩] := by decide
  refine mode_replicates demoNear demoPeer "1AA".toList demoOp demoJoint "+mv".toList
    ["dave".toList] true demoPeer_peerOf (by decide) ⟨by decide, ?_, by decide, ?_⟩
  · rw [hts]
    exact ⟨fun h => absurd h (by simp), fun h => absurd h (by decide), fun _ => by decide,
      fun _ => Or.inl (by decide), trivial⟩
  · rw [hts]
    decide

/-- Behind the removed key Bob's op is lost on the other server. -/
theorem unkey_loses_op : ¬ Replicates demoNear demoPeer "1AA".toList demoOp demoJoint
    "-k+o".toList ["x".toList, "bob".toList] true := by
  intro h
  have hrank := (h demoJoint rfl (Same.refl demoJoint)).ranks "1AA000002".toList
  exact absurd hrank (by decide)

end SekurIRCd
