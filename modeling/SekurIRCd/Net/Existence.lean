/-
# Which channels exist

A channel is made by the first who joins it and goes with the last who leaves, unless it is `+P`.
Two paths forget the second half.  A MODE that takes `P` off a channel without members does not
look whether anyone is left, and an SJOIN makes its channel before it looks for members it can
add: when it knows none of them, the channel stays behind empty.

`channels_inhabited` says that every channel has a member or is `+P` throughout every run
that keeps clear of the two.
-/
import SekurIRCd.Net.Channels
import SekurIRCd.Lib.Runs
import SekurIRCd.Services.Reset

namespace SekurIRCd

open CLib CLib.Signed

/-! ## 1. Local steps

A channel is made when a name is looked up that none has. The steps return the view of one name, as
the handlers of lines do. -/

/-- What `server_get_or_create_channel` gives a new channel. -/
def defaultModeBits (srv : Server) : Finset CMode :=
  (srv.defaultModes.filterMap fun c =>
    if c ∈ "niptsmPCTSVQNz".toList then channelFlagBit c else none).toFinset

/-- `server_get_or_create_channel`. -/
def serverGetOrCreateChannel (srv : Server) (name : Text) (h : ircValidChannel name 50 = true)
    (now : Int) (view : Option Channel) : Channel :=
  view.getD { newChannel name h now with modes := defaultModeBits srv }

/-- A user who has registered, by UID. -/
abbrev Registered := {uid : Text // uid ≠ []}

/-- The member entry of one who joins; who makes the channel is op. -/
def joiner (cl : Registered) (isNew hidden : Bool) : Member where
  client := cl.1
  named := cl.2
  rank := if isNew then Rank.grant Rank.none .op else Rank.none
  hidden := hidden

theorem valid_of_key {name key : Text}
    (h : ircValidChannel name 50 = true ∧ ircCasefold chanNameLen name = key) :
    ircValidChannel name 50 = true := h.1

/-- `cmd_force_join`. -/
def cmdForceJoin (srv : Server) (key : Text) (now : Int) (cl : Registered) (name : Text)
    (view : Option Channel) : Option Channel :=
  if h : ircValidChannel name 50 = true ∧ ircCasefold chanNameLen name = key then
    let chan := serverGetOrCreateChannel srv name (valid_of_key h) now view
    some (channelAddMember chan (joiner cl view.isNone false))
  else view

/-- `channel_flood_event`; `tooMany` says that the event was one too many. -/
def channelFloodEvent (chan : Channel) (type : Char) (tooMany : Bool) : Channel :=
  match chan.flood.fp with
  | some f =>
    let i := fpTypes.idxOf type
    if f.limit.getD i 0 ≠ 0 ∧ tooMany = true then
      match channelFlagBit (f.action.getD i '\x00') with
      | some bit => { chan with modes := insert bit chan.modes }
      | none => chan
    else chan
  | none => chan

/-- `do_join_one`.  `admitted` is the verdict of its checks, which only read the channel; a
redirect is a join of its own. -/
def doJoinOne (srv : Server) (key : Text) (now : Int) (cl : Registered) (name : Text)
    (admitted tooMany : Bool) (view : Option Channel) : Option Channel :=
  if h : ircValidChannel name 50 = true ∧ ircCasefold chanNameLen name = key then
    if (view.any fun chan => (channelFindMember chan cl.1).isSome) || !admitted then view
    else
      let chan := serverGetOrCreateChannel srv name (valid_of_key h) now view
      let m := joiner cl view.isNone (decide (.delayjoin ∈ chan.modes) && view.isSome)
      let chan := channelAddMember chan m
      some (if view.isSome then channelFloodEvent chan 'j' tooMany else chan)
  else view

/-- The services' JOIN: the bot is op, whoever made the channel. -/
def svcJoin (srv : Server) (key : Text) (now : Int) (svc : Registered) (name : Text)
    (view : Option Channel) : Option Channel :=
  (cmdForceJoin srv key now svc name view).map fun chan =>
    if ircCasefold chanNameLen name = key then
      chan.updateMember svc.1 fun m => { m with rank := m.rank.grant .op }
    else chan

/-! ## 2. Runs -/

/-- What happens to the channels of a server.  The clients and servers it knows change as they
will. -/
inductive ChanEvent
  /-- A line from a server link. -/
  | line (srv : Server) (peer : Text) (now : Int) (msg : IrcMessage)
  /-- JOIN. -/
  | join (srv : Server) (now : Int) (cl : Registered) (name : Text) (admitted tooMany : Bool)
  /-- The auto-joins of a new user or oper, and SAJOIN. -/
  | forceJoin (srv : Server) (now : Int) (cl : Registered) (name : Text)
  /-- PART, KICK, SAPART, the kick of `+f`, and the services' PART and KICK. -/
  | leave (uid name : Text)
  /-- `server_remove_client`. -/
  | gone (uid : Text)
  /-- MODE, SAMODE and the services' MODE. -/
  | mode (srv : Server) (cl : Client) (name ms : Text) (args : List Text) (full : Bool)
  | svcJoin (srv : Server) (now : Int) (svc : Registered) (name : Text)
  | svcReset (srv : Server) (svc : Client) (name : Text)

/-- One event, on the channel called `key`. -/
def chanStep (key : Text) (view : Option Channel) : ChanEvent → Option Channel
  | .line srv peer now msg => netsyncHandle srv peer key now view msg
  | .join srv now cl name admitted tooMany => doJoinOne srv key now cl name admitted tooMany view
  | .forceJoin srv now cl name => cmdForceJoin srv key now cl name view
  | .leave uid name =>
    if ircCasefold chanNameLen name = key then view.bind fun chan => leaveChannel chan uid else view
  | .gone uid => view.bind fun chan => leaveChannel chan uid
  | .mode srv cl name ms args full =>
    if ircCasefold chanNameLen name = key then
      view.map fun chan => (cmdApplyChannelMode srv cl chan ms args full).chan
    else view
  | .svcJoin srv now svc name => svcJoin srv key now svc name view
  | .svcReset srv svc name =>
    if ircCasefold chanNameLen name = key then view.map fun chan => svcReset srv svc chan else view

/-- The channels, by casefolded name: `srv->channels`. -/
abbrev ChanTable := Text → Option Channel

def tableStep (t : ChanTable) (e : ChanEvent) : ChanTable := fun key => chanStep key (t key) e

/-- No channels. -/
def noChannels : ChanTable := fun _ => none

/-- Someone is there, or the channel is meant to stay. -/
def Channel.Inhabited (chan : Channel) : Prop := chan.members ≠ [] ∨ .perm ∈ chan.modes

/-- Every channel is: it has a member, or it is `+P` and may stay empty. -/
def AllInhabited (t : ChanTable) : Prop := ∀ key chan, t key = some chan → chan.Inhabited

/-! ## 3. The condition -/

/-- A mode string takes `P` away, read from the sign on. -/
def clearsPerm (add : Bool) : Text → Bool
  | [] => false
  | c :: cs =>
    if c = '+' then clearsPerm true cs
    else if c = '-' then clearsPerm false cs
    else (!add && decide (c = 'P')) || clearsPerm add cs

/-- A token of an SJOIN names a user that can be added. -/
def isAddable (users : List Client) (tok : Text) : Bool :=
  (netsyncFindUid users (rankFromMarks Rank.none tok).2).any Client.remote

/-- An SJOIN that names a channel which is not there, or one that is newer and without members,
knows one of its members, or has `P` among its modes. -/
def BringsMember (srv : Server) (key : Text) (view : Option Channel) (params : List Text) : Prop :=
  match params with
  | tsText :: name :: modes :: rest =>
    ircCasefold chanNameLen name = key →
      (∀ chan ∈ view, chan.members = [] ∧ 0 < atol tsText ∧ atol tsText < chan.created) →
      ∀ members ∈ rest.getLast?,
        (∃ tok ∈ strtok ' ' (clip 640 members), isAddable srv.users.clients tok = true) ∨
          .perm ∈ (stateLoop modes (rest.dropLast.take 10) Settings.none).modes
  | _ => True

/-- A MODE that takes `P` away finds a member in the channel. -/
def LeavesPerm (view : Option Channel) (params : List Text) : Prop :=
  match params with
  | name :: ms :: _ => ∀ chan ∈ view, ircCasefold chanNameLen name = chan.casefoldName →
      clearsPerm true ms = true → chan.members ≠ []
  | _ => True

/-- The condition on an event, for the channel called `key`. -/
def ChanEvent.Careful (key : Text) (view : Option Channel) : ChanEvent → Prop
  | .line srv _ _ msg =>
    (msg.command = "SJOIN".toList → BringsMember srv key view msg.params) ∧
      (msg.command = "MODE".toList → LeavesPerm view msg.params)
  | .mode _ _ name ms _ _ => ∀ chan ∈ view, ircCasefold chanNameLen name = key →
      clearsPerm true ms = true → chan.members ≠ []
  | _ => True

/-- **The condition on an event**: no MODE takes `P` off a channel without members, and no SJOIN
makes a channel, or takes one over, without bringing a member. -/
def Careful (t : ChanTable) (e : ChanEvent) : Prop := ∀ key, e.Careful key (t key)

/-! ## 4. Members come and go -/

theorem inhabited_of_drop {chan c : Channel} (h : serverMaybeDropChannel chan = some c) :
    c.Inhabited := by
  unfold serverMaybeDropChannel at h
  split at h
  · rename_i halive
    exact Option.some.inj h ▸ halive
  · exact absurd h (by simp)

theorem inhabited_of_leave {chan c : Channel} {uid : Text} (hc : chan.Inhabited)
    (h : leaveChannel chan uid = some c) : c.Inhabited := by
  unfold leaveChannel at h
  split at h
  · exact inhabited_of_drop h
  · exact Option.some.inj h ▸ hc

theorem inhabited_of_leave_view {view : Option Channel} {c : Channel} {uid : Text}
    (hv : ∀ chan ∈ view, chan.Inhabited)
    (h : (view.bind fun chan => leaveChannel chan uid) = some c) : c.Inhabited := by
  obtain ⟨chan, hchan, hleave⟩ := Option.bind_eq_some_iff.mp h
  exact inhabited_of_leave (hv chan hchan) hleave

/-- A channel with the modes and members of an inhabited one, or more. -/
theorem Channel.Inhabited.mono {chan c : Channel} (h : chan.Inhabited)
    (hmem : c.members = [] → chan.members = []) (hperm : .perm ∈ chan.modes → .perm ∈ c.modes) :
    c.Inhabited := by
  rcases h with h | h
  · exact Or.inl fun hnil => h (hmem hnil)
  · exact Or.inr (hperm h)

theorem updateMember_nil_iff (chan : Channel) (uid : Text) (f : Member → Member) :
    (chan.updateMember uid f).members = [] ↔ chan.members = [] := List.map_eq_nil_iff

/-! ## 5. Modes -/

theorem apply_members_nil_iff (chan : Channel) (ch : Change) :
    (ch.apply chan).members = [] ↔ chan.members = [] := by
  cases ch with
  | flag on b =>
    cases on with
    | true => rfl
    | false =>
      simp only [Change.apply]
      split
      · exact List.map_eq_nil_iff
      · rfl
  | key v => cases v <;> rfl
  | limit v => cases v <;> rfl
  | redirect v => cases v <;> rfl
  | flood v => cases v <;> rfl
  | jthrot v => cases v <;> rfl
  | mask on kind m => cases on <;> cases kind <;> rfl
  | rank on b uid nick => exact updateMember_nil_iff chan uid _

/-- Only `-P` takes `P` away. -/
theorem perm_mem_apply {chan : Channel} {ch : Change} (hp : .perm ∈ chan.modes)
    (hch : ch ≠ .flag false .perm) : .perm ∈ (ch.apply chan).modes := by
  cases ch with
  | flag on b =>
    cases on with
    | true => exact Finset.mem_insert_of_mem hp
    | false =>
      have hb : b ≠ .perm := fun e => hch (e ▸ rfl)
      simp only [Change.apply]
      split
      · exact Finset.mem_erase.mpr ⟨hb.symm, hp⟩
      · exact Finset.mem_erase.mpr ⟨hb.symm, hp⟩
  | key v =>
    cases v with
    | none => exact Finset.mem_erase.mpr ⟨by decide, hp⟩
    | some v => exact Finset.mem_insert_of_mem hp
  | limit v =>
    cases v with
    | none => exact Finset.mem_erase.mpr ⟨by decide, hp⟩
    | some v => exact Finset.mem_insert_of_mem hp
  | redirect v =>
    cases v with
    | none => exact Finset.mem_erase.mpr ⟨by decide, hp⟩
    | some v => exact Finset.mem_insert_of_mem hp
  | flood v =>
    cases v with
    | none => exact Finset.mem_erase.mpr ⟨by decide, hp⟩
    | some v => exact Finset.mem_insert_of_mem hp
  | jthrot v =>
    cases v with
    | none => exact Finset.mem_erase.mpr ⟨by decide, hp⟩
    | some v => exact Finset.mem_insert_of_mem hp
  | mask on kind m => cases on <;> cases kind <;> exact hp
  | rank on b uid nick => exact hp

/-- A `-P` that is announced is in the mode string. -/
theorem clearsPerm_of_announced (srv : Server) (cl : Client) (full : Bool) {p : Option Text} :
    ∀ (cs : Text) (s : ModeRun), ⟨false, 'P', p⟩ ∈ announcedFrom srv cl full cs s →
      clearsPerm s.sign cs = true
  | [], _, h => absurd h List.not_mem_nil
  | c :: cs, s, h => by
    rw [announcedFrom] at h
    split at h
    · exact absurd h List.not_mem_nil
    · have ih := clearsPerm_of_announced srv cl full (p := p) cs (modeChar srv cl full s c)
      rw [clearsPerm]
      by_cases hp : c = '+'
      · rw [if_pos (Or.inl hp)] at h
        rw [if_pos hp]
        simpa [modeChar, hp] using ih h
      · by_cases hm : c = '-'
        · rw [if_pos (Or.inr hm)] at h
          rw [if_neg hp, if_pos hm]
          simpa [modeChar, hm] using ih h
        · rw [if_neg (by simp [hp, hm])] at h
          rw [if_neg hp, if_neg hm, Bool.or_eq_true]
          have hl : IsLetter c := ⟨hp, hm⟩
          cases he : (applyLetter srv cl full s.chan s.sign c s.args).emit with
          | none =>
            rw [he] at h
            rw [modeChar_of_emit_none hl he] at ih h
            exact Or.inr (ih h)
          | some q =>
            rw [he] at h
            rw [modeChar_of_emit_some hl he] at ih h
            rcases List.mem_cons.mp h with e | h
            · have hsign : s.sign = false := (congrArg Signed.add e).symm
              have hletter : c = 'P' := (congrArg Signed.letter e).symm
              exact Or.inl (by simp [hsign, hletter])
            · exact Or.inr (ih h)

theorem members_foldl_apply : ∀ (chs : List Change) (chan : Channel),
    (chs.foldl Change.apply chan).members = [] ↔ chan.members = []
  | [], _ => Iff.rfl
  | ch :: chs, chan =>
    (members_foldl_apply chs (ch.apply chan)).trans (apply_members_nil_iff chan ch)

theorem perm_foldl_apply : ∀ (chs : List Change) (chan : Channel), .perm ∈ chan.modes →
    (∀ ch ∈ chs, ch ≠ .flag false .perm) → .perm ∈ (chs.foldl Change.apply chan).modes
  | [], _, hp, _ => hp
  | ch :: chs, chan, hp, hall =>
    perm_foldl_apply chs (ch.apply chan) (perm_mem_apply hp (hall ch List.mem_cons_self))
      fun c hc => hall c (List.mem_cons_of_mem _ hc)

/-- A mode command keeps a channel inhabited, if it does not take `P` off an empty one. -/
theorem inhabited_of_mode (srv : Server) (cl : Client) {chan : Channel} (ms : Text)
    (args : List Text) (full : Bool) (hc : chan.Inhabited)
    (hms : clearsPerm true ms = true → chan.members ≠ []) :
    (cmdApplyChannelMode srv cl chan ms args full).chan.Inhabited := by
  obtain ⟨chs, hsigned, -, hfold⟩ := cmdApplyChannelMode_changes srv cl chan ms args full
  rw [← hfold]
  by_cases hne : chan.members = []
  · -- then `P` is set, and stays
    have hperm : .perm ∈ chan.modes := hc.resolve_left (not_not_intro hne)
    refine Or.inr (perm_foldl_apply chs chan hperm fun ch hch he => ?_)
    have hmem : ch.signed ∈ announced srv cl chan ms args full :=
      hsigned ▸ List.mem_map_of_mem hch
    rw [he] at hmem
    exact hms (clearsPerm_of_announced srv cl full ms (ModeRun.start chan args) hmem) hne
  · exact Or.inl fun hnil => hne ((members_foldl_apply chs chan).mp hnil)

/-- The letters of SVCRESET take no `P`. -/
theorem clearsPerm_of_notMem : ∀ {cs : Text} (add : Bool), 'P' ∉ cs → clearsPerm add cs = false
  | [], _, _ => rfl
  | c :: cs, add, h => by
    have hc : c ≠ 'P' := fun e => h (e ▸ List.mem_cons_self)
    have hcs : 'P' ∉ cs := fun hm => h (List.mem_cons_of_mem _ hm)
    rw [clearsPerm]
    split
    · exact clearsPerm_of_notMem true hcs
    · split
      · exact clearsPerm_of_notMem false hcs
      · rw [clearsPerm_of_notMem add hcs]
        simp [hc]

theorem inhabited_of_mode_notMem (srv : Server) (cl : Client) {chan : Channel} {ms : Text}
    (args : List Text) (full : Bool) (hc : chan.Inhabited) (hms : 'P' ∉ ms) :
    (cmdApplyChannelMode srv cl chan ms args full).chan.Inhabited :=
  inhabited_of_mode srv cl ms args full hc fun h =>
    absurd h (by simp [clearsPerm_of_notMem true hms])

theorem inhabited_of_resetList (srv : Server) (svc : Client) (kind : ListKind) :
    ∀ (fuel : Nat) (masks : List Text) (chan : Channel), chan.Inhabited →
      (resetList srv svc kind fuel masks chan).Inhabited
  | 0, [], _, h => h
  | _ + 1, [], _, h => h
  | 0, _ :: _, _, h => h
  | fuel + 1, m :: ms, chan, h => by
    have hP : 'P' ∉ '-' :: List.replicate ((m :: ms).take 12).length kind.letter := by
      intro hmem
      rcases List.mem_cons.mp hmem with e | hmem
      · exact absurd e (by decide)
      · have hletter := List.eq_of_mem_replicate hmem
        cases kind <;> exact absurd hletter (by decide)
    exact inhabited_of_resetList srv svc kind fuel _ _
      (inhabited_of_mode_notMem srv svc _ true h hP)

theorem inhabited_of_svcReset (srv : Server) (svc : Client) {chan : Channel}
    (h : chan.Inhabited) : (svcReset srv svc chan).Inhabited := by
  have hmodes : (resetModes srv svc chan).Inhabited := by
    unfold resetModes
    simp only
    split
    · exact h
    · refine inhabited_of_mode_notMem srv svc _ true h fun hmem => ?_
      rcases List.mem_cons.mp hmem with e | hmem
      · exact absurd e (by decide)
      · rcases List.mem_append.mp hmem with hmem | hmem
        · exact absurd (List.mem_of_mem_filter hmem) (by decide)
        · have := mem_resetParams hmem
          simp_all
  simp only [svcReset, List.foldl_cons, List.foldl_nil]
  exact inhabited_of_resetList srv svc _ _ _ _ (inhabited_of_resetList srv svc _ _ _ _
    (inhabited_of_resetList srv svc _ _ _ _ hmodes))

/-! ## 6. Lines -/

/-- A letter of a remote MODE changes nothing or makes a change, which takes `P` only if it is
`-P`. -/
theorem remoteLetter_makes (users : List Client) (chan : Channel) (sign : Bool) (c : Char)
    (arg : Option Text) : (remoteLetter users chan sign c arg).1 = chan ∨
      ∃ ch : Change, (remoteLetter users chan sign c arg).1 = ch.apply chan ∧
        (ch = .flag false .perm → sign = false ∧ c = 'P') := by
  unfold remoteLetter
  split
  next bit hbit =>
    refine Or.inr ⟨.flag sign bit, ?_, fun he => ?_⟩
    · cases sign <;> rfl
    · obtain ⟨hs, rfl⟩ := Change.flag.inj he
      exact ⟨hs, (flagLetter_of_bit hbit).symm⟩
  next =>
    split
    · split
      next a => exact Or.inr ⟨.key (some a), rfl, fun he => absurd he (by simp)⟩
      next => exact Or.inr ⟨.key none, rfl, fun he => absurd he (by simp)⟩
    split
    · split
      next a => exact Or.inr ⟨.limit (some (atoi a)), rfl, fun he => absurd he (by simp)⟩
      next => exact Or.inr ⟨.limit none, rfl, fun he => absurd he (by simp)⟩
    split
    · split
      next a =>
        split
        next chan' hf =>
          obtain ⟨f, -, rfl⟩ := Option.map_eq_some_iff.mp hf
          exact Or.inr ⟨.flood (some f), rfl, fun he => absurd he (by simp)⟩
        next => exact Or.inl rfl
      next => exact Or.inl rfl
      next => exact Or.inr ⟨.flood none, rfl, fun he => absurd he (by simp)⟩
    split
    · split
      next a =>
        split
        next n secs _ => exact Or.inr ⟨.jthrot (some (n, secs)), rfl, fun he => absurd he (by simp)⟩
        next => exact Or.inl rfl
      next => exact Or.inl rfl
      next => exact Or.inr ⟨.jthrot none, rfl, fun he => absurd he (by simp)⟩
    split
    · split
      next a => exact Or.inr ⟨.redirect (some a), rfl, fun he => absurd he (by simp)⟩
      next => exact Or.inr ⟨.redirect none, rfl, fun he => absurd he (by simp)⟩
    split
    next kind a _ =>
      split
      next l hl =>
        cases sign with
        | true =>
          -- a mask is cut to its field when it is added
          have hl' := masklistAdd_eq (by simpa using hl)
          exact Or.inr ⟨.mask true kind a, by rw [hl']; rfl, fun he => absurd he (by simp)⟩
        | false =>
          have hl' := masklistDel_eq (by simpa using hl)
          exact Or.inr ⟨.mask false kind a, by rw [hl']; rfl, fun he => absurd he (by simp)⟩
      next => exact Or.inl rfl
    next bit a _ _ =>
      split
      next t _ => exact Or.inr ⟨.rank sign bit t.uid t.nick, rfl, fun he => absurd he (by simp)⟩
      next => exact Or.inl rfl
    next => exact Or.inl rfl

/-- What a letter makes of a channel that is inhabited. -/
theorem inhabited_of_recvLetter (users : List Client) {s : ModeRecv} {c : Char}
    (h : s.chan.Inhabited) (hms : s.sign = false → c = 'P' → s.chan.members ≠ []) :
    (recvLetter users s c).chan.Inhabited ∧
      ((recvLetter users s c).chan.members = [] ↔ s.chan.members = []) := by
  have hchan : ∀ arg, (remoteLetter users s.chan s.sign c arg).1.Inhabited ∧
      ((remoteLetter users s.chan s.sign c arg).1.members = [] ↔ s.chan.members = []) := by
    intro arg
    rcases remoteLetter_makes users s.chan s.sign c arg with he | ⟨ch, he, hch⟩
    · rw [he]
      exact ⟨h, Iff.rfl⟩
    · rw [he]
      have hmem := apply_members_nil_iff s.chan ch
      refine ⟨?_, hmem⟩
      by_cases hne : s.chan.members = []
      · refine Or.inr (perm_mem_apply (h.resolve_left (not_not_intro hne)) fun hflag => ?_)
        obtain ⟨hs, hc⟩ := hch hflag
        exact hms hs hc hne
      · exact Or.inl fun hnil => hne (hmem.mp hnil)
  unfold recvLetter
  simp only
  split
  · exact hchan _
  · exact hchan _

theorem inhabited_of_recvLoop (users : List Client) : ∀ (cs : Text) (s : ModeRecv),
    s.chan.Inhabited → (clearsPerm s.sign cs = true → s.chan.members ≠ []) →
    (recvLoop users cs s).chan.Inhabited
  | [], _, h, _ => h
  | c :: cs, s, h, hms => by
    rw [recvLoop]
    split
    · exact h
    · rw [clearsPerm] at hms
      by_cases hp : c = '+'
      · rw [if_pos hp] at hms
        rw [recvChar, if_pos hp]
        exact inhabited_of_recvLoop users cs _ h hms
      · by_cases hm : c = '-'
        · rw [if_neg hp, if_pos hm] at hms
          rw [recvChar, if_neg hp, if_pos hm]
          exact inhabited_of_recvLoop users cs _ h hms
        · rw [if_neg hp, if_neg hm, Bool.or_eq_true] at hms
          rw [recvChar, if_neg hp, if_neg hm]
          obtain ⟨hc, hmem⟩ := inhabited_of_recvLetter users (c := c) h
            fun hs hP => hms (Or.inl (by simp [hs, hP]))
          have hsign : (recvLetter users s c).sign = s.sign := by
            unfold recvLetter
            simp only
            split <;> rfl
          refine inhabited_of_recvLoop users cs _ hc fun hclears => ?_
          rw [hsign] at hclears
          exact fun hnil => hms (Or.inr hclears) (hmem.mp hnil)

/-- `handle_mode`. -/
theorem inhabited_of_handleMode (srv : Server) (peer : Text) {chan : Channel} {msg : IrcMessage}
    (h : chan.Inhabited) (hms : LeavesPerm (some chan) msg.params) :
    (handleMode srv peer chan msg).chan.Inhabited := by
  unfold handleMode
  split
  next target modes args source hparams _ =>
    rw [hparams] at hms
    split
    · exact h
    · simp only
      split
      next hname => exact inhabited_of_recvLoop _ modes _ h (hms chan rfl hname)
      next => exact h
  next => exact h

/-- Reading modes over what is there takes nothing away, and brings what it brings. -/
theorem stateParam_modes_mono {s t : Settings} (h : s.modes ⊆ t.modes) (c : Char) (a : Text) :
    s.modes ⊆ (stateParam s c a).modes ∧ (stateParam s c a).modes ⊆ (stateParam t c a).modes := by
  unfold stateParam
  split
  · exact ⟨Finset.subset_insert _ _, Finset.insert_subset_insert _ h⟩
  split
  · dsimp only
    split
    · exact ⟨Finset.subset_insert _ _, Finset.insert_subset_insert _ h⟩
    · exact ⟨subset_rfl, h⟩
  split
  · split
    · exact ⟨Finset.subset_insert _ _, Finset.insert_subset_insert _ h⟩
    · exact ⟨subset_rfl, h⟩
  split
  · split
    · exact ⟨Finset.subset_insert _ _, Finset.insert_subset_insert _ h⟩
    · exact ⟨subset_rfl, h⟩
  split
  · exact ⟨Finset.subset_insert _ _, Finset.insert_subset_insert _ h⟩
  · exact ⟨subset_rfl, h⟩

theorem stateLoop_modes_mono : ∀ (cs : Text) (args : List Text) {s t : Settings},
    s.modes ⊆ t.modes → s.modes ⊆ (stateLoop cs args s).modes ∧
      (stateLoop cs args s).modes ⊆ (stateLoop cs args t).modes
  | [], _, s, t, h => ⟨subset_rfl, h⟩
  | c :: cs, args, s, t, h => by
    by_cases hsign : c = '+' ∨ c = '-'
    · rw [stateLoop_sign hsign, stateLoop_sign hsign]
      exact stateLoop_modes_mono cs args h
    · have hl : c ≠ '+' ∧ c ≠ '-' := not_or.mp hsign
      cases hb : channelFlagBit c with
      | some bit =>
        rw [stateLoop_flag hl hb, stateLoop_flag hl hb]
        obtain ⟨h1, h2⟩ := stateLoop_modes_mono cs args
          (s := { s with modes := insert bit s.modes }) (t := { t with modes := insert bit t.modes })
          (Finset.insert_subset_insert bit h)
        exact ⟨(Finset.subset_insert bit s.modes).trans h1, h2⟩
      | none =>
        cases args with
        | nil =>
          rw [stateLoop.eq_def, stateLoop.eq_def (c :: cs)]
          simp only [if_neg hsign, hb]
          exact ⟨subset_rfl, h⟩
        | cons a args =>
          rw [stateLoop_param hl hb, stateLoop_param hl hb]
          obtain ⟨h1, h2⟩ := stateParam_modes_mono h c a
          obtain ⟨h3, h4⟩ := stateLoop_modes_mono cs args h2
          exact ⟨h1.trans h3, h4⟩

/-- The member loop takes no member away and leaves the modes. -/
theorem sjoinMembers_keeps (users : List Client) (keep : Bool) : ∀ (toks : List Text) (nj : Nat)
    (chan : Channel), (sjoinMembers users keep toks nj chan).modes = chan.modes ∧
      ((sjoinMembers users keep toks nj chan).members = [] → chan.members = [])
  | [], _, _ => ⟨rfl, id⟩
  | tok :: toks, nj, chan => by
    rw [sjoinMembers]
    split
    · exact ⟨rfl, id⟩
    · simp only
      split
      · exact sjoinMembers_keeps users keep toks nj chan
      · split
        · exact sjoinMembers_keeps users keep toks nj chan
        · obtain ⟨h1, h2⟩ := sjoinMembers_keeps users keep toks (nj + 1) (channelAddMember chan _)
          refine ⟨h1.trans (congrArg Settings.modes (channelAddMember_frame chan _).1), fun hnil => ?_⟩
          exact absurd (h2 hnil) (channelAddMember_ne_nil chan _)

/-- A token of a user that can be added brings the channel a member. -/
theorem sjoinMembers_ne_nil (users : List Client) (keep : Bool) : ∀ (toks : List Text)
    (chan : Channel), (∃ tok ∈ toks, isAddable users tok = true) →
      (sjoinMembers users keep toks 0 chan).members ≠ []
  | [], _, h => absurd h (by simp)
  | tok :: toks, chan, h => by
    rw [sjoinMembers, if_neg (by decide)]
    have hrest : isAddable users tok = false → ∃ t ∈ toks, isAddable users t = true := by
      intro hno
      obtain ⟨t, ht, hadd⟩ := h
      rcases List.mem_cons.mp ht with rfl | ht
      · exact absurd (hno.symm.trans hadd) (by decide)
      · exact ⟨t, ht, hadd⟩
    simp only
    split
    next hfind =>
      exact sjoinMembers_ne_nil users keep toks chan (hrest (by simp [isAddable, hfind]))
    next u hfind =>
      split
      next hno =>
        by_cases hremote : u.remote = true
        · -- it is there already
          have hin := hno.resolve_left (by simp [hremote])
          intro hnil
          have hnone := (sjoinMembers_keeps users keep toks 0 chan).2 hnil
          rw [channelFindMember, hnone] at hin
          exact absurd hin (by simp)
        · exact sjoinMembers_ne_nil users keep toks chan (hrest (by simp [isAddable, hfind, hremote]))
      next =>
        intro hnil
        exact absurd ((sjoinMembers_keeps users keep toks _ _).2 hnil) (channelAddMember_ne_nil chan _)

/-- A channel as it is before the member loop of an SJOIN. -/
theorem inhabited_of_sjoinMembers {users : List Client} {keep : Bool} {toks : List Text}
    {chan : Channel} (h : chan.Inhabited ∨ ∃ tok ∈ toks, isAddable users tok = true) :
    (sjoinMembers users keep toks 0 chan).Inhabited := by
  rcases h with h | h
  · obtain ⟨hmodes, hmem⟩ := sjoinMembers_keeps users keep toks 0 chan
    exact h.mono hmem fun hp => hmodes ▸ hp
  · exact Or.inl (sjoinMembers_ne_nil users keep toks chan h)

/-- `handle_sjoin`. -/
theorem inhabited_of_handleSjoin {srv : Server} {peer key : Text} {now : Int}
    {view : Option Channel} {msg : IrcMessage} (hv : ∀ chan ∈ view, chan.Inhabited)
    (hms : BringsMember srv key view msg.params) :
    ∀ c ∈ handleSjoin srv peer key now view msg, c.Inhabited := by
  intro c hc
  unfold handleSjoin at hc
  split at hc
  next tsText name modes rest _ hparams =>
    rw [hparams] at hms
    split at hc
    next => exact hv c hc
    next members hmembers =>
      split at hc
      next hname =>
        simp only at hc
        generalize hts : (if atol tsText ≤ 0 then view.elim now Channel.created
          else atol tsText) = ts at hc
        -- `P` among the modes of the line is `P` on a channel whose modes are replaced
        have hreplaced : ∀ chan : Channel,
            .perm ∈ (stateLoop modes (rest.dropLast.take 10) Settings.none).modes →
            (setStateModes chan modes (rest.dropLast.take 10) true).Inhabited := fun chan hp =>
          Or.inr ((stateLoop_modes_mono modes _ (s := Settings.none)
            (t := chan.toSettings.cleared) subset_rfl).2 hp)
        split at hc
        next =>
          obtain rfl := Option.some.inj hc
          refine inhabited_of_sjoinMembers ?_
          rcases hms hname.2 (by simp) members hmembers with h | h
          · exact Or.inr h
          · exact Or.inl (hreplaced _ h)
        next chan =>
          have hchan := hv chan rfl
          split at hc
          next hold =>
            obtain rfl := Option.some.inj hc
            refine inhabited_of_sjoinMembers ?_
            by_cases hne : chan.members = []
            · have hpos : 0 < atol tsText := by
                by_contra hneg
                rw [if_pos (not_lt.mp hneg), Option.elim_some] at hts
                exact absurd (hts ▸ hold) (lt_irrefl _)
              rw [if_neg (not_le.mpr hpos)] at hts
              have hyoung : ∀ c ∈ some chan,
                  c.members = [] ∧ 0 < atol tsText ∧ atol tsText < c.created := by
                intro c hc
                obtain rfl := Option.some.inj hc
                exact ⟨hne, hpos, hts ▸ hold⟩
              rcases hms hname.2 hyoung members hmembers with h | h
              · exact Or.inr h
              · exact Or.inl ((hreplaced (resetChannelForTs chan) h).mono (fun hnil => hnil) fun hp => hp)
            · exact Or.inl (Or.inl fun hnil => hne (List.map_eq_nil_iff.mp hnil))
          next =>
            split at hc
            next =>
              obtain rfl := Option.some.inj hc
              refine inhabited_of_sjoinMembers (Or.inl (hchan.mono id fun hp => ?_))
              exact (stateLoop_modes_mono modes _ (s := chan.toSettings) subset_rfl).1 hp
            next =>
              obtain rfl := Option.some.inj hc
              exact inhabited_of_sjoinMembers (Or.inl hchan)
      next => exact hv c hc
  next => exact hv c hc

/-- `handle_bmask` writes lists only. -/
theorem inhabited_of_handleBmask {srv : Server} {peer key : Text} {view : Option Channel}
    {msg : IrcMessage} (hv : ∀ chan ∈ view, chan.Inhabited) :
    ∀ c ∈ handleBmask srv peer key view msg, c.Inhabited := by
  intro c hc
  unfold handleBmask at hc
  split at hc
  · split at hc
    · split at hc
      next kind _ =>
        obtain rfl := Option.some.inj hc
        -- mask by mask
        refine List.foldlRecOn _ _ (hv _ rfl) fun chan h m _ => ?_
        split
        · cases kind <;> exact h
        · exact h
      next => exact hv c hc
    · exact hv c hc
  · exact hv c hc

/-- `handle_tb` and `handle_topic` write the topic only. -/
theorem inhabited_of_handleTb {srv : Server} {peer key : Text} {view : Option Channel}
    {msg : IrcMessage} (hv : ∀ chan ∈ view, chan.Inhabited) :
    ∀ c ∈ handleTb srv peer key view msg, c.Inhabited := by
  intro c hc
  unfold handleTb at hc
  split at hc
  · simp only at hc
    split at hc
    · obtain rfl := Option.some.inj hc
      exact (hv _ rfl).mono (fun hnil => hnil) fun hp => hp
    · exact hv c hc
  · exact hv c hc

theorem inhabited_of_handleTopic {srv : Server} {peer key : Text} {now : Int}
    {view : Option Channel} {msg : IrcMessage} (hv : ∀ chan ∈ view, chan.Inhabited) :
    ∀ c ∈ handleTopic srv peer key now view msg, c.Inhabited := by
  intro c hc
  unfold handleTopic at hc
  split at hc
  · split at hc
    · exact hv c hc
    · split at hc
      · obtain rfl := Option.some.inj hc
        exact (hv _ rfl).mono (fun hnil => hnil) fun hp => hp
      · exact hv c hc
  · exact hv c hc

/-- `handle_join`: who joins has a UID, and is there then. -/
theorem inhabited_of_handleJoin {srv : Server} {peer key : Text} {now : Int}
    {view : Option Channel} {msg : IrcMessage} (hv : ∀ chan ∈ view, chan.Inhabited) :
    ∀ c ∈ handleJoin srv peer key now view msg, c.Inhabited := by
  intro c hc
  unfold handleJoin at hc
  split at hc
  next u tsText name _ hsrc _ =>
    have huid : u.uid ≠ [] := by
      obtain ⟨hbind, -⟩ := Option.filter_eq_some_iff.mp hsrc
      obtain ⟨uid, -, hfind⟩ := Option.bind_eq_some_iff.mp hbind
      obtain ⟨-, hid, hne⟩ := netsyncFindUid_some hfind
      exact hid ▸ hne
    split at hc
    next hname =>
      simp only at hc
      by_cases hin : u.uid = [] ∨ (channelFindMember (view.getD (newChannel name hname.1
          (if 0 < atol tsText then atol tsText else now))) u.uid).isSome
      · rw [dif_pos hin] at hc
        obtain rfl := Option.some.inj hc
        have hmem := hin.resolve_left huid
        refine Or.inl fun hnil => ?_
        rw [channelFindMember, hnil] at hmem
        exact absurd hmem (by simp)
      · rw [dif_neg hin] at hc
        obtain rfl := Option.some.inj hc
        exact Or.inl (channelAddMember_ne_nil _ _)
    next => exact hv c hc
  next => exact hv c hc

/-- `handle_part`, `handle_kick` and `handle_quit`. -/
theorem inhabited_of_handlePart {srv : Server} {peer key : Text} {view : Option Channel}
    {msg : IrcMessage} (hv : ∀ chan ∈ view, chan.Inhabited) :
    ∀ c ∈ handlePart srv peer key view msg, c.Inhabited := by
  intro c hc
  unfold handlePart at hc
  split at hc
  · split at hc
    · exact inhabited_of_leave_view hv hc
    · exact hv c hc
  · exact hv c hc

theorem inhabited_of_handleKick {srv : Server} {peer key : Text} {view : Option Channel}
    {msg : IrcMessage} (hv : ∀ chan ∈ view, chan.Inhabited) :
    ∀ c ∈ handleKick srv peer key view msg, c.Inhabited := by
  intro c hc
  unfold handleKick at hc
  split at hc
  · split at hc
    · split at hc
      · split at hc
        · exact inhabited_of_leave_view hv hc
        · exact hv c hc
      · exact hv c hc
    · exact hv c hc
  · exact hv c hc

theorem inhabited_of_handleQuit {srv : Server} {peer : Text} {view : Option Channel}
    {msg : IrcMessage} (hv : ∀ chan ∈ view, chan.Inhabited) :
    ∀ c ∈ handleQuit srv peer view msg, c.Inhabited := by
  intro c hc
  unfold handleQuit at hc
  split at hc
  · exact inhabited_of_leave_view hv hc
  · exact hv c hc

theorem inhabited_of_ite {p : Prop} [Decidable p] {v w : Option Channel}
    (hpos : p → ∀ c ∈ v, c.Inhabited) (hneg : ¬ p → ∀ c ∈ w, c.Inhabited) :
    ∀ c ∈ if p then v else w, c.Inhabited :=
  iteInduction (motive := fun v : Option Channel => ∀ c ∈ v, c.Inhabited) hpos hneg

/-- **A line from a server link** keeps a channel inhabited, under the condition. -/
theorem inhabited_of_line {srv : Server} {peer key : Text} {now : Int} {view : Option Channel}
    {msg : IrcMessage} (hv : ∀ chan ∈ view, chan.Inhabited)
    (hms : (ChanEvent.line srv peer now msg).Careful key view) :
    ∀ c ∈ netsyncHandle srv peer key now view msg, c.Inhabited := by
  -- one case for each command, in the order they are compared
  have hmode : msg.command = "MODE".toList →
      ∀ c ∈ view.map fun chan => (handleMode srv peer chan msg).chan, c.Inhabited := by
    intro hcmd c hc
    obtain ⟨chan, hchan, rfl⟩ := Option.map_eq_some_iff.mp hc
    exact inhabited_of_handleMode srv peer (hv chan hchan) (hchan ▸ hms.2 hcmd)
  unfold netsyncHandle
  refine inhabited_of_ite (fun hcmd => inhabited_of_handleSjoin hv (hms.1 hcmd)) fun _ => ?_
  refine inhabited_of_ite (fun _ => inhabited_of_handleJoin hv) fun _ => ?_
  refine inhabited_of_ite (fun _ => inhabited_of_handleBmask hv) fun _ => ?_
  refine inhabited_of_ite (fun _ => inhabited_of_handleTb hv) fun _ => ?_
  refine inhabited_of_ite (fun _ => inhabited_of_handlePart hv) fun _ => ?_
  refine inhabited_of_ite (fun _ => inhabited_of_handleKick hv) fun _ => ?_
  refine inhabited_of_ite (fun _ => inhabited_of_handleQuit hv) fun _ => ?_
  refine inhabited_of_ite (fun _ => inhabited_of_handleTopic hv) fun _ => ?_
  exact inhabited_of_ite hmode fun _ => hv

/-! ## 7. Local steps keep it -/

theorem inhabited_of_cmdForceJoin {srv : Server} {key : Text} {now : Int} {cl : Registered}
    {name : Text} {view : Option Channel} (hv : ∀ chan ∈ view, chan.Inhabited) :
    ∀ c ∈ cmdForceJoin srv key now cl name view, c.Inhabited := by
  intro c hc
  unfold cmdForceJoin at hc
  split at hc
  · obtain rfl := Option.some.inj hc
    exact Or.inl (channelAddMember_ne_nil _ _)
  · exact hv c hc

theorem inhabited_of_doJoinOne {srv : Server} {key : Text} {now : Int} {cl : Registered}
    {name : Text} {admitted tooMany : Bool} {view : Option Channel}
    (hv : ∀ chan ∈ view, chan.Inhabited) :
    ∀ c ∈ doJoinOne srv key now cl name admitted tooMany view, c.Inhabited := by
  have hflood : ∀ chan : Channel, (channelFloodEvent chan 'j' tooMany).members = chan.members := by
    intro chan
    unfold channelFloodEvent
    split
    · simp only
      split
      · split <;> rfl
      · rfl
    · rfl
  intro c hc
  unfold doJoinOne at hc
  split at hc
  · split at hc
    · exact hv c hc
    · simp only at hc
      obtain rfl := Option.some.inj hc
      refine Or.inl ?_
      split
      · rw [hflood]
        exact channelAddMember_ne_nil _ _
      · exact channelAddMember_ne_nil _ _
  · exact hv c hc

theorem inhabited_of_svcJoin {srv : Server} {key : Text} {now : Int} {svc : Registered}
    {name : Text} {view : Option Channel} (hv : ∀ chan ∈ view, chan.Inhabited) :
    ∀ c ∈ svcJoin srv key now svc name view, c.Inhabited := by
  intro c hc
  obtain ⟨chan, hchan, rfl⟩ := Option.map_eq_some_iff.mp hc
  have halive := inhabited_of_cmdForceJoin hv chan hchan
  split
  · exact halive.mono (updateMember_nil_iff chan svc.1 _).mp fun hp => hp
  · exact halive

/-- **A careful step keeps every channel inhabited.** -/
theorem allInhabited_of_step (t : ChanTable) (e : ChanEvent) (ht : AllInhabited t)
    (he : Careful t e) : AllInhabited (tableStep t e) := by
  intro key
  have hv : ∀ chan ∈ t key, chan.Inhabited := ht key
  have hms := he key
  unfold tableStep
  cases e with
  | line srv peer now msg => exact inhabited_of_line hv hms
  | join srv now cl name admitted tooMany => exact inhabited_of_doJoinOne hv
  | forceJoin srv now cl name => exact inhabited_of_cmdForceJoin hv
  | leave uid name =>
    intro c hc
    simp only [chanStep] at hc
    split at hc
    · exact inhabited_of_leave_view hv hc
    · exact hv c hc
  | gone uid => exact fun c hc => inhabited_of_leave_view hv hc
  | mode srv cl name ms args full =>
    intro c hc
    simp only [chanStep] at hc
    split at hc
    next hname =>
      obtain ⟨chan, hchan, rfl⟩ := Option.map_eq_some_iff.mp hc
      exact inhabited_of_mode srv cl ms args full (hv chan hchan) (hms chan hchan hname)
    next => exact hv c hc
  | svcJoin srv now svc name => exact inhabited_of_svcJoin hv
  | svcReset srv svc name =>
    intro c hc
    simp only [chanStep] at hc
    split at hc
    · obtain ⟨chan, hchan, rfl⟩ := Option.map_eq_some_iff.mp hc
      exact inhabited_of_svcReset srv svc (hv chan hchan)
    · exact hv c hc

/-- **Every channel has a member or is `+P`** after every run in which no MODE takes `P` off a
channel without members and no SJOIN makes or takes over a channel without bringing a member.
Whoever takes the last member away destroys the channel; these two take none away. -/
theorem channels_inhabited (es : List ChanEvent)
    (h : Runs.Throughout tableStep Careful noChannels es) :
    AllInhabited (es.foldl tableStep noChannels) :=
  Runs.invariant_of_step allInhabited_of_step es noChannels (fun _ _ h => absurd h (by simp [noChannels])) h

/-- An oper makes `#c`, sets it `+P` and leaves. -/
def demoPermanent : List ChanEvent :=
  [.join demoServer 100 ⟨"1AA000001".toList, demoUid_ne_nil⟩ "#c".toList true false,
    .mode demoServer { demoOp with oper := true } "#c".toList "+P".toList [] true,
    .leave "1AA000001".toList "#c".toList]

theorem channels_inhabited_demo : AllInhabited (demoPermanent.foldl tableStep noChannels) := by
  refine channels_inhabited _ ⟨fun _ => trivial, fun key => ?_, fun _ => trivial, trivial⟩
  intro _ _ _ hclears
  exact absurd hclears (by decide)

/-- The oper then takes `P` off the empty channel, which stays. -/
theorem unset_perm_leaves_empty : ¬ ∀ es : List ChanEvent,
    AllInhabited (es.foldl tableStep noChannels) := by
  intro h
  have hrun := h (demoPermanent ++
    [.mode demoServer { demoOp with oper := true } "#c".toList "-P".toList [] true]) "#c".toList
  have hlost : ((demoPermanent ++ [ChanEvent.mode demoServer { demoOp with oper := true }
      "#c".toList "-P".toList [] true]).foldl tableStep noChannels "#c".toList).any (fun chan =>
        decide (chan.members = [] ∧ .perm ∉ chan.modes)) = true := by
    decide
  obtain ⟨chan, hchan, hnot⟩ := (Option.any_eq_true _ _).mp hlost
  obtain ⟨hnil, hperm⟩ := of_decide_eq_true hnot
  exact (hrun chan hchan).elim (fun hne => hne hnil) hperm

end SekurIRCd
