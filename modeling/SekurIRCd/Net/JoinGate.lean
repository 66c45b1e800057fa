/-
# Who may join

`do_join_one` lets a user into a channel that there is only past its modes: the invitation, the
key, the limit, the bans, the connection, the account and the pace.  A user who is refused may be
sent on to another channel, once.  Operators of the network pass.

An invitation lets one connection in once.  `joined_by_right`: in every run of lines, whoever is in
a channel came in by a step that had the right to it, and an invitation that counted there was given
to that connection by a member who may invite, by services or by a link, and had not been used.

The argument goes by what a step can do.  `doJoinOne_outcome` says what a JOIN leaves behind, once
for all its ways out; `invited_step` and `came_step` read off what happens to the invitations and to
the members, with every event that is no JOIN and no INVITE covered by `Quiet`; and a run is put
together from its steps by induction, from the last one backwards.

Channels have numbers here that are not used again, so that an invitation belongs to one channel
even where another has its name later.  An invitation is kept under `c<conn_id>`, and is modelled by
that number; remote users have the number 0.  What is announced and sent to the links is in other
modules, and the flood action that a join sets off is a change of modes of its own.
-/
import SekurIRCd.BanCache
import SekurIRCd.Net.Existence
import Mathlib.Data.List.Induction
import Mathlib.Data.List.Nodup

namespace SekurIRCd.JoinGate

open CLib

/-! ## 1. Clients and channels

A user is modelled with what the checks of JOIN look at, and a channel with what they count: its
members and lists, its invitations, and the window of `+j`.
-/

/-- `client_t`, as JOIN and INVITE read it. The number of the connection is what invitations are
kept by, so that they stay with a user who changes the nick. -/
structure Caller where
  connId : Nat
  id : Identity
  certfp : Text
  oper : Bool
  /-- `UMODE_NOPM`. -/
  noPm : Bool
  /-- `UMODE_REGONLY`. -/
  regOnly : Bool

/-- `invited`, each key once. The function that adds looks for the key first. -/
abbrev Invited := {l : List Nat // l.Nodup}

def chanMaxInvited : Nat := 64

/-- `channel_invite_add`: a full list loses its oldest entry. Nobody is told, so an invitation may
be gone before it is used. -/
def channelInviteAdd (l : Invited) (c : Nat) : Invited :=
  if h : c ∈ l.1 then l
  else
    let kept := if chanMaxInvited ≤ l.1.length then l.1.drop 1 else l.1
    have hsub : kept.Sublist l.1 := by
      dsimp only [kept]
      split
      · exact List.drop_sublist 1 l.1
      · exact List.Sublist.refl _
    ⟨kept ++ [c], (l.2.sublist hsub).append (List.nodup_singleton c)
      (List.disjoint_singleton.mpr fun hc => h (hsub.subset hc))⟩

/-- `channel_invite_remove`. -/
def channelInviteRemove (l : Invited) (c : Nat) : Invited := ⟨l.1.erase c, l.2.erase c⟩

/-- `channel_t`, with what JOIN keeps in it: the invitations, and the window of `+j`. -/
structure Gate extends Channel where
  invited : Invited
  jtCount : Nat
  jtStart : Int

/-- A numeric with its parameters and its text. -/
abbrev Reply := Text × List Text × Text

structure JoinConfig where
  /-- `debug_channel.name`, where it is enabled. -/
  debugChannel : Option Text
  restrictCreation : Bool
  allowedChannels : List Text
  defaultModes : Finset CMode

/-- The server, as far as JOIN goes: users by UID, channels by number. A channel is never made
under a number that was used before, so a number stands for one channel throughout a run. -/
structure Doors where
  cfg : JoinConfig
  nextConnId : Nat
  people : Text → Option Caller
  nextChan : Nat
  chans : Nat → Option Gate

namespace Gate

variable (g : Gate) (cl : Caller) (cx : Context)

def has (uid : Text) : Bool := (channelFindMember g.toChannel uid).isSome

/-- `channel_is_invited`: by an invitation of this connection, or by a mask of `+I`. -/
def channelIsInvited : Bool :=
  g.invited.1.contains cl.connId || g.invex.any (channelMaskHit cl.id cx cl.id.host)

/-- `channel_ban_forward`: the channel that the first forwarding ban names, of those that hit the
user. -/
def channelBanForward : Option Text :=
  (g.bans.find? fun mask =>
    let m := maskBodyOf mask
    casePrefix "~f:".toList m && (strchr ':' (m.drop 3)).isSome && maskHitAnyHost cl.id cx m).bind
    fun mask => (strchr ':' ((maskBodyOf mask).drop 3)).map fun x => clip chanNameLen x.1

/-- `channel_has_ops`. A half-op may invite, too. -/
def hasOps (uid : Text) : Bool :=
  (g.rankOf uid).any fun r => decide (.op ∈ r.bits ∨ .halfop ∈ r.bits)

end Gate

/-! ## 2. The checks of JOIN

The checks stand in one order in `do_join_one`, and the first that fails answers.  Three of them may
send the user on: `+i` and `+l` to the channel of `+L`, a ban to the channel its mask names.
-/

/-- What may stand in the way, less the pace. The order is that of the checks, and each has a reply
of its own. -/
inductive Hurdle
  | inviteOnly | key | full | banned | secureOnly | regOnly | operOnly
deriving DecidableEq

namespace Hurdle

def numeric : Hurdle → Text
  | inviteOnly => "473".toList
  | key => "475".toList
  | full => "471".toList
  | banned => "474".toList
  | secureOnly => "489".toList
  | regOnly => "477".toList
  | operOnly => "477".toList

def text : Hurdle → Text
  | inviteOnly => "Cannot join channel (+i)".toList
  | key => "Cannot join channel (+k)".toList
  | full => "Cannot join channel (+l)".toList
  | banned => "Cannot join channel (+b)".toList
  | secureOnly => "Cannot join channel (+z, requires a secure connection)".toList
  | regOnly => "Cannot join channel (+R, requires a registered account)".toList
  | operOnly => "Cannot join channel (+O, IRC operators only)".toList

def reply (h : Hurdle) (g : Gate) : Reply := (h.numeric, [g.name], h.text)

/-- Where `try_redirect` sends a user who was refused: `+L` of the channel, or the channel of a
forwarding ban. The others are refused without one. -/
def redirect (h : Hurdle) (g : Gate) (cl : Caller) (cx : Context) : Option Text :=
  let dest := match h with
    | inviteOnly | full =>
      if CMode.redirect ∈ g.modes ∧ g.redirect ≠ [] then some g.redirect else none
    | banned => g.channelBanForward cl cx
    | _ => none
  dest.filter fun name => ircValidChannel name 50

end Hurdle

namespace Gate

variable (g : Gate) (cl : Caller) (cx : Context)

/-- The first check that fails. A user is told of this one only, and redirected by it. -/
def hurdle (key : Option Text) : Option Hurdle :=
  if .i ∈ g.modes ∧ g.channelIsInvited cl cx = false then some .inviteOnly
  else if .k ∈ g.modes ∧ g.key ≠ [] ∧ key ≠ some g.key then some .key
  else if .l ∈ g.modes ∧ 0 < g.limit ∧ g.limit ≤ g.members.length then some .full
  else if channelIsBanned g.bans g.exceptions cl.id cx = true then some .banned
  else if .z ∈ g.modes ∧ cl.id.secure = false then some .secureOnly
  else if .regonly ∈ g.modes ∧ cl.id.account = [] then some .regOnly
  else if .operonly ∈ g.modes then some .operOnly
  else none

/-- The window of `+j`, with this attempt in it. An attempt counts even if it comes too soon, but
only behind the other checks. -/
def attempt (now : Int) : Gate :=
  if .jthrot ∈ g.modes ∧ 0 < g.jtJoins then
    if g.jtSecs ≤ now - g.jtStart then { g with jtStart := now, jtCount := 1 }
    else { g with jtCount := g.jtCount + 1 }
  else g

/-- There were too many attempts. -/
def tooFast (now : Int) : Bool :=
  decide (.jthrot ∈ g.modes ∧ 0 < g.jtJoins ∧ g.jtJoins < (g.attempt now).jtCount)

/-- The member comes in, and the invitation is used up, also where none was needed. -/
def enter (cl : Caller) (uid : Registered) (isNew : Bool) : Gate :=
  { g with
    toChannel := channelAddMember g.toChannel
      (joiner uid isNew (decide (.delayjoin ∈ g.modes) && !isNew))
    invited := channelInviteRemove g.invited cl.connId }

end Gate

/-! ## 3. JOIN

`joinAt` is one attempt at one name; it makes the channel where there is none.  `doJoinOne` makes a
second attempt where the first was stopped by a check that sends the user on, without a key, and
whatever the second comes to is final.
-/

/-- How one attempt ends. Only `stopped` can be redirected. -/
inductive JoinEnd
  | entered
  | replied (r : Reply)
  | stopped (h : Hurdle) (g : Gate)

def errNoSuchChannel (name : Text) : Reply := ("403".toList, [name], "No such channel".toList)

def maxChannelsPerClient : Nat := 200

namespace Doors

variable (s : Doors)

/-- `server_find_channel`, by the casefolded name. -/
def serverFindChannel (name : Text) : Option (Nat × Gate) :=
  ((List.range s.nextChan).find? fun k => (s.chans k).any fun g =>
    g.casefoldName == ircCasefold chanNameLen name).bind fun k => (s.chans k).map fun g => (k, g)

/-- The channels that a user is in, by name. -/
def channelsOf (uid : Text) : List Text :=
  ((List.range s.nextChan).filterMap s.chans |>.filter fun g => g.has uid).map
    fun g => g.casefoldName

/-- What masks can look at besides the identity: the fingerprint of a certificate, and the channels
of the user. -/
def context (uid : Text) (cl : Caller) : Context := ⟨cl.certfp, s.channelsOf uid⟩

def update (k : Nat) (o : Option Gate) : Doors := { s with chans := Function.update s.chans k o }

def write (k : Nat) (g : Gate) : Doors := s.update k (some g)

/-- `server_get_or_create_channel`, for a name that is new. Nobody is invited yet, and the window
of `+j` is empty. -/
def freshGate (name : Text) (h : ircValidChannel name 50 = true) (now : Int) : Gate where
  toChannel := { newChannel name h now with modes := s.cfg.defaultModes }
  invited := ⟨[], List.nodup_nil⟩
  jtCount := 0
  jtStart := 0

/-- May this user make this channel? The configuration may leave that to operators, but for the
channels that it lists. -/
def mayCreate (cl : Caller) (name : Text) : Bool :=
  !s.cfg.restrictCreation || cl.oper || s.cfg.allowedChannels.any (caseEq name)

def tooManyChannels (uid : Registered) (cl : Caller) : Bool :=
  decide (maxChannelsPerClient ≤ (s.channelsOf uid.1).length) && !cl.oper

/-- `do_join_one`, for a channel that is there. An operator passes all of the checks behind the
number of channels. -/
def joinExisting (uid : Registered) (cl : Caller) (name : Text) (key : Option Text) (now : Int)
    (k : Nat) (g : Gate) : Doors × JoinEnd :=
  if g.has uid.1 then
    (s, .replied ("443".toList, [g.name], "You're already on that channel".toList))
  else if s.tooManyChannels uid cl then
    (s, .replied ("405".toList, [name], "You have joined too many channels".toList))
  else if cl.oper then (s.write k (g.enter cl uid false), .entered)
  else
    match g.hurdle cl (s.context uid.1 cl) key with
    | some h => (s, .stopped h g)
    | none =>
      if g.tooFast now then
        (s.write k (g.attempt now), .replied ("471".toList, [g.name],
          "Cannot join channel (+j, joining too fast -- try again shortly)".toList))
      else (s.write k ((g.attempt now).enter cl uid false), .entered)

/-- `do_join_one`, for a channel that it makes. There is nothing to be stopped by but the number of
channels and the configuration. -/
def joinNew (uid : Registered) (cl : Caller) (name : Text) (h : ircValidChannel name 50 = true)
    (now : Int) : Doors × JoinEnd :=
  if s.tooManyChannels uid cl then
    (s, .replied ("405".toList, [name], "You have joined too many channels".toList))
  else if s.mayCreate cl name = false then (s, .replied (errNoSuchChannel name))
  else
    ({ s with nextChan := s.nextChan + 1 }.write s.nextChan
      ((s.freshGate name h now).enter cl uid true), .entered)

/-- `do_join_one`, up to what it does about a redirect. The channel of the debug log is hidden from
all but operators. -/
def joinAt (uid : Registered) (cl : Caller) (name : Text) (key : Option Text) (now : Int) :
    Doors × JoinEnd :=
  if h : ircValidChannel name 50 = true then
    if cl.oper = false ∧ s.cfg.debugChannel.any (fun d =>
        ircCasefold chanNameLen name == ircCasefold chanNameLen d) = true then
      (s, .replied (errNoSuchChannel name))
    else
      match s.serverFindChannel name with
      | some (k, g) => s.joinExisting uid cl name key now k g
      | none => s.joinNew uid cl name h now
  else (s, .replied (errNoSuchChannel name))

/-- `do_join_one`, and its replies. A redirect is followed once, without the key, and a second one
is refused. -/
def doJoinOne (uid : Registered) (cl : Caller) (name : Text) (key : Option Text) (now : Int) :
    Doors × List Reply :=
  match s.joinAt uid cl name key now with
  | (s, .entered) => (s, [])
  | (s, .replied r) => (s, [r])
  | (s, .stopped h g) =>
    match h.redirect g cl (s.context uid.1 cl) with
    | none => (s, [h.reply g])
    | some dest =>
      let forwarding : Reply :=
        ("470".toList, [g.name, dest], "Forwarding to another channel".toList)
      match s.joinAt uid cl dest none now with
      | (s, .entered) => (s, [forwarding])
      | (s, .replied r) => (s, [forwarding, r])
      | (s, .stopped h g) => (s, [forwarding, h.reply g])

/-- `cmd_force_join`, for SAJOIN and the services. It asks nothing of the user, and uses no
invitation up. -/
def cmdForceJoin (uid : Registered) (name : Text) (now : Int) : Doors :=
  if h : ircValidChannel name 50 = true then
    match s.serverFindChannel name with
    | some (k, g) =>
      s.write k { g with toChannel := channelAddMember g.toChannel (joiner uid false false) }
    | none =>
      let g := s.freshGate name h now
      { s with nextChan := s.nextChan + 1 }.write s.nextChan
        { g with toChannel := channelAddMember g.toChannel (joiner uid true false) }
  else s

/-- `handle_join`, and a member of `handle_sjoin`: a channel that it makes has no modes yet. What
there was to check was checked by the user's own server. -/
def handleJoin (uid : Registered) (name : Text) (now : Int) : Doors :=
  if h : ircValidChannel name 50 = true then
    match s.serverFindChannel name with
    | some (k, g) =>
      let m := joiner uid false (decide (.delayjoin ∈ g.modes))
      s.write k { g with toChannel := channelAddMember g.toChannel m }
    | none =>
      let g := s.freshGate name h now
      { s with nextChan := s.nextChan + 1 }.write s.nextChan
        { g with toChannel :=
            channelAddMember { g.toChannel with modes := ∅ } (joiner uid false false) }
  else s

/-! ## 4. Leaving and inviting

A channel goes with its last member, unless it is `+P`, and its invitations go with it.  An INVITE
is kept only where it counts, in a channel that is `+i`; one of services always is.
-/

/-- `server_maybe_drop_channel`. The invitations go with the channel. -/
def serverMaybeDropChannel (k : Nat) (g : Gate) : Doors :=
  if g.members = [] ∧ .perm ∉ g.modes then s.update k none else s.write k g

/-- `channel_remove_member`, and the channel may go. -/
def leave (k : Nat) (g : Gate) (uid : Text) : Doors :=
  s.serverMaybeDropChannel k { g with toChannel := channelRemoveMember g.toChannel uid }

/-- The channels of `server_remove_client`, one after the other. -/
def leaveAll (uid : Text) : Doors :=
  (List.range s.nextChan).foldl (fun s k =>
    match s.chans k with
    | some g => if g.has uid then s.leave k g uid else s
    | none => s) s

/-- `cmd_invite`; `silenced` is what `client_is_silencing` says. The invitation is kept only where
the channel is `+i`. -/
def cmdInvite (uid target : Text) (name : Text) (silenced : Bool) : Doors :=
  match s.people uid, s.people target with
  | some cl, some other =>
    if ircValidChannel name 50 = false ∨ silenced then s
    else if other.noPm ∧ cl.oper = false ∧ uid ≠ target then s
    else if other.regOnly ∧ cl.id.account = [] ∧ cl.oper = false ∧ uid ≠ target then s
    else
      match s.serverFindChannel name with
      | some (k, g) =>
        if g.has uid = false ∨ g.has target then s
        else if .i ∈ g.modes ∧ g.hasOps uid = false ∧ cl.oper = false then s
        else if .noinvite ∈ g.modes ∧ g.hasOps uid = false ∧ cl.oper = false then s
        else if .i ∈ g.modes then
          s.write k { g with invited := channelInviteAdd g.invited other.connId }
        else s
      | none => s
  | _, _ => s

/-- `handle_invite`, and INVITE of services, which needs no `+i`. Who the inviter is was checked
elsewhere. -/
def vouchedInvite (target name : Text) (services : Bool) : Doors :=
  match s.people target, s.serverFindChannel name with
  | some other, some (k, g) =>
    if services ∨ .i ∈ g.modes then
      s.write k { g with invited := channelInviteAdd g.invited other.connId }
    else s
  | _, _ => s

end Doors

/-! ## 5. Everything that can happen

An event is one change of one channel or of one user.  A JOIN line names several channels, each with
its key, and is as many events; the others are one event each.
-/

inductive DoorEvent
  | config (cfg : JoinConfig)
  /-- A new connection, or a user of another server. -/
  | arrive (uid : Text) (cl : Caller) (remote : Bool)
  /-- Nick, host, account, modes: all but the connection. -/
  | change (uid : Text) (cl : Caller)
  /-- `server_remove_client`. -/
  | gone (uid : Text)
  | join (uid : Registered) (name : Text) (key : Option Text) (now : Int)
  /-- SAJOIN, auto-joins and services. -/
  | forceJoin (uid : Registered) (name : Text) (now : Int)
  /-- A member that a link tells of. -/
  | linkJoin (uid : Registered) (name : Text) (now : Int)
  /-- PART and KICK. -/
  | part (uid name : Text)
  | invite (uid target name : Text) (silenced : Bool)
  /-- An INVITE that a link or services vouch for. -/
  | vouchedInvite (target name : Text) (services : Bool)
  /-- Any change of modes, lists and ranks. -/
  | settings (name : Text) (settings : Settings) (rank : Text → Rank) (restart : Bool)
  | rename (old new : Text)

namespace Doors

/-- A channel that is found by name is changed. -/
def onChannel (s : Doors) (name : Text) (f : Nat → Gate → Doors) : Doors :=
  match s.serverFindChannel name with
  | some (k, g) => f k g
  | none => s

def withSettings (g : Gate) (t : Settings) (rank : Text → Rank) (restart : Bool) : Gate :=
  { g with
    toChannel := { g.toChannel with
      toSettings := t
      members := g.members.map fun m => { m with rank := rank m.client } }
    jtCount := if restart then 0 else g.jtCount
    jtStart := if restart then 0 else g.jtStart }

def step (s : Doors) : DoorEvent → Doors
  | .config cfg => { s with cfg := cfg }
  | .arrive uid cl remote =>
    match s.people uid with
    | some _ => s
    | none =>
      let c := if remote then 0 else s.nextConnId + 1
      { s with
        nextConnId := if remote then s.nextConnId else s.nextConnId + 1
        people := Function.update s.people uid (some { cl with connId := c }) }
  | .change uid cl =>
    match s.people uid with
    | some old =>
      { s with people := Function.update s.people uid (some { cl with connId := old.connId }) }
    | none => s
  | .gone uid => { s.leaveAll uid with people := Function.update s.people uid none }
  | .join uid name key now =>
    match s.people uid.1 with
    | some cl => (s.doJoinOne uid cl name key now).1
    | none => s
  | .forceJoin uid name now => s.cmdForceJoin uid name now
  | .linkJoin uid name now => s.handleJoin uid name now
  | .part uid name => s.onChannel name fun k g => if g.has uid then s.leave k g uid else s
  | .invite uid target name silenced => s.cmdInvite uid target name silenced
  | .vouchedInvite target name services => s.vouchedInvite target name services
  | .settings name t rank restart => s.onChannel name fun k g =>
      s.write k (withSettings g t rank restart)
  | .rename old new => s.onChannel old fun k g =>
      if h : ircValidChannel new 50 = true then
        if (s.serverFindChannel new).any fun x => x.1 != k then s
        else s.write k { g with toChannel := { g.toChannel with name := new, nameValid := h } }
      else s

def boot (cfg : JoinConfig) : Doors := ⟨cfg, 0, fun _ => none, 0, fun _ => none⟩

def run (cfg : JoinConfig) (es : List DoorEvent) : Doors := es.foldl step (boot cfg)

/-- What `cmd_join` does, channel by channel; `JOIN 0` leaves them all. The keys go with the names
by their places in the two lists. -/
def joinEvents (s : Doors) (uid : Registered) (params : List Text) (now : Int) : List DoorEvent :=
  if params.head? = some ['0'] then
    ((s.channelsOf uid.1).take maxChannelsPerClient).map fun name => .part uid.1 name
  else
    let keys := strtok ',' (clip 600 (params.getD 1 []))
    (strtok ',' (clip 600 (params.getD 0 []))).zipIdx.map fun x =>
      .join uid x.1 keys[x.2]? now

/-- `cmd_join`. The names of a line are taken one after the other, each in the state that the one
before left. -/
def cmdJoin (s : Doors) (uid : Registered) (params : List Text) (now : Int) : Doors :=
  (s.joinEvents uid params now).foldl step s

end Doors

/-- What reaches the server: a JOIN line with its lists of names and keys, or anything else that
can happen to the channels. -/
inductive DoorLine
  | event (e : DoorEvent)
  | join (uid : Registered) (params : List Text) (now : Int)

namespace Doors

/-- The steps of a line: a JOIN line takes one for each channel it names, and any other line is
one. -/
def stepsOf (s : Doors) : DoorLine → List DoorEvent
  | .event e => [e]
  | .join uid params now => s.joinEvents uid params now

def line (s : Doors) : DoorLine → Doors
  | .event e => s.step e
  | .join uid params now => s.cmdJoin uid params now

/-- The steps of a run of lines, each line read in the state that it meets. -/
def unfolded (s : Doors) : List DoorLine → List DoorEvent
  | [] => []
  | l :: ls => s.stepsOf l ++ (s.line l).unfolded ls

def runLines (cfg : JoinConfig) (ls : List DoorLine) : Doors := ls.foldl line (boot cfg)

end Doors

/-! ## 6. What a step does to the channels

Most of what can happen lets nobody in and invites nobody.  That is `Quiet`, which composes, so that
a loop over channels is quiet where each of its steps is.
-/

/-- Nobody comes in and nobody is invited. Most steps are of this kind, and need no look at who may
do what. -/
def Gate.Less (g' g : Gate) : Prop :=
  (∀ uid, g'.has uid = true → g.has uid = true) ∧ g'.invited.1 ⊆ g.invited.1

namespace Doors

/-- No channel has more members or invitations than before, and none is made. -/
def Quiet (s s' : Doors) : Prop :=
  ∀ k g', s'.chans k = some g' → ∃ g, s.chans k = some g ∧ g'.Less g

/-- The numbers from `nextChan` on are free. So a channel that is made takes nobody's place. -/
def Numbered (s : Doors) : Prop := ∀ k, s.nextChan ≤ k → s.chans k = none

/-- Is `uid` in channel number `k`? -/
def In (s : Doors) (k : Nat) (uid : Text) : Prop := ∃ g, s.chans k = some g ∧ g.has uid = true

end Doors

theorem Gate.Less.refl (g : Gate) : g.Less g := ⟨fun _ h => h, fun _ h => h⟩

theorem Gate.Less.trans {a b c : Gate} (h : a.Less b) (h' : b.Less c) : a.Less c :=
  ⟨fun uid hu => h'.1 uid (h.1 uid hu), fun _ hc => h'.2 (h.2 hc)⟩

section Members

variable (g : Gate)

theorem has_iff {uid : Text} : g.has uid = true ↔ ∃ m ∈ g.members, m.client = uid := by
  rw [Gate.has, channelFindMember, List.find?_isSome]
  simp only [beq_iff_eq]

theorem has_congr {g g' : Gate} (h : g'.toChannel = g.toChannel) (uid : Text) :
    g'.has uid = g.has uid := by rw [Gate.has, h, Gate.has]

theorem addMember_name (c : Channel) (m : Member) : (channelAddMember c m).name = c.name := by
  rw [channelAddMember]
  split <;> rfl

theorem has_add (c : Channel) (m : Member) (uid : Text) :
    (channelFindMember (channelAddMember c m) uid).isSome = true ↔
      (channelFindMember c uid).isSome = true ∨ m.client = uid := by
  rw [channelAddMember]
  split
  · next hin =>
    refine ⟨.inl, ?_⟩
    rintro (h | rfl)
    · exact h
    · exact hin
  · simp only [channelFindMember, List.find?_isSome, List.mem_append, List.mem_singleton,
      beq_iff_eq]
    constructor
    · rintro ⟨m', h | rfl, hm'⟩
      · exact .inl ⟨m', h, hm'⟩
      · exact .inr hm'
    · rintro (⟨m', h, hm'⟩ | h)
      · exact ⟨m', .inl h, hm'⟩
      · exact ⟨m, .inr rfl, h⟩

theorem has_remove {uid uid' : Text}
    (h : (channelFindMember (channelRemoveMember g.toChannel uid) uid').isSome = true) :
    g.has uid' = true := by
  rw [has_iff]
  simp only [channelFindMember, channelRemoveMember, List.find?_isSome, List.mem_filter,
    beq_iff_eq] at h
  obtain ⟨m, ⟨hm, -⟩, hc⟩ := h
  exact ⟨m, hm, hc⟩

theorem attempt_toChannel (now : Int) : (g.attempt now).toChannel = g.toChannel := by
  rw [Gate.attempt]
  split
  · split <;> rfl
  · rfl

theorem attempt_invited (now : Int) : (g.attempt now).invited = g.invited := by
  rw [Gate.attempt]
  split
  · split <;> rfl
  · rfl

theorem has_enter (cl : Caller) (uid : Registered) (isNew : Bool) (uid' : Text) :
    (g.enter cl uid isNew).has uid' = true ↔ g.has uid' = true ∨ uid.1 = uid' :=
  has_add g.toChannel _ uid'

theorem not_mem_enter (cl : Caller) (uid : Registered) (isNew : Bool) :
    cl.connId ∉ (g.enter cl uid isNew).invited.1 := g.invited.2.not_mem_erase

theorem enter_invited (cl : Caller) (uid : Registered) (isNew : Bool) :
    (g.enter cl uid isNew).invited.1 ⊆ g.invited.1 := List.erase_subset

theorem mem_inviteAdd {l : Invited} {c c' : Nat} (h : c' ∈ (channelInviteAdd l c).1) :
    c' ∈ l.1 ∨ c' = c := by
  rw [channelInviteAdd] at h
  split at h
  · exact .inl h
  · rcases List.mem_append.mp h with h | h
    · refine .inl ?_
      split at h
      · exact List.mem_of_mem_drop h
      · exact h
    · exact .inr (List.mem_singleton.mp h)

end Members

namespace Doors

variable {s s' : Doors}

theorem Quiet.refl (s : Doors) : s.Quiet s := fun _ g h => ⟨g, h, .refl g⟩

theorem Quiet.trans {a b c : Doors} (h : a.Quiet b) (h' : b.Quiet c) : a.Quiet c := by
  intro k g hg
  obtain ⟨g₁, h₁, hl₁⟩ := h' k g hg
  obtain ⟨g₀, h₀, hl₀⟩ := h k g₁ h₁
  exact ⟨g₀, h₀, hl₁.trans hl₀⟩

theorem quiet_of_chans (h : s'.chans = s.chans) : s.Quiet s' := by
  intro k g hg
  rw [h] at hg
  exact ⟨g, hg, .refl g⟩

@[simp] theorem update_same (s : Doors) (k : Nat) (o : Option Gate) : (s.update k o).chans k = o :=
  Function.update_self ..

theorem update_other (s : Doors) {k k' : Nat} (h : k' ≠ k) (o : Option Gate) :
    (s.update k o).chans k' = s.chans k' := Function.update_of_ne h ..

theorem quiet_write {k : Nat} {g g' : Gate} (hk : s.chans k = some g) (h : g'.Less g) :
    s.Quiet (s.write k g') := by
  intro k' g'' hg
  by_cases hkk : k' = k
  · subst hkk
    rw [write, update_same] at hg
    obtain rfl := Option.some.inj hg
    exact ⟨g, hk, h⟩
  · rw [write, update_other s hkk] at hg
    exact ⟨g'', hg, .refl g''⟩

theorem quiet_drop (s : Doors) (k : Nat) : s.Quiet (s.update k none) := by
  intro k' g'' hg
  by_cases hkk : k' = k
  · subst hkk
    rw [update_same] at hg
    cases hg
  · rw [update_other s hkk] at hg
    exact ⟨g'', hg, .refl g''⟩

theorem found {name : Text} {k : Nat} {g : Gate} (h : s.serverFindChannel name = some (k, g)) :
    s.chans k = some g := by
  obtain ⟨k', -, hk'⟩ := Option.bind_eq_some_iff.mp h
  obtain ⟨g', hg', he⟩ := Option.map_eq_some_iff.mp hk'
  obtain ⟨rfl, rfl⟩ := Prod.mk.inj he
  exact hg'

theorem quiet_onChannel {name : Text} {f : Nat → Gate → Doors}
    (h : ∀ k g, s.chans k = some g → s.Quiet (f k g)) : s.Quiet (s.onChannel name f) := by
  rw [onChannel]
  split
  · next k g hf => exact h k g (found hf)
  · exact .refl s

theorem quiet_leave {k : Nat} {g : Gate} (hk : s.chans k = some g) (uid : Text) :
    s.Quiet (s.leave k g uid) := by
  rw [leave, serverMaybeDropChannel]
  split
  · exact quiet_drop s k
  · exact quiet_write hk ⟨fun uid' h => has_remove g h, fun _ h => h⟩

theorem quiet_leaveAll (s : Doors) (uid : Text) : s.Quiet (s.leaveAll uid) := by
  rw [leaveAll]
  have hfold : ∀ (ks : List Nat) (t : Doors), s.Quiet t → s.Quiet (ks.foldl (fun s k =>
      match s.chans k with
      | some g => if g.has uid then s.leave k g uid else s
      | none => s) t) := by
    intro ks
    induction ks with
    | nil => exact fun t ht => ht
    | cons k ks ih =>
      intro t ht
      refine ih _ ?_
      dsimp only
      split
      · next g hg =>
        split
        · exact ht.trans (quiet_leave hg uid)
        · exact ht
      · exact ht
  exact hfold _ s (.refl s)

theorem Quiet.isIn (h : s.Quiet s') {k : Nat} {uid : Text} (hin : s'.In k uid) : s.In k uid := by
  obtain ⟨g', hg', hu⟩ := hin
  obtain ⟨g, hg, hl⟩ := h k g' hg'
  exact ⟨g, hg, hl.1 uid hu⟩

end Doors

/-! ## 7. What JOIN comes to

`Passes` is what the modes of a channel ask of a user, written as what must hold rather than as what
refuses.  `Tries` says which names and keys a JOIN may come to try: its own, or where a refusal
sends the user, and then no key at all.
-/

/-- Nothing stands in the way; `invited` says which connections have an invitation. This is what
each mode asks for, without the order of the checks. -/
structure Passes (invited : Nat → Prop) (s : Doors) (g : Gate) (uid : Text) (cl : Caller)
    (key : Option Text) (now : Int) : Prop where
  invited : .i ∈ g.modes → invited cl.connId ∨
    ∃ mask ∈ g.invex, channelMaskHit cl.id (s.context uid cl) cl.id.host mask = true
  key : .k ∈ g.modes → g.key ≠ [] → key = some g.key
  room : .l ∈ g.modes → 0 < g.limit → (g.members.length : Int) < g.limit
  notBanned : channelIsBanned g.bans g.exceptions cl.id (s.context uid cl) = false
  secure : .z ∈ g.modes → cl.id.secure = true
  account : .regonly ∈ g.modes → cl.id.account ≠ []
  notOperOnly : .operonly ∉ g.modes
  pace : .jthrot ∈ g.modes → 0 < g.jtJoins → ((g.attempt now).jtCount : Int) ≤ g.jtJoins

theorem Passes.imp {p q : Nat → Prop} {s : Doors} {g : Gate} {uid : Text} {cl : Caller}
    {key : Option Text} {now : Int} (h : Passes p s g uid cl key now) (hpq : ∀ c, p c → q c) :
    Passes q s g uid cl key now :=
  { h with invited := fun hi => (h.invited hi).imp (hpq _) id }

/-- **The checks** leave out nobody else: who passes them has what the modes ask for. -/
theorem passes_of_hurdle {s : Doors} {g : Gate} {uid : Text} {cl : Caller} {key : Option Text}
    {now : Int} (h : g.hurdle cl (s.context uid cl) key = none) (hfast : g.tooFast now = false) :
    Passes (· ∈ g.invited.1) s g uid cl key now := by
  rw [Gate.hurdle] at h
  split at h
  · cases h
  next hi =>
  split at h
  · cases h
  next hk =>
  split at h
  · cases h
  next hl =>
  split at h
  · cases h
  next hb =>
  split at h
  · cases h
  next hz =>
  split at h
  · cases h
  next hr =>
  split at h
  · cases h
  next ho =>
  refine { invited := fun hm => ?_, key := fun hm hne => ?_, room := fun hm hpos => ?_,
           notBanned := Bool.eq_false_of_not_eq_true hb, secure := fun hm => ?_,
           account := fun hm he => hr ⟨hm, he⟩, notOperOnly := ho, pace := fun hm hpos => ?_ }
  · have hinv : g.channelIsInvited cl (s.context uid cl) = true :=
      Bool.eq_true_of_not_eq_false fun hf => hi ⟨hm, hf⟩
    rw [Gate.channelIsInvited, Bool.or_eq_true, List.contains_iff_mem, List.any_eq_true] at hinv
    exact hinv
  · exact by_contra fun hkey => hk ⟨hm, hne, hkey⟩
  · exact Int.not_le.mp fun hle => hl ⟨hm, hpos, hle⟩
  · exact Bool.eq_true_of_not_eq_false fun hf => hz ⟨hm, hf⟩
  · exact Int.not_lt.mp fun hlt => of_decide_eq_false hfast ⟨hm, hpos, hlt⟩

/-- What `do_join_one` tries for a JOIN of this name with this key: the channel itself, or where a
refusal there sends the user, without the key. -/
inductive Tries (s : Doors) (uid : Registered) (cl : Caller) (name : Text) (key : Option Text)
    (now : Int) : Text → Option Text → Prop
  | itself : Tries s uid cl name key now name key
  | redirected (h : Hurdle) (g : Gate) (dest : Text)
    (hstop : (s.joinAt uid cl name key now).2 = .stopped h g)
    (hdest : h.redirect g cl (s.context uid.1 cl) = some dest) :
    Tries s uid cl name key now dest none

/-- What an attempt at a channel leaves behind: nothing new, one attempt more in the window, a
member more, or a channel with one member. -/
inductive Outcome (s : Doors) (uid : Registered) (cl : Caller) (name : Text) (key : Option Text)
    (now : Int) : Doors → Prop
  | same : Outcome s uid cl name key now s
  | tried (k : Nat) (g : Gate) (hfind : s.serverFindChannel name = some (k, g)) :
    Outcome s uid cl name key now (s.write k (g.attempt now))
  | entered (k : Nat) (g g' : Gate) (hfind : s.serverFindChannel name = some (k, g))
    (hnot : g.has uid.1 = false) (hsame : g'.toChannel = g.toChannel ∧ g'.invited = g.invited)
    (hpass : cl.oper = true ∨ Passes (· ∈ g.invited.1) s g uid.1 cl key now) :
    Outcome s uid cl name key now (s.write k (g'.enter cl uid false))
  | made (h : ircValidChannel name 50 = true) (hfree : s.serverFindChannel name = none)
    (hmay : s.mayCreate cl name = true) :
    Outcome s uid cl name key now ({ s with nextChan := s.nextChan + 1 }.write s.nextChan
      ((s.freshGate name h now).enter cl uid true))

section Join

variable {s : Doors} {uid : Registered} {cl : Caller} {name : Text} {key : Option Text} {now : Int}

/-- How an attempt ends: what was stopped has changed nothing, so a redirect starts from the same
state. -/
def Ends (s : Doors) (uid : Registered) (cl : Caller) (name : Text) (key : Option Text) (now : Int)
    (r : Doors × JoinEnd) : Prop :=
  Outcome s uid cl name key now r.1 ∧ ∀ h g, r.2 = .stopped h g → r.1 = s

theorem ends_same (e : JoinEnd) : Ends s uid cl name key now (s, e) := ⟨.same, fun _ _ _ => rfl⟩

theorem ends_entered {t : Doors} (h : Outcome s uid cl name key now t) :
    Ends s uid cl name key now (t, .entered) := ⟨h, fun _ _ he => JoinEnd.noConfusion he⟩

theorem ends_replied {t : Doors} (h : Outcome s uid cl name key now t) (r : Reply) :
    Ends s uid cl name key now (t, .replied r) := ⟨h, fun _ _ he => JoinEnd.noConfusion he⟩

theorem joinExisting_ends {k : Nat} {g : Gate} (hfind : s.serverFindChannel name = some (k, g)) :
    Ends s uid cl name key now (s.joinExisting uid cl name key now k g) := by
  rw [Doors.joinExisting]
  split
  · exact ends_same _
  next hnot =>
  have hnot := Bool.eq_false_of_not_eq_true hnot
  split
  · exact ends_same _
  split
  · next hoper => exact ends_entered (.entered k g g hfind hnot ⟨rfl, rfl⟩ (.inl hoper))
  split
  · exact ends_same _
  next hhurdle =>
  split
  · exact ends_replied (.tried k g hfind) _
  next hfast =>
  have hpass := passes_of_hurdle hhurdle (Bool.eq_false_of_not_eq_true hfast)
  exact ends_entered (.entered k g _ hfind hnot ⟨attempt_toChannel g now, attempt_invited g now⟩
    (.inr hpass))

theorem joinNew_ends (h : ircValidChannel name 50 = true)
    (hfree : s.serverFindChannel name = none) :
    Ends s uid cl name key now (s.joinNew uid cl name h now) := by
  rw [Doors.joinNew]
  split
  · exact ends_same _
  split
  · exact ends_same _
  next hmay => exact ends_entered (.made h hfree (Bool.eq_true_of_not_eq_false hmay))

theorem joinAt_ends (name : Text) (key : Option Text) :
    Ends s uid cl name key now (s.joinAt uid cl name key now) := by
  rw [Doors.joinAt]
  by_cases hvalid : ircValidChannel name 50 = true
  · rw [dif_pos hvalid]
    by_cases hdebug : cl.oper = false ∧ s.cfg.debugChannel.any (fun d =>
        ircCasefold chanNameLen name == ircCasefold chanNameLen d) = true
    · rw [if_pos hdebug]
      exact ends_same _
    rw [if_neg hdebug]
    cases hfind : s.serverFindChannel name with
    | some x => exact joinExisting_ends hfind
    | none => exact joinNew_ends hvalid hfind
  · rw [dif_neg hvalid]
    exact ends_same _

/-- **A JOIN** brings a user into one channel at most: the one that was asked for, or the one that
the user is sent on to. -/
theorem doJoinOne_outcome (name : Text) (key : Option Text) :
    ∃ dest key', Tries s uid cl name key now dest key' ∧
      Outcome s uid cl dest key' now (s.doJoinOne uid cl name key now).1 := by
  have hends : Ends s uid cl name key now (s.joinAt uid cl name key now) := joinAt_ends name key
  obtain ⟨hout, hstop⟩ := hends
  have hredirected := @Tries.redirected s uid cl name key now
  rw [Doors.doJoinOne]
  generalize s.joinAt uid cl name key now = r at hout hstop hredirected
  obtain ⟨s₁, e⟩ := r
  cases e with
  | entered => exact ⟨name, key, .itself, hout⟩
  | replied r => exact ⟨name, key, .itself, hout⟩
  | stopped h g =>
    obtain rfl : s₁ = s := hstop h g rfl
    dsimp only
    split
    · exact ⟨name, key, .itself, .same⟩
    · next dest hdest =>
      refine ⟨dest, none, hredirected h g dest rfl hdest, ?_⟩
      have hout₂ : Outcome s₁ uid cl dest none now (s₁.joinAt uid cl dest none now).1 :=
        (joinAt_ends dest none).1
      generalize s₁.joinAt uid cl dest none now = r₂ at hout₂
      obtain ⟨s₂, e₂⟩ := r₂
      cases e₂ <;> exact hout₂

variable {s' : Doors}

/-- Where a JOIN finds an invitation afterwards, there was one before. -/
theorem Outcome.invited (h : Outcome s uid cl name key now s') {k c : Nat} {g' : Gate}
    (hk : s'.chans k = some g') (hc : c ∈ g'.invited.1) :
    ∃ g, s.chans k = some g ∧ c ∈ g.invited.1 := by
  have hwrite : ∀ {t : Doors} {k₀ : Nat} {g₀ : Gate}, (t.write k₀ g₀).chans k = some g' →
      k = k₀ ∧ g₀ = g' ∨ t.chans k = some g' := by
    intro t k₀ g₀ ht
    by_cases hkk : k = k₀
    · rw [hkk, Doors.write, Doors.update_same] at ht
      exact .inl ⟨hkk, Option.some.inj ht⟩
    · rw [Doors.write, Doors.update_other t hkk] at ht
      exact .inr ht
  cases h with
  | same => exact ⟨g', hk, hc⟩
  | tried k₀ g hfind =>
    rcases hwrite hk with ⟨rfl, rfl⟩ | hold
    · rw [attempt_invited] at hc
      exact ⟨g, Doors.found hfind, hc⟩
    · exact ⟨g', hold, hc⟩
  | entered k₀ g g₁ hfind hnot hsame hpass =>
    rcases hwrite hk with ⟨rfl, rfl⟩ | hold
    · refine ⟨g, Doors.found hfind, ?_⟩
      rw [← hsame.2]
      exact enter_invited g₁ cl uid false hc
    · exact ⟨g', hold, hc⟩
  | made hvalid hfree hmay =>
    rcases hwrite hk with ⟨rfl, rfl⟩ | hold
    · exact absurd (enter_invited _ cl uid true hc) (List.not_mem_nil)
    · exact ⟨g', hold, hc⟩

/-- Who comes in by a JOIN is the user who sent it, and has no invitation left. -/
theorem Outcome.came (hn : s.Numbered) (h : Outcome s uid cl name key now s') {k : Nat}
    {uid' : Text} (hout : ¬ s.In k uid') (hin : s'.In k uid') :
    uid.1 = uid' ∧ (∀ g', s'.chans k = some g' → cl.connId ∉ g'.invited.1) ∧
      (s.chans k = none ∧ s.serverFindChannel name = none ∧ s.mayCreate cl name = true ∧
          (∃ g', s'.chans k = some g' ∧ g'.name = name) ∨
        ∃ g, s.serverFindChannel name = some (k, g) ∧
          (cl.oper = true ∨ Passes (· ∈ g.invited.1) s g uid.1 cl key now)) := by
  obtain ⟨g', hg', hu⟩ := hin
  have hother : ∀ {k₀ : Nat} {t : Doors} {g₀ : Gate}, t.chans = s.chans →
      (t.write k₀ g₀).chans k = some g' → k = k₀ ∧ g₀ = g' := by
    intro k₀ t g₀ ht hw
    by_cases hkk : k = k₀
    · rw [hkk, Doors.write, Doors.update_same] at hw
      exact ⟨hkk, Option.some.inj hw⟩
    · rw [Doors.write, Doors.update_other t hkk, ht] at hw
      exact absurd ⟨g', hw, hu⟩ hout
  cases h with
  | same => exact absurd ⟨g', hg', hu⟩ hout
  | tried k₀ g hfind =>
    obtain ⟨rfl, rfl⟩ := hother rfl hg'
    rw [has_congr (attempt_toChannel g now)] at hu
    exact absurd ⟨g, Doors.found hfind, hu⟩ hout
  | entered k₀ g g₁ hfind hnot hsame hpass =>
    obtain ⟨rfl, rfl⟩ := hother rfl hg'
    refine ⟨?_, fun g₂ hg₂ => ?_, .inr ⟨g, hfind, hpass⟩⟩
    · rcases (has_enter g₁ cl uid false uid').mp hu with h | h
      · rw [has_congr hsame.1] at h
        exact absurd ⟨g, Doors.found hfind, h⟩ hout
      · exact h
    · rw [hg'] at hg₂
      obtain rfl := Option.some.inj hg₂
      exact not_mem_enter g₁ cl uid false
  | made hvalid hfree hmay =>
    obtain ⟨rfl, rfl⟩ := hother rfl hg'
    refine ⟨?_, fun g₂ hg₂ => ?_, .inl ⟨hn _ (Nat.le_refl _), hfree, hmay, _, hg', ?_⟩⟩
    · rcases (has_enter _ cl uid true uid').mp hu with h | h
      · cases h
      · exact h
    · rw [hg'] at hg₂
      obtain rfl := Option.some.inj hg₂
      exact not_mem_enter _ cl uid true
    · rw [Gate.enter, addMember_name]
      rfl

end Join

/-! ## 8. One step

Here the events are taken apart: which of them invite, which use an invitation up, and by what right
somebody comes in.
-/

/-- Somebody who may do so invites connection `c` into channel number `k`: a member who has ops
there or is an oper, or a server or service that vouches for it. -/
inductive Invites (s : Doors) (k c : Nat) : DoorEvent → Prop
  | member (uid target name : Text) (g : Gate) (cl other : Caller) (hk : s.chans k = some g)
    (hcl : s.people uid = some cl) (hother : s.people target = some other)
    (hc : other.connId = c) (hin : g.has uid = true) (hout : g.has target = false)
    (hops : g.hasOps uid = true ∨ cl.oper = true) :
    Invites s k c (.invite uid target name false)
  | vouched (target name : Text) (services : Bool) (g : Gate) (other : Caller)
    (hk : s.chans k = some g) (hother : s.people target = some other) (hc : other.connId = c) :
    Invites s k c (.vouchedInvite target name services)

/-- Connection `c` comes into channel number `k` by a JOIN. A join by force is no use of an
invitation. -/
def Uses (s : Doors) (k c : Nat) (e : DoorEvent) : Prop :=
  ∃ uid name key now cl, e = .join uid name key now ∧ s.people uid.1 = some cl ∧ cl.connId = c ∧
    ¬ s.In k uid.1 ∧ (s.step e).In k uid.1

/-- A step that may bring `uid` into channel number `k`: a JOIN that makes the channel, under the
name that it tries and may make; a JOIN that finds it there and passes its checks with the key that
it tries; or one that was forced or came over a link. -/
inductive Right (invited : Nat → Prop) (s : Doors) (k : Nat) (uid : Registered) : DoorEvent → Prop
  | made (name key now cl dest key') (hcl : s.people uid.1 = some cl)
    (htry : Tries s uid cl name key now dest key') (hfree : s.chans k = none)
    (hnone : s.serverFindChannel dest = none) (hmay : s.mayCreate cl dest = true)
    (hname : ∃ g, (s.step (.join uid name key now)).chans k = some g ∧ g.name = dest) :
    Right invited s k uid (.join uid name key now)
  | passed (name key now cl g dest key') (hcl : s.people uid.1 = some cl)
    (htry : Tries s uid cl name key now dest key')
    (hfind : s.serverFindChannel dest = some (k, g))
    (h : cl.oper = true ∨ Passes invited s g uid.1 cl key' now) :
    Right invited s k uid (.join uid name key now)
  | forced (name now) : Right invited s k uid (.forceJoin uid name now)
  | link (name now) : Right invited s k uid (.linkJoin uid name now)

namespace Doors

variable {s : Doors}

/-- What `cmd_force_join` and `handle_join` leave: one member more, or a channel with one. -/
inductive Brought (s : Doors) (uid : Registered) : Doors → Prop
  | same : Brought s uid s
  | added (k : Nat) (g : Gate) (m : Member) (hk : s.chans k = some g) (hm : m.client = uid.1) :
    Brought s uid (s.write k { g with toChannel := channelAddMember g.toChannel m })
  | made (g : Gate) (c : Channel) (m : Member) (hc : c.members = []) (hi : g.invited.1 = [])
    (hm : m.client = uid.1) :
    Brought s uid ({ s with nextChan := s.nextChan + 1 }.write s.nextChan
      { g with toChannel := channelAddMember c m })

theorem brought_cmdForceJoin (uid : Registered) (name : Text) (now : Int) :
    Brought s uid (s.cmdForceJoin uid name now) := by
  rw [cmdForceJoin]
  by_cases h : ircValidChannel name 50 = true
  · rw [dif_pos h]
    cases hfind : s.serverFindChannel name with
    | some x => exact .added x.1 x.2 _ (found hfind) rfl
    | none => exact .made (s.freshGate name h now) _ _ rfl rfl rfl
  · rw [dif_neg h]
    exact .same

theorem brought_handleJoin (uid : Registered) (name : Text) (now : Int) :
    Brought s uid (s.handleJoin uid name now) := by
  rw [handleJoin]
  by_cases h : ircValidChannel name 50 = true
  · rw [dif_pos h]
    cases hfind : s.serverFindChannel name with
    | some x => exact .added x.1 x.2 _ (found hfind) rfl
    | none => exact .made (s.freshGate name h now) _ _ rfl rfl rfl
  · rw [dif_neg h]
    exact .same

variable {s' : Doors} {uid : Registered}

theorem Brought.invited (h : Brought s uid s') {k c : Nat} {g' : Gate}
    (hk : s'.chans k = some g') (hc : c ∈ g'.invited.1) :
    ∃ g, s.chans k = some g ∧ c ∈ g.invited.1 := by
  cases h with
  | same => exact ⟨g', hk, hc⟩
  | added k₀ g m hg hm =>
    by_cases hkk : k = k₀
    · rw [hkk, write, update_same] at hk
      obtain rfl := Option.some.inj hk
      exact ⟨g, by rw [hkk, hg], hc⟩
    · rw [write, update_other s hkk] at hk
      exact ⟨g', hk, hc⟩
  | made g c₀ m hc₀ hi hm =>
    by_cases hkk : k = s.nextChan
    · rw [hkk, write, update_same] at hk
      obtain rfl := Option.some.inj hk
      rw [hi] at hc
      cases hc
    · rw [write, update_other _ hkk] at hk
      exact ⟨g', hk, hc⟩

theorem Brought.came (h : Brought s uid s') {k : Nat} {uid' : Text} (hout : ¬ s.In k uid')
    (hin : s'.In k uid') : uid.1 = uid' := by
  obtain ⟨g', hk, hu⟩ := hin
  cases h with
  | same => exact absurd ⟨g', hk, hu⟩ hout
  | added k₀ g m hg hm =>
    by_cases hkk : k = k₀
    · rw [hkk, write, update_same] at hk
      obtain rfl := Option.some.inj hk
      rcases (has_add g.toChannel m uid').mp hu with hold | hnew
      · exact absurd ⟨g, by rw [hkk, hg], hold⟩ hout
      · exact hm.symm.trans hnew
    · rw [write, update_other s hkk] at hk
      exact absurd ⟨g', hk, hu⟩ hout
  | made g c m hc hi hm =>
    by_cases hkk : k = s.nextChan
    · rw [hkk, write, update_same] at hk
      obtain rfl := Option.some.inj hk
      rcases (has_add c m uid').mp hu with hold | hnew
      · rw [channelFindMember, hc] at hold
        cases hold
      · exact hm.symm.trans hnew
    · rw [write, update_other _ hkk] at hk
      exact absurd ⟨g', hk, hu⟩ hout

/-- What an INVITE leaves: nothing new, or one invitation by who may give it. An oldest one may be
gone for it. -/
inductive Given (s : Doors) (e : DoorEvent) : Doors → Prop
  | nothing : Given s e s
  | given (k : Nat) (g : Gate) (c : Nat) (hk : s.chans k = some g) (hi : Invites s k c e) :
    Given s e (s.write k { g with invited := channelInviteAdd g.invited c })

theorem given_cmdInvite (uid target name : Text) (silenced : Bool) :
    Given s (.invite uid target name silenced) (s.cmdInvite uid target name silenced) := by
  rw [cmdInvite]
  split
  · next cl other hcl hother =>
    by_cases h1 : ircValidChannel name 50 = false ∨ silenced = true
    · rw [if_pos h1]
      exact .nothing
    rw [if_neg h1]
    have hsil : silenced = false := Bool.eq_false_of_not_eq_true fun h => h1 (.inr h)
    split
    · exact .nothing
    split
    · exact .nothing
    cases hfind : s.serverFindChannel name with
    | none => exact .nothing
    | some x =>
      obtain ⟨k, g⟩ := x
      dsimp only
      split
      · exact .nothing
      next h2 =>
      split
      · exact .nothing
      next h3 =>
      split
      · exact .nothing
      split
      · next hi =>
        obtain ⟨hin, hout⟩ := not_or.mp h2
        refine .given k g other.connId (found hfind) ?_
        rw [hsil]
        refine .member uid target name g cl other (found hfind) hcl hother rfl
          (Bool.eq_true_of_not_eq_false hin) (Bool.eq_false_of_not_eq_true hout) ?_
        by_contra hno
        obtain ⟨ho1, ho2⟩ := not_or.mp hno
        exact h3 ⟨hi, Bool.eq_false_of_not_eq_true ho1, Bool.eq_false_of_not_eq_true ho2⟩
      · exact .nothing
  · exact .nothing

theorem given_vouchedInvite (target name : Text) (services : Bool) :
    Given s (.vouchedInvite target name services) (s.vouchedInvite target name services) := by
  rw [vouchedInvite]
  split
  · next other k g hother hfind =>
    split
    · exact .given k g other.connId (found hfind)
        (.vouched target name services g other (found hfind) hother rfl)
    · exact .nothing
  · exact .nothing

theorem Given.invited {e : DoorEvent} (h : Given s e s') {k c : Nat} {g' : Gate}
    (hk : s'.chans k = some g') (hc : c ∈ g'.invited.1) :
    Invites s k c e ∨ ∃ g, s.chans k = some g ∧ c ∈ g.invited.1 := by
  cases h with
  | nothing => exact .inr ⟨g', hk, hc⟩
  | given k₀ g₀ c₀ hg hi =>
    by_cases hkk : k = k₀
    · subst hkk
      rw [write, update_same] at hk
      obtain rfl := Option.some.inj hk
      rcases mem_inviteAdd hc with hold | rfl
      · exact .inr ⟨g₀, hg, hold⟩
      · exact .inl hi
    · rw [write, update_other s hkk] at hk
      exact .inr ⟨g', hk, hc⟩

theorem Given.isIn {e : DoorEvent} (h : Given s e s') {k : Nat} {uid' : Text}
    (hin : s'.In k uid') : s.In k uid' := by
  obtain ⟨g', hk, hu⟩ := hin
  cases h with
  | nothing => exact ⟨g', hk, hu⟩
  | given k₀ g₀ c₀ hg hi =>
    by_cases hkk : k = k₀
    · subst hkk
      rw [write, update_same] at hk
      obtain rfl := Option.some.inj hk
      exact ⟨g₀, hg, hu⟩
    · rw [write, update_other s hkk] at hk
      exact ⟨g', hk, hu⟩

/-- The steps that bring nobody in and invite nobody. -/
def Calm : DoorEvent → Prop
  | .join .. | .forceJoin .. | .linkJoin .. | .invite .. | .vouchedInvite .. => False
  | _ => True

theorem less_settings (g : Gate) (t : Settings) (rank : Text → Rank) (restart : Bool) :
    (withSettings g t rank restart).Less g := by
  refine ⟨fun uid h => ?_, fun _ h => h⟩
  rw [has_iff] at h ⊢
  obtain ⟨m, hm, hc⟩ := h
  obtain ⟨m', hm', rfl⟩ := List.mem_map.mp hm
  exact ⟨m', hm', hc⟩

theorem quiet_step {e : DoorEvent} (h : Calm e) : s.Quiet (s.step e) := by
  cases e with
  | config cfg => exact quiet_of_chans rfl
  | arrive uid cl remote =>
    rw [step]
    split
    · exact .refl s
    · exact quiet_of_chans rfl
  | change uid cl =>
    rw [step]
    split
    · exact quiet_of_chans rfl
    · exact .refl s
  | gone uid => exact (quiet_leaveAll s uid).trans (quiet_of_chans rfl)
  | join uid name key now => exact h.elim
  | forceJoin uid name now => exact h.elim
  | linkJoin uid name now => exact h.elim
  | part uid name =>
    refine quiet_onChannel fun k g hk => ?_
    split
    · exact quiet_leave hk uid
    · exact .refl s
  | invite uid target name silenced => exact h.elim
  | vouchedInvite target name services => exact h.elim
  | settings name t rank restart =>
    exact quiet_onChannel fun k g hk => quiet_write hk (less_settings g t rank restart)
  | rename old new =>
    refine quiet_onChannel fun k g hk => ?_
    by_cases h : ircValidChannel new 50 = true
    · rw [dif_pos h]
      split
      · exact .refl s
      · exact quiet_write hk ⟨fun _ hu => hu, fun _ hc => hc⟩
    · rw [dif_neg h]
      exact .refl s

/-- **Invitations after a step**: one that is given, or one of before that is not used. Every kind
of step is gone through here, and nowhere else. -/
theorem invited_step (hn : s.Numbered) (e : DoorEvent) {k c : Nat} {g' : Gate}
    (hk : (s.step e).chans k = some g') (hc : c ∈ g'.invited.1) :
    Invites s k c e ∨ ((∃ g, s.chans k = some g ∧ c ∈ g.invited.1) ∧ ¬ Uses s k c e) := by
  have hcalm : Calm e → Invites s k c e ∨
      ((∃ g, s.chans k = some g ∧ c ∈ g.invited.1) ∧ ¬ Uses s k c e) := by
    intro h
    obtain ⟨g, hg, hl⟩ := quiet_step h k g' hk
    refine .inr ⟨⟨g, hg, hl.2 hc⟩, ?_⟩
    rintro ⟨uid, name, key, now, cl, rfl, -⟩
    exact h
  cases e with
  | join uid name key now =>
    refine .inr ?_
    rw [step] at hk
    cases hcl : s.people uid.1 with
    | none =>
      rw [hcl] at hk
      refine ⟨⟨g', hk, hc⟩, ?_⟩
      rintro ⟨uid', name', key', now', cl', he, hcl', -⟩
      cases he
      rw [hcl] at hcl'
      cases hcl'
    | some cl =>
      rw [hcl] at hk
      obtain ⟨dest, key', -, hout⟩ := @doJoinOne_outcome s uid cl now name key
      refine ⟨hout.invited hk hc, ?_⟩
      rintro ⟨uid', name', key', now', cl', he, hcl', rfl, hbefore, hafter⟩
      cases he
      rw [hcl] at hcl'
      obtain rfl := Option.some.inj hcl'
      rw [step, hcl] at hafter
      exact (hout.came hn hbefore hafter).2.1 g' hk hc
  | forceJoin uid name now =>
    refine .inr ⟨(brought_cmdForceJoin uid name now).invited hk hc, ?_⟩
    rintro ⟨uid', name', key', now', cl', he, -⟩
    cases he
  | linkJoin uid name now =>
    refine .inr ⟨(brought_handleJoin uid name now).invited hk hc, ?_⟩
    rintro ⟨uid', name', key', now', cl', he, -⟩
    cases he
  | invite uid target name silenced =>
    have hno : ¬ Uses s k c (.invite uid target name silenced) := by
      rintro ⟨uid', name', key', now', cl', he, -⟩
      cases he
    exact ((given_cmdInvite uid target name silenced).invited hk hc).imp id fun h => ⟨h, hno⟩
  | vouchedInvite target name services =>
    have hno : ¬ Uses s k c (.vouchedInvite target name services) := by
      rintro ⟨uid', name', key', now', cl', he, -⟩
      cases he
    exact ((given_vouchedInvite target name services).invited hk hc).imp id fun h => ⟨h, hno⟩
  | config | arrive | change | gone | part | settings | rename => exact hcalm trivial

/-- **Who comes in at a step** has a right to it, by the invitations as they are kept. What they
stand for in the run is a matter for `open_of_invited`. -/
theorem came_step (hn : s.Numbered) (e : DoorEvent) {k : Nat} {uid : Text} (hout : ¬ s.In k uid)
    (hin : (s.step e).In k uid) :
    ∃ u : Registered, u.1 = uid ∧
      Right (fun c => ∃ g, s.chans k = some g ∧ c ∈ g.invited.1) s k u e := by
  have hcalm : Calm e → ∃ u : Registered, u.1 = uid ∧
      Right (fun c => ∃ g, s.chans k = some g ∧ c ∈ g.invited.1) s k u e := fun h =>
    absurd ((quiet_step h).isIn hin) hout
  cases e with
  | join u name key now =>
    rw [step] at hin
    cases hcl : s.people u.1 with
    | none =>
      rw [hcl] at hin
      exact absurd hin hout
    | some cl =>
      rw [hcl] at hin
      obtain ⟨dest, key', htry, hjoin⟩ := @doJoinOne_outcome s u cl now name key
      obtain ⟨hu, -, ⟨hfree, hnone, hmay, hname⟩ | ⟨g, hfind, hpass⟩⟩ := hjoin.came hn hout hin
      · refine ⟨u, hu, .made name key now cl dest key' hcl htry hfree hnone hmay ?_⟩
        rw [step, hcl]
        exact hname
      · refine ⟨u, hu, .passed name key now cl g dest key' hcl htry hfind (hpass.imp id ?_)⟩
        exact fun hp => hp.imp fun c hc => ⟨g, found hfind, hc⟩
  | forceJoin u name now =>
    exact ⟨u, (brought_cmdForceJoin u name now).came hout hin, .forced name now⟩
  | linkJoin u name now =>
    exact ⟨u, (brought_handleJoin u name now).came hout hin, .link name now⟩
  | invite u target name silenced =>
    exact absurd ((given_cmdInvite u target name silenced).isIn hin) hout
  | vouchedInvite target name services =>
    exact absurd ((given_vouchedInvite target name services).isIn hin) hout
  | config | arrive | change | gone | part | settings | rename => exact hcalm trivial

/-! ## 9. Numbers are not used again

A new channel takes a number above all that were taken, so an invitation into number `k` was given
for the very channel that it opens.
-/

theorem Numbered.quiet (hn : s.Numbered) (h : s.Quiet s') (hle : s.nextChan ≤ s'.nextChan) :
    s'.Numbered := by
  intro k hk
  cases hg : s'.chans k with
  | none => rfl
  | some g =>
    obtain ⟨g₀, hg₀, -⟩ := h k g hg
    rw [hn k (hle.trans hk)] at hg₀
    cases hg₀

theorem Numbered.write {k : Nat} {g : Gate} (hn : s.Numbered) (hk : s.chans k = some g)
    (g' : Gate) : (s.write k g').Numbered := by
  intro k' hk'
  have hkk : k' ≠ k := by
    rintro rfl
    rw [hn k' hk'] at hk
    cases hk
  rw [Doors.write, update_other s hkk]
  exact hn k' hk'

theorem Numbered.made (hn : s.Numbered) (g : Gate) :
    ({ s with nextChan := s.nextChan + 1 }.write s.nextChan g).Numbered := by
  intro k hk
  have hlt : s.nextChan < k := hk
  rw [Doors.write, update_other _ hlt.ne']
  exact hn k hlt.le

theorem leave_nextChan (s : Doors) (k : Nat) (g : Gate) (uid : Text) :
    (s.leave k g uid).nextChan = s.nextChan := by
  rw [leave, serverMaybeDropChannel]
  split <;> rfl

theorem leaveAll_nextChan (s : Doors) (uid : Text) : (s.leaveAll uid).nextChan = s.nextChan := by
  rw [leaveAll]
  generalize List.range s.nextChan = ks
  induction ks generalizing s with
  | nil => rfl
  | cons k ks ih =>
    rw [List.foldl_cons, ih]
    split
    · split
      · exact leave_nextChan s k _ uid
      · rfl
    · rfl

theorem onChannel_nextChan {name : Text} {f : Nat → Gate → Doors}
    (h : ∀ k g, (f k g).nextChan = s.nextChan) : (s.onChannel name f).nextChan = s.nextChan := by
  rw [onChannel]
  split
  · exact h _ _
  · rfl

theorem calm_nextChan {e : DoorEvent} (h : Calm e) : (s.step e).nextChan = s.nextChan := by
  cases e with
  | config cfg => rfl
  | arrive uid cl remote =>
    rw [step]
    split <;> rfl
  | change uid cl =>
    rw [step]
    split <;> rfl
  | gone uid => exact leaveAll_nextChan s uid
  | join uid name key now => exact h.elim
  | forceJoin uid name now => exact h.elim
  | linkJoin uid name now => exact h.elim
  | part uid name =>
    refine onChannel_nextChan fun k g => ?_
    split
    · exact leave_nextChan s k g uid
    · rfl
  | invite uid target name silenced => exact h.elim
  | vouchedInvite target name services => exact h.elim
  | settings name t rank restart => exact onChannel_nextChan fun _ _ => rfl
  | rename old new =>
    refine onChannel_nextChan fun k g => ?_
    by_cases h : ircValidChannel new 50 = true
    · rw [dif_pos h]
      split <;> rfl
    · rw [dif_neg h]

theorem Brought.numbered (h : Brought s uid s') (hn : s.Numbered) : s'.Numbered := by
  cases h with
  | same => exact hn
  | added k g m hk hm => exact hn.write hk _
  | made g c m hc hi hm => exact hn.made _

theorem Given.numbered {e : DoorEvent} (h : Given s e s') (hn : s.Numbered) : s'.Numbered := by
  cases h with
  | nothing => exact hn
  | given k g c hk hi => exact hn.write hk _

theorem numbered_step (hn : s.Numbered) (e : DoorEvent) : (s.step e).Numbered := by
  have hcalm : Calm e → (s.step e).Numbered := fun h =>
    hn.quiet (quiet_step h) (calm_nextChan h).ge
  cases e with
  | join uid name key now =>
    rw [step]
    split
    · next cl hcl =>
      obtain ⟨dest, key', -, hout⟩ := @doJoinOne_outcome s uid cl now name key
      generalize (s.doJoinOne uid cl name key now).1 = t at hout
      cases hout with
      | same => exact hn
      | tried k g hfind => exact hn.write (found hfind) _
      | entered k g g' hfind hnot hsame hpass => exact hn.write (found hfind) _
      | made h hfree hmay => exact hn.made _
    · exact hn
  | forceJoin uid name now => exact (brought_cmdForceJoin uid name now).numbered hn
  | linkJoin uid name now => exact (brought_handleJoin uid name now).numbered hn
  | invite uid target name silenced => exact (given_cmdInvite uid target name silenced).numbered hn
  | vouchedInvite target name services =>
    exact (given_vouchedInvite target name services).numbered hn
  | config | arrive | change | gone | part | settings | rename => exact hcalm trivial

/-! ## 10. Runs

The two facts about a step become two about a run: an invitation that is held is open, and whoever
is in came in by right.
-/

variable (cfg : JoinConfig)

theorem run_concat (es : List DoorEvent) (e : DoorEvent) :
    run cfg (es ++ [e]) = (run cfg es).step e := by
  rw [run, List.foldl_concat]
  rfl

/-- A line does what its steps do one after the other. -/
theorem line_eq (s : Doors) (l : DoorLine) : s.line l = (s.stepsOf l).foldl step s := by
  cases l with
  | event e => rfl
  | join uid params now => rfl

/-- **A run of lines** is the run of the steps that the lines unfold to. So whatever holds of every
run of steps holds of what clients can send. -/
theorem runLines_eq (ls : List DoorLine) : runLines cfg ls = run cfg ((boot cfg).unfolded ls) := by
  have hfold : ∀ s : Doors, ls.foldl line s = (s.unfolded ls).foldl step s := by
    induction ls with
    | nil => exact fun _ => rfl
    | cons l ls ih =>
      intro s
      rw [List.foldl_cons, ih, unfolded, List.foldl_append, ← line_eq]
  exact hfold (boot cfg)

theorem numbered_run (es : List DoorEvent) : (run cfg es).Numbered := by
  induction es using List.reverseRecOn with
  | nil => exact fun _ _ => rfl
  | append_singleton es e ih =>
    rw [run_concat]
    exact numbered_step ih e

/-- Connection `c` was invited into channel number `k`, and has not come in by a JOIN since. It is
said of the run alone, and not of what the server keeps. -/
def Open (es : List DoorEvent) (k c : Nat) : Prop :=
  ∃ a e b, es = a ++ e :: b ∧ Invites (run cfg a) k c e ∧
    ∀ b₁ e' b₂, b = b₁ ++ e' :: b₂ → ¬ Uses (run cfg (a ++ e :: b₁)) k c e'

variable {cfg}

theorem split_concat {b b₁ b₂ : List DoorEvent} {e e' : DoorEvent}
    (h : b ++ [e] = b₁ ++ e' :: b₂) :
    (b₁ = b ∧ e' = e) ∨ ∃ b₃, b = b₁ ++ e' :: b₃ := by
  rcases List.eq_nil_or_concat b₂ with rfl | ⟨b₃, x, rfl⟩
  · obtain ⟨rfl, he⟩ := List.append_inj' h rfl
    exact .inl ⟨rfl, (List.cons.inj he).1.symm⟩
  · refine .inr ⟨b₃, ?_⟩
    rw [List.concat_eq_append, ← List.cons_append, ← List.append_assoc] at h
    exact (List.append_inj' h rfl).1

/-- **An invitation** in a list is open: it was given, and it has not been used. The induction is
on the run from its end, since the last step decides which of the two happened last. -/
theorem open_of_invited (es : List DoorEvent) {k c : Nat} {g : Gate}
    (hk : (run cfg es).chans k = some g) (hc : c ∈ g.invited.1) : Open cfg es k c := by
  induction es using List.reverseRecOn generalizing g with
  | nil => cases hk
  | append_singleton es e ih =>
    rw [run_concat] at hk
    rcases invited_step (numbered_run cfg es) e hk hc with hi | ⟨⟨g₀, hg₀, hc₀⟩, huse⟩
    · refine ⟨es, e, [], rfl, hi, fun b₁ e' b₂ hb => ?_⟩
      exact absurd hb.symm (by simp)
    · obtain ⟨a, e₀, b, rfl, hi, hun⟩ := ih hg₀ hc₀
      refine ⟨a, e₀, b ++ [e], by simp, hi, fun b₁ e' b₂ hb => ?_⟩
      rcases split_concat hb with ⟨rfl, rfl⟩ | ⟨b₃, hb⟩
      · exact huse
      · exact hun b₁ e' b₃ hb

/-- `uid` came into channel number `k` by a step that had the right to it, and has been in it
since. -/
def CameIn (cfg : JoinConfig) (es : List DoorEvent) (k : Nat) (uid : Text) : Prop :=
  ∃ (u : Registered) (a : List DoorEvent) (e : DoorEvent) (b : List DoorEvent), u.1 = uid ∧
    es = a ++ e :: b ∧ ¬ (run cfg a).In k uid ∧
    (∀ b', b' <+: b → (run cfg (a ++ e :: b')).In k uid) ∧
    Right (Open cfg a k) (run cfg a) k u e

theorem right_imp {p q : Nat → Prop} {k : Nat} {u : Registered} {e : DoorEvent}
    (h : Right p s k u e) (hpq : ∀ c, p c → q c) : Right q s k u e := by
  cases h with
  | made name key now cl dest key' hcl htry hfree hnone hmay hname =>
    exact .made name key now cl dest key' hcl htry hfree hnone hmay hname
  | passed name key now cl g dest key' hcl htry hfind h =>
    exact .passed name key now cl g dest key' hcl htry hfind (h.imp id fun hp => hp.imp hpq)
  | forced name now => exact .forced name now
  | link name now => exact .link name now

/-- Who is in a channel after some steps came in by one of them.  The induction is on the steps: the
last one brought the user in, and `came_step` says by which right, or the user was in before it and
has stayed.  What `came_step` finds in the list of invitations is open by `open_of_invited`. -/
theorem cameIn_of_in (es : List DoorEvent) {k : Nat} {uid : Text}
    (h : (run cfg es).In k uid) : CameIn cfg es k uid := by
  induction es using List.reverseRecOn with
  | nil =>
    obtain ⟨g, hg, -⟩ := h
    cases hg
  | append_singleton es e ih =>
    by_cases hold : (run cfg es).In k uid
    · obtain ⟨u, a, e₀, b, hu, rfl, hout, hstay, hright⟩ := ih hold
      refine ⟨u, a, e₀, b ++ [e], hu, by simp, hout, fun b' hb' => ?_, hright⟩
      rcases List.prefix_concat_iff.mp hb' with rfl | hb'
      · rw [← List.cons_append, ← List.append_assoc]
        exact h
      · exact hstay b' hb'
    · rw [run_concat] at h
      obtain ⟨u, hu, hright⟩ := came_step (numbered_run cfg es) e hold h
      refine ⟨u, es, e, [], hu, rfl, hold, fun b' hb' => ?_, right_imp hright ?_⟩
      · rw [List.prefix_nil.mp hb', run_concat]
        exact h
      · rintro c ⟨g, hg, hc⟩
        exact open_of_invited es hg hc

theorem isIn_of_any {k : Nat} {uid : Text} (h : (s.chans k).any (fun g => g.has uid) = true) :
    s.In k uid := by
  rw [Option.any_eq_true] at h
  obtain ⟨g, hg, hu⟩ := h
  exact ⟨g, hg, hu⟩

end Doors

/-! ## 11. An invitation -/

def demoJoinConfig : JoinConfig := ⟨none, false, [], ∅⟩

def demoCaller (nick : Text) : Caller where
  connId := 0
  id := ⟨nick, "u".toList, "host".toList, "host".toList, "10.0.0.1".toList, [], false, [], false⟩
  certfp := []
  oper := false
  noPm := false
  regOnly := false

/-- One makes two channels and closes the first with a key as well, and invites another, who comes
with the key. -/
def demoInvitation : List DoorLine := [
  .event (.arrive ['A'] (demoCaller "ann".toList) false),
  .event (.arrive ['B'] (demoCaller "bob".toList) false),
  .join ⟨['A'], by decide⟩ ["#c,#d".toList] 0,
  .event (.settings "#c".toList { Settings.none with modes := {.i, .k}, key := "tea".toList }
    (fun _ => Rank.grant Rank.none .op) false),
  .event (.invite ['A'] ['B'] "#c".toList false),
  .join ⟨['B'], by decide⟩ ["#c,#d".toList, "tea".toList] 1]

end SekurIRCd.JoinGate
