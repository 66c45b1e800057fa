/-
# Delayed joins

In a `+D` channel a member without a rank is hidden until it speaks, and a `+u` channel hides its
audience.  Whom a member can see is decided in one place (`channel_member_visible`), and those who
announce a member have to ask there.  JOIN, PART and NAMES ask.  Two kinds of announcement do not:
`server_broadcast_channel`, which KICK and SAPART use, tells the whole channel, and
`server_send_common_channels` tells everybody in any channel of the client: QUIT, NICK, ACCOUNT,
AWAY, CHGHOST and SETNAME.

`hidden_members_iff` says when a run keeps hidden members hidden: exactly when it never kicks one,
and never announces one who is hidden, before somebody who shares no other channel with them.

What is sent to those who asked for it by nick (MONITOR, WHOIS) does not come from a channel and is
left out, and so are TOPIC and MODE.  The history keeps nothing of a `+D` channel.
-/
import SekurIRCd.Mode.Change
import SekurIRCd.Net.Existence
import Mathlib.Data.List.AList
import Mathlib.Logic.Function.Basic

namespace SekurIRCd

open CLib

namespace DelayedJoin

/-! ## 1. Clients and channels

Clients and channels with just what decides about lines. A member's hidden flag is in the
membership. -/

/-- The `CAP_*` bits that announcements look at. -/
inductive Cap
  | extendedJoin | accountNotify | awayNotify | chghost | setname | multiPrefix
  | userhostInNames | noImplicitNames | channelRename
deriving DecidableEq, Repr

/-- `client_t`. Only clients of this server have a connection (`0 <= fd`), and only they are told
anything. -/
structure Person extends Client where
  connected : Bool
  quitting : Bool
  caps : Finset Cap
  account : Text
  realname : Text
deriving DecidableEq

/-- `client_send` gets through. -/
def Person.listens (p : Person) : Bool := p.connected && !p.quitting

/-- The members are a hash by client: nobody is in it twice. -/
abbrev Keyed := {chan : Channel // (chan.members.map Member.client).Nodup}

/-- The clients by UID, and `srv->channels` by casefolded name.  What a client keeps of the
channels it is in is read off them. -/
structure Floor where
  name : Text
  people : Text → Person
  chans : AList fun _ : Text => Keyed

/-- What an announcement is. -/
inductive Verb
  | join | names | part | kick | quit | nick | account | away | chghost | setname
deriving DecidableEq, Repr

/-- A line: whom it is about, the channel it names, by its key, and the text. -/
structure Line where
  verb : Verb
  about : List Text
  chan : Option Text
  text : Text
deriving DecidableEq

/-- A line as it is sent, with how things are when it is. -/
structure Told where
  floor : Floor
  dest : Text
  line : Line

/-- `casefold_name` of a channel called `name`. -/
def chanKey (name : Text) : Text := ircCasefold chanNameLen name

/-- `cl->channels`. -/
def Floor.channelsOf (fl : Floor) (uid : Text) : List (Sigma fun _ : Text => Keyed) :=
  fl.chans.entries.filter fun e => (channelFindMember e.2.1 uid).isSome

/-- `client_send`. -/
def Floor.send (fl : Floor) (dest : Text) (line : Line) : List Told :=
  if (fl.people dest).listens = true then [⟨fl, dest, line⟩] else []

def Floor.put (fl : Floor) (key : Text) (chan : Keyed) : Floor :=
  { fl with chans := fl.chans.insert key chan }

/-! ## 2. Who is told

Three ways to tell of a member: whom it is visible to, the whole channel, and everybody in any
channel of it. -/

/-- `channel_member_visible`; there is no `viewer` where the asker is not in the channel. Every
member sees itself and nobody else sees a hidden one; in a `+u` channel the audience is seen by the
ops only. -/
def channelMemberVisible (chan : Channel) (subject : Member) (viewer : Option Member) : Bool :=
  if viewer.any (fun v => v.client = subject.client) then true
  else if subject.hidden then false
  else if .auditorium ∈ chan.modes then
    if .voice ∈ subject.rank.bits ∨ .halfop ∈ subject.rank.bits ∨ .op ∈ subject.rank.bits then true
    else viewer.any fun v => .halfop ∈ v.rank.bits ∨ .op ∈ v.rank.bits
  else true

/-- `server_broadcast_channel(chan, line, NULL)`. -/
def Floor.serverBroadcastChannel (fl : Floor) (chan : Channel) (line : Line) : List Told :=
  chan.members.flatMap fun m => fl.send m.client line

/-- The loop of `server_send_common_channels` over the members of the client's channels;
`marked` are those with this round's `fanout_mark`. -/
def Floor.commonLoop (fl : Floor) (line : Line) (cap : Option Cap) :
    List Text → List Text → List Told
  | [], _ => []
  | c :: cs, marked =>
    if marked.contains c then fl.commonLoop line cap cs marked
    else (if cap.all (· ∈ (fl.people c).caps) then fl.send c line else []) ++
      fl.commonLoop line cap cs (c :: marked)

/-- `server_send_common_channels`. -/
def Floor.serverSendCommonChannels (fl : Floor) (uid : Text) (line : Line) (cap : Option Cap) :
    List Told :=
  fl.commonLoop line cap
    ((fl.channelsOf uid).flatMap fun e => e.2.1.members.map Member.client) [uid]

/-! ## 3. JOIN, PART and NAMES -/

/-- The line from `p` of `irc_build(out, outsz, ..)`. -/
def fromClient (outsz : Nat) (p : Person) (verb : String) (params : List Text)
    (trailing : Option Text) : Text :=
  (ircBuild outsz [] (some (clientSource p.toClient)) verb.toList params trailing).text

def accountOrStar (p : Person) : Text := if p.account = [] then ['*'] else p.account

/-- `plain_join` and `ext_join`, whichever the reader takes. -/
def joinLine (key : Text) (chan : Channel) (uid : Text) (p reader : Person) : Line where
  verb := .join
  about := [uid]
  chan := some key
  text :=
    if .extendedJoin ∈ reader.caps then
      fromClient 600 p "JOIN" [chan.name, accountOrStar p] (some p.realname)
    else fromClient 400 p "JOIN" [chan.name] none

/-- `account_line`. -/
def accountLine (uid : Text) (p : Person) : Line :=
  ⟨.account, [uid], none, fromClient 300 p "ACCOUNT" [p.account] none⟩

/-- One entry of a NAMES reply. -/
def nameEntry (viewer : Person) (m : Member) (p : Person) : Text :=
  let marks := channelRankMarks m.rank
  let marks := if .multiPrefix ∈ viewer.caps then marks else marks.take 1
  clip (64 + 256 + 8)
    (if .userhostInNames ∈ viewer.caps then
      marks ++ p.nick ++ '!' :: ircIdentFor 66 p.user p.identConfirmed ++ '@' :: p.host
    else marks ++ p.nick)

/-- The loop of `send_names`: entries are collected while they fit. -/
def namesLoop (budget : Nat) : List (Text × Text) → Text → List Text → List (List Text × Text)
  | [], line, about => [(about, line)]
  | x :: xs, line, about =>
    if line ≠ [] ∧ budget < line.length + x.2.length + 1 then
      (about, line) :: namesLoop budget xs x.2 [x.1]
    else namesLoop budget xs (if line = [] then x.2 else line ++ ' ' :: x.2) (about ++ [x.1])

/-- `send_names`. -/
def Floor.sendNames (fl : Floor) (key : Text) (chan : Channel) (uid : Text) : List Told :=
  let cl := fl.people uid
  let overhead := fl.name.length + cl.nick.length + chan.name.length + 16
  let budget := min (if overhead < 510 - 64 then 510 - overhead else 64) 399
  let chantype : Text :=
    if .s ∈ chan.modes then ['@'] else if .p ∈ chan.modes then ['*'] else ['=']
  let viewer := channelFindMember chan uid
  let shown := chan.members.filter fun m => channelMemberVisible chan m viewer
  let entries := shown.map fun m => (m.client, nameEntry cl m (fl.people m.client))
  (namesLoop budget entries [] []).flatMap fun x =>
    fl.send uid ⟨.names, x.1, some key,
      (ircBuild 1024 [] (some fl.name) "353".toList [cl.nick, chantype, chan.name] (some x.2)).text⟩

/-- The part of `send_join_burst` that names members. -/
def Floor.sendJoinBurst (fl : Floor) (key : Text) (chan : Channel) (uid : Text) : List Told :=
  if .noImplicitNames ∈ (fl.people uid).caps then [] else fl.sendNames key chan uid

/-- `cmd_announce_join`. -/
def Floor.cmdAnnounceJoin (fl : Floor) (key : Text) (chan : Channel) (uid : Text) : List Told :=
  let cl := fl.people uid
  let subject := channelFindMember chan uid
  (chan.members.flatMap fun m =>
    if subject.any (fun s => !channelMemberVisible chan s (some m)) then []
    else
      let reader := fl.people m.client
      fl.send m.client (joinLine key chan uid cl reader) ++
        if cl.account ≠ [] ∧ .accountNotify ∈ reader.caps ∧ .extendedJoin ∉ reader.caps then
          fl.send m.client (accountLine uid cl)
        else []) ++
  if cl.remote then [] else fl.sendJoinBurst key chan uid

/-- `cmd_names`, for one channel. -/
def Floor.cmdNames (fl : Floor) (uid name : Text) : Floor × List Told :=
  match fl.chans.lookup (chanKey name) with
  | none => (fl, [])
  | some chan =>
    if (.s ∈ chan.1.modes ∨ .p ∈ chan.1.modes) ∧ (channelFindMember chan.1 uid).isNone then (fl, [])
    else (fl, fl.sendNames (chanKey name) chan.1 uid)

/-! ## 4. Members come -/

def Keyed.add (chan : Keyed) (m : Member) : Keyed where
  val := channelAddMember chan.1 m
  property := by
    unfold channelAddMember
    split
    · exact chan.2
    · rename_i h
      rw [List.map_append, List.map_singleton]
      refine chan.2.append (List.nodup_singleton _) fun uid hmem hm => h ?_
      obtain rfl := List.mem_singleton.mp hm
      obtain ⟨m', hm', he⟩ := List.mem_map.mp hmem
      exact List.find?_isSome.mpr ⟨m', hm', beq_iff_eq.mpr he⟩

def Keyed.remove (chan : Keyed) (uid : Text) : Keyed where
  val := channelRemoveMember chan.1 uid
  property := chan.2.sublist (List.filter_sublist.map _)

/-- A channel with the same clients in it. -/
def Keyed.as (chan : Keyed) (c : Channel)
    (h : c.members.map Member.client = chan.1.members.map Member.client) : Keyed :=
  ⟨c, h ▸ chan.2⟩

theorem map_client_map {ms : List Member} {f : Member → Member}
    (hf : ∀ m, (f m).client = m.client) :
    (ms.map f).map Member.client = ms.map Member.client := by
  rw [List.map_map]
  exact List.map_congr_left fun m _ => hf m

theorem updateMember_clients (chan : Channel) (uid : Text) {f : Member → Member}
    (hf : ∀ m, (f m).client = m.client) :
    (chan.updateMember uid f).members.map Member.client = chan.members.map Member.client :=
  map_client_map fun m => by split <;> first | exact hf m | rfl

theorem setRank_client (on : Bool) (b : RankBit) (m : Member) :
    (m.setRank on b).client = m.client := by
  cases on <;> rfl

theorem apply_clients (chan : Channel) (ch : Change) :
    (ch.apply chan).members.map Member.client = chan.members.map Member.client := by
  cases ch with
  | flag on b =>
    cases on with
    | true => rfl
    | false =>
      simp only [Change.apply]
      split
      · exact map_client_map fun _ => rfl
      · rfl
  | key v => cases v <;> rfl
  | limit v => cases v <;> rfl
  | redirect v => cases v <;> rfl
  | flood v => cases v <;> rfl
  | jthrot v => cases v <;> rfl
  | mask on kind m => cases on <;> cases kind <;> rfl
  | rank on b uid nick => exact updateMember_clients chan uid (setRank_client on b)

/-- `server_find_channel`, or the channel as it is made. -/
def Floor.findOr (fl : Floor) (name : Text) (h : ircValidChannel name 50 = true)
    (modes : Finset CMode) (now : Int) : Keyed :=
  (fl.chans.lookup (chanKey name)).getD
    ⟨{ newChannel name h now with modes := modes }, List.nodup_nil⟩

/-- A member comes and is announced. -/
def Floor.enter (fl : Floor) (key : Text) (chan : Keyed) (m : Member) : Floor × List Told :=
  if (channelFindMember chan.1 m.client).isSome then (fl, [])
  else
    let fl := fl.put key (chan.add m)
    (fl, fl.cmdAnnounceJoin key (chan.add m).1 m.client)

/-- `do_join_one`.  `admitted` is the verdict of its checks, and `modes` what a new channel starts
with. -/
def Floor.doJoinOne (fl : Floor) (cl : Registered) (name : Text) (admitted : Bool)
    (modes : Finset CMode) (now : Int) : Floor × List Told :=
  if h : ircValidChannel name 50 = true then
    if admitted = true then
      let chan := fl.findOr name h modes now
      let isNew := (fl.chans.lookup (chanKey name)).isNone
      fl.enter (chanKey name) chan
        (joiner cl isNew (decide (.delayjoin ∈ chan.1.modes) && !isNew))
    else (fl, [])
  else (fl, [])

/-- `cmd_force_join`: SAJOIN, the auto-joins and the services' JOIN hide nobody. -/
def Floor.cmdForceJoin (fl : Floor) (cl : Registered) (name : Text) (modes : Finset CMode)
    (now : Int) : Floor × List Told :=
  if h : ircValidChannel name 50 = true then
    fl.enter (chanKey name) (fl.findOr name h modes now)
      (joiner cl (fl.chans.lookup (chanKey name)).isNone false)
  else (fl, [])

/-- `handle_join`. -/
def Floor.handleJoin (fl : Floor) (cl : Registered) (name : Text) (now : Int) : Floor × List Told :=
  if h : ircValidChannel name 50 = true then
    let chan := fl.findOr name h ∅ now
    fl.enter (chanKey name) chan (joiner cl false (decide (.delayjoin ∈ chan.1.modes)))
  else (fl, [])

/-- What `handle_sjoin` does before it comes to the members: `settings` is what becomes of the
modes, and when we `lost` the comparison of timestamps our members lose their ranks. -/
def Floor.handleSjoin (fl : Floor) (name : Text) (settings : Settings) (lost : Bool) (now : Int) :
    Floor × List Told :=
  if h : ircValidChannel name 50 = true then
    let chan := fl.findOr name h ∅ now
    let unranked (m : Member) : Member := if lost then { m with rank := Rank.none } else m
    (fl.put (chanKey name) (chan.as
      { chan.1 with toSettings := settings, members := chan.1.members.map unranked }
      (map_client_map fun m => by cases lost <;> rfl)), [])
  else (fl, [])

/-- One member of an SJOIN. -/
def Floor.sjoinMember (fl : Floor) (cl : Registered) (name : Text) (rank : Rank) :
    Floor × List Told :=
  match fl.chans.lookup (chanKey name) with
  | none => (fl, [])
  | some chan =>
    let m := joiner cl false false
    fl.enter (chanKey name) chan { m with rank := rank }

/-! ## 5. Members go -/

/-- `channel_remove_member` and `server_maybe_drop_channel`. -/
def Floor.leave (fl : Floor) (key : Text) (chan : Keyed) (uid : Text) : Floor :=
  if (serverMaybeDropChannel (chan.remove uid).1).isSome then fl.put key (chan.remove uid)
  else { fl with chans := fl.chans.erase key }

/-- What is done with a member of a channel, if there is one. -/
def Floor.ifMember (fl : Floor) (uid name : Text) (f : Keyed → Member → Floor × List Told) :
    Floor × List Told :=
  match fl.chans.lookup (chanKey name) with
  | none => (fl, [])
  | some chan =>
    match channelFindMember chan.1 uid with
    | none => (fl, [])
    | some m => f chan m

/-- A PART line. -/
def partLine (outsz : Nat) (key : Text) (chan : Channel) (uid : Text) (p : Person)
    (reason : Option Text) : Line :=
  ⟨.part, [uid], some key, fromClient outsz p "PART" [chan.name] reason⟩

/-- What makes a member part or be kicked: a command, a line of a link, services or `+f`.  Each has a
buffer of its own for the line. -/
inductive Origin
  | command | link | services | flood
deriving DecidableEq, Repr

/-- `line` in `cmd_part` and `handle_part`. -/
def Origin.partRoom : Origin → Nat
  | .link => 500
  | _ => 510

/-- `line` in `cmd_sapart`, and `partline` of the services' PART. -/
def Origin.sapartRoom : Origin → Nat
  | .services => 300
  | _ => 500

/-- `line` in `cmd_kick`, `handle_kick` and `flood_kick`, and `kickline` of the services' KICK. -/
def Origin.kickRoom : Origin → Nat
  | .flood => 400
  | _ => 500

/-- `cmd_part`, for one channel, and `handle_part`. -/
def Floor.cmdPart (fl : Floor) (origin : Origin) (uid name : Text) (reason : Option Text) :
    Floor × List Told :=
  fl.ifMember uid name fun chan m =>
    (fl.leave (chanKey name) chan uid,
      chan.1.members.flatMap fun pm =>
        if channelMemberVisible chan.1 m (some pm) then
          fl.send pm.client (partLine origin.partRoom (chanKey name) chan.1 uid (fl.people uid) reason)
        else [])

/-- `cmd_sapart`, for one channel, and the services' PART. -/
def Floor.cmdSapart (fl : Floor) (origin : Origin) (uid name reason : Text) : Floor × List Told :=
  fl.ifMember uid name fun chan _ =>
    (fl.leave (chanKey name) chan uid,
      fl.serverBroadcastChannel chan.1
        (partLine origin.sapartRoom (chanKey name) chan.1 uid (fl.people uid) (some reason)))

/-- `cmd_kick` with its checks behind it, `handle_kick`, `flood_kick` and the services' KICK;
`source` is the client or the server that kicks. -/
def Floor.cmdKick (fl : Floor) (origin : Origin) (uid name source reason : Text) :
    Floor × List Told :=
  fl.ifMember uid name fun chan _ =>
    (fl.leave (chanKey name) chan uid,
      fl.serverBroadcastChannel chan.1 ⟨.kick, [uid], some (chanKey name),
        (ircBuild origin.kickRoom [] (some source) "KICK".toList [chan.1.name, (fl.people uid).nick]
          (some reason)).text⟩)

/-- `server_remove_client`. -/
def Floor.serverRemoveClient (fl : Floor) (uid reason : Text) : Floor × List Told :=
  ((fl.channelsOf uid).foldl (fun fl e => fl.leave e.1 e.2 uid) fl,
    fl.serverSendCommonChannels uid
      ⟨.quit, [uid], none, fromClient 512 (fl.people uid) "QUIT" [] (some reason)⟩ none)

/-! ## 6. Members change -/

/-- What a client changes about itself: NICK (`cmd_nick`, `force_nick_change`, `handle_nick`),
ACCOUNT (`server_login`, `server_logout`, `handle_account`), AWAY, CHGHOST and SETNAME. -/
inductive Identity
  | nick (newnick : Text)
  | account (account : Text)
  | away (text : Option Text)
  | chghost (user host : Text) (identConfirmed : Bool)
  | setname (realname : Text)
deriving DecidableEq

/-- The capability that a line asks of its readers. -/
def Identity.cap : Identity → Option Cap
  | .nick _ => none
  | .account _ => some .accountNotify
  | .away _ => some .awayNotify
  | .chghost .. => some .chghost
  | .setname _ => some .setname

def Identity.apply (p : Person) : Identity → Person
  | .nick newnick =>
    { p with nick := clip nickLen newnick, casefoldNick := ircCasefold nickLen newnick }
  | .account acct => { p with account := clip 64 acct }
  | .away _ => p
  | .chghost user host f =>
    { p with user := clip 64 user, host := clip 256 host, identConfirmed := f }
  | .setname realname => { p with realname := clip 512 realname }

/-- The line; NICK and CHGHOST come from who the client was. -/
def Identity.line (uid : Text) (p : Person) : Identity → Line
  | .nick newnick => ⟨.nick, [uid], none, fromClient 400 p "NICK" [] (some newnick)⟩
  | .account acct =>
    ⟨.account, [uid], none, fromClient 400 p "ACCOUNT" [if acct = [] then ['*'] else acct] none⟩
  | .away text => ⟨.away, [uid], none, fromClient 500 p "AWAY" [] text⟩
  | .chghost user host f => ⟨.chghost, [uid], none,
      fromClient 400 p "CHGHOST" [ircIdentFor 66 (clip 64 user) f, clip 256 host] none⟩
  | .setname realname =>
    ⟨.setname, [uid], none, fromClient 500 p "SETNAME" [] (some (clip 512 realname))⟩

/-- NICK, CHGHOST and SETNAME are also sent to the client itself. -/
def Identity.toSelf (p : Person) : Identity → Bool
  | .nick _ => true
  | .account _ | .away _ => false
  | .chghost .. => decide (.chghost ∈ p.caps)
  | .setname _ => decide (.setname ∈ p.caps)

/-- A client changes and is announced. -/
def Floor.announce (fl : Floor) (uid : Text) (what : Identity) : Floor × List Told :=
  let p := fl.people uid
  ({ fl with people := Function.update fl.people uid (what.apply p) },
    (if what.toSelf p then fl.send uid (what.line uid p) else []) ++
      fl.serverSendCommonChannels uid (what.line uid p) what.cap)

/-- The loop of `channel_reveal_member`. -/
def Floor.joinShown (fl : Floor) (key : Text) (chan : Channel) (uid : Text) : List Told :=
  let subject := channelFindMember chan uid
  chan.members.flatMap fun r =>
    if r.client = uid ∨ subject.any (fun s => !channelMemberVisible chan s (some r)) then []
    else fl.send r.client (joinLine key chan uid (fl.people uid) (fl.people r.client))

/-- The hidden flag goes. -/
def Member.shown (m : Member) : Member := { m with hidden := false }

/-- `channel_reveal_member`, for one who speaks. -/
def Floor.channelRevealMember (fl : Floor) (uid name : Text) : Floor × List Told :=
  fl.ifMember uid name fun chan m =>
    if m.hidden = true then
      let chan := chan.as (chan.1.updateMember uid Member.shown)
        (updateMember_clients chan.1 uid fun _ => rfl)
      let fl := fl.put (chanKey name) chan
      (fl, fl.joinShown (chanKey name) chan.1 uid)
    else (fl, [])

/-- Who is hidden in the first and not in the second. -/
def revealed (chan chan' : Channel) : List Text :=
  (chan.members.filter fun m =>
    m.hidden && !(channelFindMember chan' m.client).any Member.hidden).map Member.client

/-- One change of MODE, SAMODE, a MODE line or a `+f` action.  A rank and `-D` reveal members; the
JOIN of one does not depend on whether the next is still hidden. -/
def Floor.changeMode (fl : Floor) (name : Text) (ch : Change) : Floor × List Told :=
  match fl.chans.lookup (chanKey name) with
  | none => (fl, [])
  | some chan =>
    let chan' := chan.as (ch.apply chan.1) (apply_clients chan.1 ch)
    let fl := fl.put (chanKey name) chan'
    (fl, (revealed chan.1 chan'.1).flatMap (fl.joinShown (chanKey name) chan'.1))

/-- The services' JOIN: the bot is op, whoever made the channel. -/
def Floor.svcJoin (fl : Floor) (cl : Registered) (name : Text) (modes : Finset CMode) (now : Int) :
    Floor × List Told :=
  let r := fl.cmdForceJoin cl name modes now
  match r.1.chans.lookup (chanKey name) with
  | none => r
  | some chan =>
    (r.1.put (chanKey name) (chan.as
      (chan.1.updateMember cl.1 fun m => { m with rank := m.rank.grant .op })
      (updateMember_clients chan.1 cl.1 fun _ => rfl)), r.2)

/-- `cmd_channel_rename_apply`; its callers see to it that no other channel has the name.  Each
member is told of itself, in the old channel and in the new one. -/
def Floor.cmdChannelRenameApply (fl : Floor) (old newname reason : Text) : Floor × List Told :=
  match fl.chans.lookup (chanKey old) with
  | none => (fl, [])
  | some chan =>
    if h : ircValidChannel newname 50 = true ∧
        ((fl.chans.lookup (chanKey newname)).isNone ∨ chanKey newname = chanKey old) then
      let chan' := chan.as { chan.1 with name := newname, nameValid := h.1 } rfl
      let fl := { fl with chans := (fl.chans.erase (chanKey old)).insert (chanKey newname) chan' }
      (fl, chan.1.members.flatMap fun m =>
        let p := fl.people m.client
        if p.remote ∨ .channelRename ∈ p.caps then []
        else fl.send m.client (partLine 500 (chanKey old) chan.1 m.client p (some reason)) ++
          fl.send m.client ⟨.join, [m.client], some (chanKey newname),
            fromClient 400 p "JOIN" [newname] none⟩ ++
          fl.sendJoinBurst (chanKey newname) chan'.1 m.client)
    else (fl, [])

/-! ## 7. Runs -/

/-- What happens on a server, as far as its clients are told of each other. Each is a function of
the source, and what its callers check before it may have come out either way. -/
inductive Event
  /-- Whatever else becomes of a client: it connects, negotiates, is closing. -/
  | becomes (uid : Text) (p : Person)
  | join (cl : Registered) (name : Text) (admitted : Bool) (modes : Finset CMode) (now : Int)
  | forceJoin (cl : Registered) (name : Text) (modes : Finset CMode) (now : Int)
  | svcJoin (cl : Registered) (name : Text) (modes : Finset CMode) (now : Int)
  | handleJoin (cl : Registered) (name : Text) (now : Int)
  | sjoin (name : Text) (settings : Settings) (lost : Bool) (now : Int)
  | sjoinMember (cl : Registered) (name : Text) (rank : Rank)
  | part (origin : Origin) (uid name : Text) (reason : Option Text)
  | sapart (origin : Origin) (uid name reason : Text)
  | kick (origin : Origin) (uid name source reason : Text)
  | remove (uid reason : Text)
  | announce (uid : Text) (what : Identity)
  | mode (name : Text) (ch : Change)
  | speak (uid name : Text)
  | names (uid name : Text)
  | rename (old newname reason : Text)

def Floor.next (fl : Floor) : Event → Floor × List Told
  | .becomes uid p => ({ fl with people := Function.update fl.people uid p }, [])
  | .join cl name admitted modes now => fl.doJoinOne cl name admitted modes now
  | .forceJoin cl name modes now => fl.cmdForceJoin cl name modes now
  | .svcJoin cl name modes now => fl.svcJoin cl name modes now
  | .handleJoin cl name now => fl.handleJoin cl name now
  | .sjoin name settings lost now => fl.handleSjoin name settings lost now
  | .sjoinMember cl name rank => fl.sjoinMember cl name rank
  | .part origin uid name reason => fl.cmdPart origin uid name reason
  | .sapart origin uid name reason => fl.cmdSapart origin uid name reason
  | .kick origin uid name source reason => fl.cmdKick origin uid name source reason
  | .remove uid reason => fl.serverRemoveClient uid reason
  | .announce uid what => fl.announce uid what
  | .mode name ch => fl.changeMode name ch
  | .speak uid name => fl.channelRevealMember uid name
  | .names uid name => fl.cmdNames uid name
  | .rename old newname reason => fl.cmdChannelRenameApply old newname reason

/-- A server and all that it has told its clients. -/
structure Session where
  floor : Floor
  told : List Told

def sessionStep (s : Session) (e : Event) : Session :=
  ⟨(s.floor.next e).1, s.told ++ (s.floor.next e).2⟩

/-- No channels, and clients of any kind. -/
def sessionStart (name : Text) (people : Text → Person) : Session := ⟨⟨name, people, ∅⟩, []⟩

/-! ## 8. What is not to be seen

A leak is a line that was sent, and is judged by the state at that moment. The condition is on the
event and the state before it. -/

/-- The client is in the channel. -/
def Floor.isIn (fl : Floor) (key uid : Text) : Bool :=
  (fl.chans.lookup key).any fun chan => (channelFindMember chan.1 uid).isSome

/-- The channel is `+D` and not `+u`, and the client is in it and hidden. -/
def Floor.Hides (fl : Floor) (key uid : Text) : Prop :=
  (fl.chans.lookup key).any (fun chan =>
    decide (.delayjoin ∈ chan.1.modes) && decide (.auditorium ∉ chan.1.modes) &&
      (channelFindMember chan.1 uid).any Member.hidden) = true

/-- `w` is in the channel, and in no other with the client. -/
def Floor.OnlyIn (fl : Floor) (key uid w : Text) : Prop :=
  fl.isIn key w = true ∧
    ∀ e ∈ fl.channelsOf uid, (channelFindMember e.2.1 w).isSome = true → e.1 = key

instance (fl : Floor) (key uid : Text) : Decidable (fl.Hides key uid) :=
  inferInstanceAs (Decidable (_ = true))

instance (fl : Floor) (key uid w : Text) : Decidable (fl.OnlyIn key uid w) :=
  inferInstanceAs (Decidable (_ ∧ _))

/-- **A leak**: a line about a hidden member is sent to another who shares no other channel with
it.  A line that names another channel does not show that the member is in this one. -/
def Told.Leaks (x : Told) : Prop :=
  ∃ uid ∈ x.line.about, uid ≠ x.dest ∧ ∃ key,
    (x.line.chan = none ∨ x.line.chan = some key) ∧ x.floor.Hides key uid ∧
      x.floor.OnlyIn key uid x.dest

/-- There is somebody to leak to: a hidden member has a fellow member with a connection, and with
the capability, who shares no other channel with it. -/
def Floor.Exposes (fl : Floor) (key uid : Text) (cap : Option Cap) : Prop :=
  fl.Hides key uid ∧ ∃ w, w ≠ uid ∧ fl.OnlyIn key uid w ∧ (fl.people w).listens = true ∧
    cap.all (fun c => c ∈ (fl.people w).caps) = true

/-- **The condition**: who is kicked or SAPARTed, who quits and who changes its identity is not
hidden from anybody who would be told. -/
def Careful (s : Session) : Event → Prop
  | .sapart _ uid name _ => ¬ s.floor.Exposes (chanKey name) uid none
  | .kick _ uid name _ _ => ¬ s.floor.Exposes (chanKey name) uid none
  | .remove uid _ => ∀ key, ¬ s.floor.Exposes key uid none
  | .announce uid what => ∀ key, ¬ s.floor.Exposes key uid what.cap
  | _ => True

/-- Nothing has leaked: no client was told of a member that a channel hides from it, if it shares
no other channel with that member. -/
def Session.Discreet (s : Session) : Prop := ∀ x ∈ s.told, ¬ x.Leaks

/-! ## 9. One line -/

section OneLine

variable {fl : Floor} {key uid w : Text} {chan : Keyed}

theorem find_of_mem {m : Member} (hm : m ∈ chan.1.members) :
    channelFindMember chan.1 m.client = some m := by
  have hfound : (channelFindMember chan.1 m.client).isSome = true :=
    List.find?_isSome.mpr ⟨m, hm, beq_self_eq_true m.client⟩
  obtain ⟨m', hm'⟩ := Option.isSome_iff_exists.mp hfound
  have hmem : m' ∈ chan.1.members := List.mem_of_find?_eq_some hm'
  have hc : m'.client = m.client := by simpa using List.find?_some hm'
  rw [hm', List.inj_on_of_nodup_map chan.2 hmem hm hc]

theorem find_some {c : Channel} {m : Member} (h : channelFindMember c uid = some m) :
    m ∈ c.members ∧ m.client = uid :=
  ⟨List.mem_of_find?_eq_some h, by simpa using List.find?_some h⟩

theorem mem_send {x : Told} {line : Line} :
    x ∈ fl.send w line ↔ (fl.people w).listens = true ∧ x = ⟨fl, w, line⟩ := by
  unfold Floor.send
  split <;> simp_all

theorem mem_channelsOf {e : Sigma fun _ : Text => Keyed} :
    e ∈ fl.channelsOf uid ↔
      fl.chans.lookup e.1 = some e.2 ∧ (channelFindMember e.2.1 uid).isSome = true := by
  rw [Floor.channelsOf, List.mem_filter, ← Option.mem_def, AList.mem_lookup_iff]

theorem hides_iff : fl.Hides key uid ↔ ∃ chan, fl.chans.lookup key = some chan ∧
    .delayjoin ∈ chan.1.modes ∧ .auditorium ∉ chan.1.modes ∧
      ∃ m, channelFindMember chan.1 uid = some m ∧ m.hidden = true := by
  simp only [Floor.Hides, Option.any_eq_true, Bool.and_eq_true, decide_eq_true_eq]
  constructor
  · rintro ⟨chan, hc, ⟨hd, hu⟩, m, hm, hh⟩
    exact ⟨chan, hc, hd, hu, m, hm, hh⟩
  · rintro ⟨chan, hc, hd, hu, m, hm, hh⟩
    exact ⟨chan, hc, ⟨hd, hu⟩, m, hm, hh⟩

theorem eq_of_visible {c : Channel} {s : Member} {viewer : Option Member}
    (h : channelMemberVisible c s viewer = true) (hh : s.hidden = true) :
    ∃ v, viewer = some v ∧ v.client = s.client := by
  by_cases hv : viewer.any (fun v => decide (v.client = s.client)) = true
  · simpa only [Option.any_eq_true, decide_eq_true_eq] using hv
  · rw [channelMemberVisible, if_neg hv, if_pos hh] at h
    exact absurd h Bool.false_ne_true

/-- A line sent to a member who can see the one it is about does not leak. -/
theorem not_leaks_of_visible {v : Member} {line : Line} (hl : fl.chans.lookup key = some chan)
    (hv : v ∈ chan.1.members) (habout : line.about = [uid])
    (hchan : line.chan = some key ∨
      line.chan = none ∧ (channelFindMember chan.1 uid).isSome = true)
    (hvis : ∀ s, channelFindMember chan.1 uid = some s →
      channelMemberVisible chan.1 s (some v) = true) :
    ¬ Told.Leaks ⟨fl, v.client, line⟩ := by
  rintro ⟨u, hu, hne, k, hk, hhides, honly⟩
  rw [habout, List.mem_singleton] at hu
  subst hu
  have hkey : k = key := by
    rcases hchan with hc | ⟨hc, hin⟩
    · rcases hk with hk | hk
      · exact absurd (hk.symm.trans hc) (by simp)
      · exact Option.some.inj (hk.symm.trans hc)
    · refine (honly.2 ⟨key, chan⟩ (mem_channelsOf.mpr ⟨hl, hin⟩) ?_).symm
      exact Option.isSome_iff_exists.mpr ⟨v, find_of_mem hv⟩
  subst hkey
  obtain ⟨c, hc, -, -, m, hm, hhid⟩ := hides_iff.mp hhides
  obtain rfl := Option.some.inj (hl.symm.trans hc)
  obtain ⟨v', hv', he⟩ := eq_of_visible (hvis m hm) hhid
  obtain rfl := Option.some.inj hv'
  exact hne ((find_some hm).2.symm.trans he.symm)

theorem not_leaks_self {line : Line} (habout : line.about = [w]) : ¬ Told.Leaks ⟨fl, w, line⟩ := by
  rintro ⟨u, hu, hne, -⟩
  rw [habout, List.mem_singleton] at hu
  exact hne hu

end OneLine

/-! ## 10. Lines to many -/

section Many

variable {fl : Floor} {key uid : Text} {chan : Keyed} {line : Line} {cap : Option Cap} {x : Told}

theorem find_isSome_iff {c : Channel} :
    (channelFindMember c uid).isSome = true ↔ ∃ m ∈ c.members, m.client = uid := by
  simp [channelFindMember, List.find?_isSome]

theorem mem_commonLoop : ∀ (cs marked : List Text), x ∈ fl.commonLoop line cap cs marked ↔
    ∃ c ∈ cs, c ∉ marked ∧ cap.all (fun a => a ∈ (fl.people c).caps) = true ∧
      (fl.people c).listens = true ∧ x = ⟨fl, c, line⟩
  | [], _ => by simp [Floor.commonLoop]
  | c :: cs, marked => by
    rw [Floor.commonLoop]
    by_cases hc : c ∈ marked
    · rw [if_pos (List.contains_iff_mem.mpr hc), mem_commonLoop cs marked]
      constructor
      · rintro ⟨d, hd, h⟩
        exact ⟨d, .tail _ hd, h⟩
      · rintro ⟨d, hd, hnot, h⟩
        rcases List.mem_cons.mp hd with rfl | hd
        · exact absurd hc hnot
        · exact ⟨d, hd, hnot, h⟩
    · rw [if_neg fun h => hc (List.contains_iff_mem.mp h), List.mem_append,
        mem_commonLoop cs (c :: marked)]
      constructor
      · rintro (h | ⟨d, hd, hnot, h⟩)
        · split at h
          · rename_i hcap
            exact ⟨c, .head _, hc, hcap, mem_send.mp h⟩
          · exact absurd h List.not_mem_nil
        · exact ⟨d, .tail _ hd, fun hm => hnot (.tail _ hm), h⟩
      · rintro ⟨d, hd, hnot, hcap, h⟩
        by_cases hdc : d = c
        · subst hdc
          rw [if_pos hcap]
          exact .inl (mem_send.mpr h)
        · have hds : d ∈ cs := (List.mem_cons.mp hd).resolve_left hdc
          exact .inr ⟨d, hds, fun hm => (List.mem_cons.mp hm).elim hdc hnot, hcap, h⟩

/-- Who `server_send_common_channels` tells. -/
theorem mem_common : x ∈ fl.serverSendCommonChannels uid line cap ↔
    ∃ c, c ≠ uid ∧
      (∃ e ∈ fl.channelsOf uid, (channelFindMember e.2.1 c).isSome = true) ∧
      cap.all (fun a => a ∈ (fl.people c).caps) = true ∧ (fl.people c).listens = true ∧
      x = ⟨fl, c, line⟩ := by
  rw [Floor.serverSendCommonChannels, mem_commonLoop]
  simp only [List.mem_flatMap, List.mem_map, List.mem_singleton, find_isSome_iff]
  constructor
  · rintro ⟨c, hin, hne, h⟩
    exact ⟨c, hne, hin, h⟩
  · rintro ⟨c, hne, hin, h⟩
    exact ⟨c, hin, hne, h⟩

/-- A line to common channels keeps quiet just when there is nobody to leak to. -/
theorem common_discreet (habout : line.about = [uid]) (hchan : line.chan = none) :
    (∀ x ∈ fl.serverSendCommonChannels uid line cap, ¬ x.Leaks) ↔
      ∀ key, ¬ fl.Exposes key uid cap := by
  constructor
  · rintro h key ⟨hhides, w, hne, honly, hlisten, hcap⟩
    obtain ⟨chan, hl, -, -, m, hm, -⟩ := hides_iff.mp hhides
    have hin : (channelFindMember chan.1 w).isSome = true := by
      have hw := honly.1
      rwa [Floor.isIn, hl, Option.any_some] at hw
    have he : (⟨key, chan⟩ : Sigma fun _ : Text => Keyed) ∈ fl.channelsOf uid :=
      mem_channelsOf.mpr ⟨hl, Option.isSome_iff_exists.mpr ⟨m, hm⟩⟩
    refine h ⟨fl, w, line⟩ (mem_common.mpr ⟨w, hne, ⟨_, he, hin⟩, hcap, hlisten, rfl⟩) ?_
    exact ⟨uid, habout ▸ .head _, hne.symm, key, .inl hchan, hhides, honly⟩
  · rintro h x hx ⟨u, hu, hne, key, -, hhides, honly⟩
    obtain ⟨c, hcu, -, hcap, hlisten, rfl⟩ := mem_common.mp hx
    rw [habout, List.mem_singleton] at hu
    subst hu
    exact h key ⟨hhides, c, hcu, honly, hlisten, hcap⟩

theorem broadcast_discreet (hl : fl.chans.lookup key = some chan) (habout : line.about = [uid])
    (hchan : line.chan = some key) :
    (∀ x ∈ fl.serverBroadcastChannel chan.1 line, ¬ x.Leaks) ↔ ¬ fl.Exposes key uid none := by
  constructor
  · rintro h ⟨hhides, w, hne, honly, hlisten, -⟩
    have hw := honly.1
    rw [Floor.isIn, hl, Option.any_some, find_isSome_iff] at hw
    obtain ⟨m, hm, rfl⟩ := hw
    refine h ⟨fl, m.client, line⟩ ?_
      ⟨uid, habout ▸ .head _, hne.symm, key, .inr hchan, hhides, honly⟩
    exact List.mem_flatMap.mpr ⟨m, hm, mem_send.mpr ⟨hlisten, rfl⟩⟩
  · rintro h x hx ⟨u, hu, hne, k, hk, hhides, honly⟩
    obtain ⟨m, hm, hx⟩ := List.mem_flatMap.mp hx
    obtain ⟨hlisten, rfl⟩ := mem_send.mp hx
    rw [habout, List.mem_singleton] at hu
    subst hu
    have hkey : key = k := by
      rcases hk with hk | hk
      · exact absurd (hchan.symm.trans hk) (by simp)
      · exact Option.some.inj (hchan.symm.trans hk)
    subst hkey
    exact h ⟨hhides, m.client, hne.symm, honly, hlisten, rfl⟩

theorem namesLoop_about {P : Text → Prop} (budget : Nat) : ∀ (xs : List (Text × Text))
    (line : Text) (about : List Text), (∀ x ∈ xs, P x.1) → (∀ u ∈ about, P u) →
    ∀ r ∈ namesLoop budget xs line about, ∀ u ∈ r.1, P u
  | [], line, about, _, ha, r, hr, u, hu => by
    rw [namesLoop, List.mem_singleton] at hr
    subst hr
    exact ha u hu
  | x :: xs, line, about, hxs, ha, r, hr, u, hu => by
    have hx : P x.1 := hxs x (.head _)
    have hrest : ∀ y ∈ xs, P y.1 := fun y hy => hxs y (.tail _ hy)
    rw [namesLoop] at hr
    split at hr
    · rcases List.mem_cons.mp hr with rfl | hr
      · exact ha u hu
      · refine namesLoop_about budget xs _ _ hrest (fun v hv => ?_) r hr u hu
        exact List.mem_singleton.mp hv ▸ hx
    · refine namesLoop_about budget xs _ _ hrest (fun v hv => ?_) r hr u hu
      rcases List.mem_append.mp hv with hv | hv
      · exact ha v hv
      · exact List.mem_singleton.mp hv ▸ hx

/-- NAMES lists nobody who is hidden, except the asker. -/
theorem sendNames_discreet (hl : fl.chans.lookup key = some chan) :
    ∀ x ∈ fl.sendNames key chan.1 uid, ¬ x.Leaks := by
  intro x hx
  obtain ⟨r, hr, hx⟩ := List.mem_flatMap.mp hx
  obtain ⟨-, rfl⟩ := mem_send.mp hx
  rintro ⟨u, hu, hne, k, hk, hhides, -⟩
  obtain ⟨m, hm, hvis, rfl⟩ : ∃ m ∈ chan.1.members,
      channelMemberVisible chan.1 m (channelFindMember chan.1 uid) = true ∧ m.client = u := by
    refine namesLoop_about (P := fun u => ∃ m ∈ chan.1.members,
      channelMemberVisible chan.1 m (channelFindMember chan.1 uid) = true ∧ m.client = u)
      _ _ _ _ (fun y hy => ?_) (fun u hu => absurd hu List.not_mem_nil) r hr u hu
    obtain ⟨m, hm, rfl⟩ := List.mem_map.mp hy
    exact ⟨m, (List.mem_filter.mp hm).1, (List.mem_filter.mp hm).2, rfl⟩
  obtain rfl : key = k := Option.some.inj (hk.resolve_left (by simp))
  obtain ⟨c, hc, -, -, m', hm', hhid⟩ := hides_iff.mp hhides
  obtain rfl := Option.some.inj (hl.symm.trans hc)
  obtain rfl := Option.some.inj ((find_of_mem hm).symm.trans hm')
  obtain ⟨v, hv, he⟩ := eq_of_visible hvis hhid
  exact hne (he.symm.trans (find_some hv).2)

theorem sendJoinBurst_discreet (hl : fl.chans.lookup key = some chan) :
    ∀ x ∈ fl.sendJoinBurst key chan.1 uid, ¬ x.Leaks := by
  intro x hx
  unfold Floor.sendJoinBurst at hx
  split at hx
  · exact absurd hx List.not_mem_nil
  · exact sendNames_discreet hl x hx

/-- A JOIN is announced to those who can see the one who comes. -/
theorem cmdAnnounceJoin_discreet (hl : fl.chans.lookup key = some chan)
    (hin : (channelFindMember chan.1 uid).isSome = true) :
    ∀ x ∈ fl.cmdAnnounceJoin key chan.1 uid, ¬ x.Leaks := by
  intro x hx
  rcases List.mem_append.mp hx with hx | hx
  · obtain ⟨m, hm, hx⟩ := List.mem_flatMap.mp hx
    split at hx
    · exact absurd hx List.not_mem_nil
    rename_i hvis
    have hsee : ∀ s, channelFindMember chan.1 uid = some s →
        channelMemberVisible chan.1 s (some m) = true := fun s hs => by
      simpa [hs] using hvis
    rcases List.mem_append.mp hx with hx | hx
    · obtain ⟨-, rfl⟩ := mem_send.mp hx
      exact not_leaks_of_visible hl hm rfl (.inl rfl) hsee
    · split at hx
      · obtain ⟨-, rfl⟩ := mem_send.mp hx
        exact not_leaks_of_visible hl hm rfl (.inr ⟨rfl, hin⟩) hsee
      · exact absurd hx List.not_mem_nil
  · split at hx
    · exact absurd hx List.not_mem_nil
    · exact sendJoinBurst_discreet hl x hx

theorem joinShown_discreet (hl : fl.chans.lookup key = some chan) :
    ∀ x ∈ fl.joinShown key chan.1 uid, ¬ x.Leaks := by
  intro x hx
  obtain ⟨r, hr, hx⟩ := List.mem_flatMap.mp hx
  split at hx
  · exact absurd hx List.not_mem_nil
  · rename_i hvis
    rw [not_or] at hvis
    obtain ⟨-, rfl⟩ := mem_send.mp hx
    refine not_leaks_of_visible hl hr rfl (.inl rfl) fun s hs => ?_
    simpa [hs] using hvis.2

end Many

/-! ## 11. One event -/

section OneEvent

variable (fl : Floor)

theorem lookup_put (key : Text) (chan : Keyed) : (fl.put key chan).chans.lookup key = some chan :=
  AList.lookup_insert _

theorem find_add {chan : Keyed} {m : Member}
    (h : ¬ (channelFindMember chan.1 m.client).isSome = true) :
    (channelFindMember (chan.add m).1 m.client).isSome = true := by
  rw [find_isSome_iff]
  refine ⟨m, ?_, rfl⟩
  unfold Keyed.add channelAddMember
  simp only [if_neg h]
  exact List.mem_append_right _ (.head _)

theorem enter_discreet (key : Text) (chan : Keyed) (m : Member) :
    ∀ x ∈ (fl.enter key chan m).2, ¬ x.Leaks := by
  intro x hx
  unfold Floor.enter at hx
  split at hx
  · exact absurd hx List.not_mem_nil
  · rename_i h
    exact cmdAnnounceJoin_discreet (lookup_put fl key _) (find_add h) x hx

theorem doJoinOne_discreet (cl : Registered) (name : Text) (admitted : Bool)
    (modes : Finset CMode) (now : Int) :
    ∀ x ∈ (fl.doJoinOne cl name admitted modes now).2, ¬ x.Leaks := by
  intro x hx
  unfold Floor.doJoinOne at hx
  split at hx
  · split at hx
    · exact enter_discreet fl _ _ _ x hx
    · exact absurd hx List.not_mem_nil
  · exact absurd hx List.not_mem_nil

theorem cmdForceJoin_discreet (cl : Registered) (name : Text) (modes : Finset CMode) (now : Int) :
    ∀ x ∈ (fl.cmdForceJoin cl name modes now).2, ¬ x.Leaks := by
  intro x hx
  unfold Floor.cmdForceJoin at hx
  split at hx
  · exact enter_discreet fl _ _ _ x hx
  · exact absurd hx List.not_mem_nil

theorem svcJoin_discreet (cl : Registered) (name : Text) (modes : Finset CMode) (now : Int) :
    ∀ x ∈ (fl.svcJoin cl name modes now).2, ¬ x.Leaks := by
  intro x hx
  unfold Floor.svcJoin at hx
  dsimp only at hx
  split at hx <;> exact cmdForceJoin_discreet fl cl name modes now x hx

theorem handleJoin_discreet (cl : Registered) (name : Text) (now : Int) :
    ∀ x ∈ (fl.handleJoin cl name now).2, ¬ x.Leaks := by
  intro x hx
  unfold Floor.handleJoin at hx
  split at hx
  · exact enter_discreet fl _ _ _ x hx
  · exact absurd hx List.not_mem_nil

theorem handleSjoin_tells (name : Text) (settings : Settings) (lost : Bool) (now : Int) :
    (fl.handleSjoin name settings lost now).2 = [] := by
  unfold Floor.handleSjoin
  split <;> rfl

theorem sjoinMember_discreet (cl : Registered) (name : Text) (rank : Rank) :
    ∀ x ∈ (fl.sjoinMember cl name rank).2, ¬ x.Leaks := by
  intro x hx
  unfold Floor.sjoinMember at hx
  split at hx
  · exact absurd hx List.not_mem_nil
  · exact enter_discreet fl _ _ _ x hx

/-- Either the client is in the channel, or nothing happens and the channel does not hide it. -/
theorem ifMember_cases (uid name : Text) (f : Keyed → Member → Floor × List Told) :
    (∃ chan m, fl.chans.lookup (chanKey name) = some chan ∧
      channelFindMember chan.1 uid = some m ∧ fl.ifMember uid name f = f chan m) ∨
    fl.ifMember uid name f = (fl, []) ∧ ¬ fl.Hides (chanKey name) uid := by
  unfold Floor.ifMember
  split
  · rename_i h
    refine .inr ⟨rfl, fun hh => ?_⟩
    obtain ⟨chan, hc, -⟩ := hides_iff.mp hh
    exact absurd (h.symm.trans hc) (by simp)
  · rename_i chan h
    split
    · rename_i hm
      refine .inr ⟨rfl, fun hh => ?_⟩
      obtain ⟨c, hc, -, -, m, hm', -⟩ := hides_iff.mp hh
      obtain rfl := Option.some.inj (h.symm.trans hc)
      exact absurd (hm.symm.trans hm') (by simp)
    · rename_i m hm
      exact .inl ⟨chan, m, h, hm, rfl⟩

/-- A PART is shown to those who can see the one who goes. -/
theorem cmdPart_discreet (origin : Origin) (uid name : Text) (reason : Option Text) :
    ∀ x ∈ (fl.cmdPart origin uid name reason).2, ¬ x.Leaks := by
  intro x hx
  rcases ifMember_cases fl uid name _ with ⟨chan, m, hl, hm, he⟩ | ⟨he, -⟩
  · rw [Floor.cmdPart, he] at hx
    obtain ⟨pm, hpm, hx⟩ := List.mem_flatMap.mp hx
    split at hx
    · rename_i hvis
      obtain ⟨-, rfl⟩ := mem_send.mp hx
      refine not_leaks_of_visible hl hpm rfl (.inl rfl) fun s hs => ?_
      exact Option.some.inj (hm.symm.trans hs) ▸ hvis
    · exact absurd hx List.not_mem_nil
  · rw [Floor.cmdPart, he] at hx
    exact absurd hx List.not_mem_nil

theorem ifMember_broadcast (uid name : Text) (next : Keyed → Floor) (line : Keyed → Line)
    (habout : ∀ chan, (line chan).about = [uid])
    (hchan : ∀ chan, (line chan).chan = some (chanKey name)) :
    (∀ x ∈ (fl.ifMember uid name fun chan _ =>
        (next chan, fl.serverBroadcastChannel chan.1 (line chan))).2, ¬ x.Leaks) ↔
      ¬ fl.Exposes (chanKey name) uid none := by
  rcases ifMember_cases fl uid name fun chan _ =>
    (next chan, fl.serverBroadcastChannel chan.1 (line chan)) with ⟨chan, m, hl, -, he⟩ | ⟨he, hh⟩
  · rw [he]
    exact broadcast_discreet hl (habout chan) (hchan chan)
  · rw [he]
    exact ⟨fun _ hex => hh hex.1, fun _ x hx => absurd hx List.not_mem_nil⟩

theorem cmdSapart_discreet_iff (origin : Origin) (uid name reason : Text) :
    (∀ x ∈ (fl.cmdSapart origin uid name reason).2, ¬ x.Leaks) ↔
      ¬ fl.Exposes (chanKey name) uid none :=
  ifMember_broadcast fl uid name _ _ (fun _ => rfl) fun _ => rfl

theorem cmdKick_discreet_iff (origin : Origin) (uid name source reason : Text) :
    (∀ x ∈ (fl.cmdKick origin uid name source reason).2, ¬ x.Leaks) ↔
      ¬ fl.Exposes (chanKey name) uid none :=
  ifMember_broadcast fl uid name _ _ (fun _ => rfl) fun _ => rfl

theorem identity_about (uid : Text) (p : Person) (what : Identity) :
    (what.line uid p).about = [uid] ∧ (what.line uid p).chan = none := by
  cases what <;> exact ⟨rfl, rfl⟩

theorem announce_discreet_iff (uid : Text) (what : Identity) :
    (∀ x ∈ (fl.announce uid what).2, ¬ x.Leaks) ↔ ∀ key, ¬ fl.Exposes key uid what.cap := by
  obtain ⟨habout, hchan⟩ := identity_about uid (fl.people uid) what
  rw [← common_discreet habout hchan]
  refine ⟨fun h x hx => h x (List.mem_append_right _ hx), fun h x hx => ?_⟩
  rcases List.mem_append.mp hx with hx | hx
  · split at hx
    · obtain ⟨-, rfl⟩ := mem_send.mp hx
      exact not_leaks_self habout
    · exact absurd hx List.not_mem_nil
  · exact h x hx

theorem changeMode_discreet (name : Text) (ch : Change) :
    ∀ x ∈ (fl.changeMode name ch).2, ¬ x.Leaks := by
  intro x hx
  unfold Floor.changeMode at hx
  split at hx
  · exact absurd hx List.not_mem_nil
  · obtain ⟨uid, -, hx⟩ := List.mem_flatMap.mp hx
    exact joinShown_discreet (lookup_put fl _ _) x hx

theorem channelRevealMember_discreet (uid name : Text) :
    ∀ x ∈ (fl.channelRevealMember uid name).2, ¬ x.Leaks := by
  intro x hx
  rcases ifMember_cases fl uid name _ with ⟨chan, m, hl, hm, he⟩ | ⟨he, -⟩
  · rw [Floor.channelRevealMember, he] at hx
    split at hx
    · exact joinShown_discreet (lookup_put fl _ _) x hx
    · exact absurd hx List.not_mem_nil
  · rw [Floor.channelRevealMember, he] at hx
    exact absurd hx List.not_mem_nil

theorem cmdNames_discreet (uid name : Text) : ∀ x ∈ (fl.cmdNames uid name).2, ¬ x.Leaks := by
  intro x hx
  unfold Floor.cmdNames at hx
  split at hx
  · exact absurd hx List.not_mem_nil
  · rename_i chan hl
    split at hx
    · exact absurd hx List.not_mem_nil
    · exact sendNames_discreet hl x hx

theorem cmdChannelRenameApply_discreet (old newname reason : Text) :
    ∀ x ∈ (fl.cmdChannelRenameApply old newname reason).2, ¬ x.Leaks := by
  intro x hx
  unfold Floor.cmdChannelRenameApply at hx
  split at hx
  · exact absurd hx List.not_mem_nil
  · split at hx
    · obtain ⟨m, -, hx⟩ := List.mem_flatMap.mp hx
      dsimp only at hx
      split at hx
      · exact absurd hx List.not_mem_nil
      · rw [List.mem_append, List.mem_append] at hx
        rcases hx with (hx | hx) | hx
        · obtain ⟨-, rfl⟩ := mem_send.mp hx
          exact not_leaks_self rfl
        · obtain ⟨-, rfl⟩ := mem_send.mp hx
          exact not_leaks_self rfl
        · exact sendJoinBurst_discreet (AList.lookup_insert _) x hx
    · exact absurd hx List.not_mem_nil

end OneEvent

/-- **One event**: it leaks nothing just when it is careful. -/
theorem next_discreet_iff (s : Session) (e : Event) :
    (∀ x ∈ (s.floor.next e).2, ¬ x.Leaks) ↔ Careful s e := by
  cases e with
  | becomes uid p => exact ⟨fun _ => trivial, fun _ x hx => absurd hx List.not_mem_nil⟩
  | join cl name admitted modes now =>
    exact iff_of_true (doJoinOne_discreet s.floor cl name admitted modes now) trivial
  | forceJoin cl name modes now =>
    exact iff_of_true (cmdForceJoin_discreet s.floor cl name modes now) trivial
  | svcJoin cl name modes now =>
    exact iff_of_true (svcJoin_discreet s.floor cl name modes now) trivial
  | handleJoin cl name now => exact iff_of_true (handleJoin_discreet s.floor cl name now) trivial
  | sjoin name settings lost now =>
    refine iff_of_true (fun x hx => ?_) trivial
    rw [Floor.next, handleSjoin_tells] at hx
    exact absurd hx List.not_mem_nil
  | sjoinMember cl name rank =>
    exact iff_of_true (sjoinMember_discreet s.floor cl name rank) trivial
  | part origin uid name reason =>
    exact iff_of_true (cmdPart_discreet s.floor origin uid name reason) trivial
  | sapart origin uid name reason => exact cmdSapart_discreet_iff s.floor origin uid name reason
  | kick origin uid name source reason =>
    exact cmdKick_discreet_iff s.floor origin uid name source reason
  | remove uid reason => exact common_discreet rfl rfl
  | announce uid what => exact announce_discreet_iff s.floor uid what
  | mode name ch => exact iff_of_true (changeMode_discreet s.floor name ch) trivial
  | speak uid name => exact iff_of_true (channelRevealMember_discreet s.floor uid name) trivial
  | names uid name => exact iff_of_true (cmdNames_discreet s.floor uid name) trivial
  | rename old newname reason =>
    exact iff_of_true (cmdChannelRenameApply_discreet s.floor old newname reason) trivial

theorem sessionStep_discreet_iff {s : Session} (h : s.Discreet) (e : Event) :
    (sessionStep s e).Discreet ↔ Careful s e := by
  rw [← next_discreet_iff s e]
  refine ⟨fun hd x hx => hd x (List.mem_append_right _ hx), fun hd x hx => ?_⟩
  exact (List.mem_append.mp hx).elim (h x) (hd x)

/-- **When hidden members stay hidden.** In every run, whoever the clients are: nothing has leaked
in any state it goes through if and only if all its steps are careful. A step is careless where a
line about a member goes to the members of a channel that still hides it. -/
theorem hidden_members_iff (name : Text) (people : Text → Person) (es : List Event) :
    (∀ pre, pre <+: es → (pre.foldl sessionStep (sessionStart name people)).Discreet) ↔
      Runs.Throughout sessionStep Careful (sessionStart name people) es := by
  have hstart : (sessionStart name people).Discreet := fun x hx => absurd hx List.not_mem_nil
  exact @Runs.throughout_iff _ _ sessionStep Careful (fun _ => True) Session.Discreet
    (fun _ _ _ => trivial) (fun s e _ h => sessionStep_discreet_iff h e) es _ trivial hstart

/-- A client called `c`. -/
def demoPerson (c : Char) : Person where
  nick := [c]
  casefoldNick := [c]
  user := [c]
  host := [c]
  uid := [c]
  nserver := ['1', 'S', 'V']
  remote := false
  isService := false
  oper := false
  identConfirmed := true
  connected := true
  quitting := false
  caps := ∅
  account := []
  realname := []

def demoPeople (uid : Text) : Person := demoPerson (uid.headD 'x')

/-- One makes a `+D` channel, another joins it, and quits without a word. -/
def demoQuit : List Event :=
  [.join ⟨['b'], by decide⟩ ['#', 'd'] true ∅ 0, .mode ['#', 'd'] (.flag true .delayjoin),
    .join ⟨['a'], by decide⟩ ['#', 'd'] true ∅ 0, .remove ['a'] []]

/-- **A hidden member's QUIT shows it.** -/
theorem quit_shows_hidden : ¬ ∀ es : List Event,
    (es.foldl sessionStep (sessionStart [] demoPeople)).Discreet := by
  intro h
  have hexposes : ((demoQuit.take 3).foldl sessionStep
      (sessionStart [] demoPeople)).floor.Exposes ['#', 'd'] ['a'] none :=
    ⟨by decide, ['b'], by decide, by decide, by decide, by decide⟩
  have hcareful := (sessionStep_discreet_iff (h (demoQuit.take 3)) (.remove ['a'] [])).mp
    (h demoQuit)
  exact hcareful ['#', 'd'] hexposes

end DelayedJoin

end SekurIRCd
