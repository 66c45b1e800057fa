/-
# Channels between servers

What a server does to a channel when another one tells it about it: SJOIN (a creation, or a part
of a burst), JOIN, PART, KICK and QUIT for the members, MODE and TOPIC for a command, BMASK for
the lists and TB for the topic of a burst.  A server's view of one channel name is
`Option Channel`.  Of the lines sent, the two with parameters of their own are here, the SJOIN and
the KICK; those of a burst are in `Net.Burst`.

An SJOIN brings a creation time with it, and the older channel wins: the newer side drops its
modes, lists and ranks and takes over the sender's.  At the same age the modes are merged, and
from a newer channel only the members are taken, without their ranks.

What is shown to the local members and what is passed on to further links is left out here.
-/
import SekurIRCd.Mode.Wire
import SekurIRCd.Net.State

namespace SekurIRCd

open CLib

/-! ## 1. Members in an SJOIN -/

/-- The status characters of `rank_from_prefix`. -/
def markRank (c : Char) : Option RankBit :=
  if c = '~' then some .owner else if c = '&' then some .admin else if c = '@' then some .op
  else if c = '%' then some .halfop else if c = '+' then some .voice else none

/-- `rank_from_prefix`: the rank, and what stands behind its characters. -/
def rankFromMarks : Rank → Text → Rank × Text
  | rank, [] => (rank, [])
  | rank, c :: s =>
    match markRank c with
    | some b => rankFromMarks (rank.grant b) s
    | none => (rank, c :: s)

/-- A member as it is sent. -/
def memberToken (m : Member) : Text := clip 24 (channelRankMarks m.rank ++ m.client)

/-- The member loop of `handle_sjoin`, which stops behind sixty-four joins. -/
def sjoinMembers (users : List Client) (keepRanks : Bool) : List Text → Nat → Channel → Channel
  | [], _, chan => chan
  | tok :: toks, nj, chan =>
    if 64 ≤ nj then chan
    else
      let r := rankFromMarks Rank.none tok
      match h : netsyncFindUid users r.2 with
      | none => sjoinMembers users keepRanks toks nj chan
      | some u =>
        if u.remote = false ∨ (channelFindMember chan u.uid).isSome then
          sjoinMembers users keepRanks toks nj chan
        else
          sjoinMembers users keepRanks toks (nj + 1) (channelAddMember chan
            { client := u.uid
              named := (netsyncFindUid_some h).2.1 ▸ (netsyncFindUid_some h).2.2
              rank := if keepRanks then r.1 else Rank.none
              hidden := false })

/-! ## 2. Receiving

A handler gets the view of one name and returns the view. Lines about other channels leave it as it
is. -/

/-- A channel without members, modes or topic. -/
def newChannel (name : Text) (h : ircValidChannel name 50 = true) (created : Int) : Channel :=
  { Settings.none with
    name := name, nameValid := h, topic := [], topicSetter := [], topicTime := 0
    created := created, members := [] }

/-- The server a line about a channel comes from. -/
def fromServer (srv : Server) (peer : Text) (pfx : Option Text) : Option NetServer :=
  (srcServer srv peer pfx).or (if pfx = some peer then netsyncFindSid srv peer else none)

/-- `reset_channel_for_ts`: the lists go, and the ranks of the members. -/
def resetChannelForTs (chan : Channel) : Channel :=
  { chan with
    bans := [], exceptions := [], invex := []
    members := chan.members.map fun m => { m with rank := Rank.none } }

/-- `handle_sjoin`, on the server's view of the channel called `key`. The two times decide whose
modes and ranks are kept; the members are added in any case. -/
def handleSjoin (srv : Server) (peer key : Text) (now : Int) (view : Option Channel)
    (msg : IrcMessage) : Option Channel :=
  match fromServer srv peer msg.pfx, msg.params with
  | some _, tsText :: name :: modes :: rest =>
    match rest.getLast? with
    | none => view
    | some members =>
      if h : ircValidChannel name 50 = true ∧ ircCasefold chanNameLen name = key then
        let margs := rest.dropLast.take 10
        -- a time of 0 or less would beat every channel
        let ts := if atol tsText ≤ 0 then view.elim now Channel.created else atol tsText
        let toks := strtok ' ' (clip 640 members)
        match view with
        | none =>
          some (sjoinMembers srv.users.clients true toks 0
            (setStateModes (newChannel name h.1 ts) modes margs true))
        | some chan =>
          if ts < chan.created then
            some (sjoinMembers srv.users.clients true toks 0
              { setStateModes (resetChannelForTs chan) modes margs true with created := ts })
          else if ts = chan.created then
            some (sjoinMembers srv.users.clients true toks 0
              (setStateModes chan modes margs false))
          else some (sjoinMembers srv.users.clients false toks 0 chan)
      else view
  | _, _ => view

/-- `handle_bmask`: the lists of a channel of the same age or older count. -/
def handleBmask (srv : Server) (peer key : Text) (view : Option Channel) (msg : IrcMessage) :
    Option Channel :=
  match fromServer srv peer msg.pfx, msg.params, view with
  | some _, tsText :: name :: kind :: masks :: _, some chan =>
    if ircCasefold chanNameLen name = key ∧ atol tsText ≤ chan.created then
      match kind.head?.bind listKind with
      | some kind => some ((strtok ' ' (clip 800 masks)).foldl (fun chan m =>
          match masklistAdd (chan.list kind) m with
          | some l => chan.setList kind l
          | none => chan) chan)
      | none => view
    else view
  | _, _, _ => view

/-- `strcmp`, as far as its sign: whether `a` stands behind `b`. -/
def strcmpGt (a b : Text) : Bool := decide (b < a)

/-- `handle_tb`: the newer topic wins, at the same second the one that stands behind in the order
of `strcmp`. A line with the text that is there is passed over, whatever its time. -/
def handleTb (srv : Server) (peer key : Text) (view : Option Channel) (msg : IrcMessage) :
    Option Channel :=
  match fromServer srv peer msg.pfx, msg.params, view with
  | some _, name :: tsText :: setter :: topic :: _, some chan =>
    let ts := atol tsText
    if ircCasefold chanNameLen name = key ∧ topic ≠ chan.topic ∧
        (chan.topic = [] ∨ chan.topicTime < ts ∨
          ts = chan.topicTime ∧ strcmpGt topic chan.topic = true) then
      some { chan with
        topic := topic.take topicMaxLen, topicSetter := clip 128 setter, topicTime := ts }
    else view
  | _, _, _ => view

/-- `server_maybe_drop_channel`: an empty channel goes, unless it is `+P`. -/
def serverMaybeDropChannel (chan : Channel) : Option Channel :=
  if chan.members ≠ [] ∨ .perm ∈ chan.modes then some chan else none

/-- A member leaves. -/
def leaveChannel (chan : Channel) (uid : Text) : Option Channel :=
  if (channelFindMember chan uid).isSome then
    serverMaybeDropChannel (channelRemoveMember chan uid)
  else some chan

/-- `handle_join`.  A channel that is not there is made, without modes. -/
def handleJoin (srv : Server) (peer key : Text) (now : Int) (view : Option Channel)
    (msg : IrcMessage) : Option Channel :=
  match srcUser srv peer msg.pfx, msg.params with
  | some u, tsText :: name :: _ =>
    if hn : ircValidChannel name 50 = true ∧ ircCasefold chanNameLen name = key then
      let ts := atol tsText
      let chan := view.getD (newChannel name hn.1 (if 0 < ts then ts else now))
      if hu : u.uid = [] ∨ (channelFindMember chan u.uid).isSome then some chan
      else some (channelAddMember chan
        { client := u.uid
          named := fun e => hu (Or.inl e)
          rank := Rank.none
          hidden := decide (.delayjoin ∈ chan.modes) })
    else view
  | _, _ => view

/-- `handle_part`. -/
def handlePart (srv : Server) (peer key : Text) (view : Option Channel) (msg : IrcMessage) :
    Option Channel :=
  match srcUser srv peer msg.pfx, msg.params with
  | some u, name :: _ =>
    if ircCasefold chanNameLen name = key then view.bind fun chan => leaveChannel chan u.uid else view
  | _, _ => view

/-- `handle_kick`, for a kicker that is a user or a server behind the link. -/
def handleKick (srv : Server) (peer key : Text) (view : Option Channel) (msg : IrcMessage) :
    Option Channel :=
  match msg.params with
  | name :: target :: _ =>
    if (srcUser srv peer msg.pfx).isSome ∨ (srcServer srv peer msg.pfx).isSome then
      match netsyncFindUid srv.users.clients target with
      | some t =>
        if ircCasefold chanNameLen name = key then view.bind fun chan => leaveChannel chan t.uid else view
      | none => view
    else view
  | _ => view

/-- `handle_quit`, as far as the channel is concerned: `server_remove_client` takes the user out
of it. -/
def handleQuit (srv : Server) (peer : Text) (view : Option Channel) (msg : IrcMessage) :
    Option Channel :=
  match srcUser srv peer msg.pfx with
  | some u => view.bind fun chan => leaveChannel chan u.uid
  | none => view

/-- `handle_topic`.  It takes the topic as it comes, and sets the time of its own clock. -/
def handleTopic (srv : Server) (peer key : Text) (now : Int) (view : Option Channel)
    (msg : IrcMessage) : Option Channel :=
  match lineSource srv peer msg.pfx, msg.params, view with
  | some source, name :: rest, some chan =>
    match rest.getLast? with
    | none => view
    | some text =>
      if ircCasefold chanNameLen name = key then
        some { chan with
          topic := text.take topicMaxLen, topicSetter := clip 128 source, topicTime := now }
      else view
  | _, _, _ => view

/-- `netsync_handle`, for the lines above. A line that is not about this channel, or whose source
is not behind the link, changes nothing. -/
def netsyncHandle (srv : Server) (peer key : Text) (now : Int) (view : Option Channel)
    (msg : IrcMessage) : Option Channel :=
  if msg.command = "SJOIN".toList then handleSjoin srv peer key now view msg
  else if msg.command = "JOIN".toList then handleJoin srv peer key now view msg
  else if msg.command = "BMASK".toList then handleBmask srv peer key view msg
  else if msg.command = "TB".toList then handleTb srv peer key view msg
  else if msg.command = "PART".toList then handlePart srv peer key view msg
  else if msg.command = "KICK".toList then handleKick srv peer key view msg
  else if msg.command = "QUIT".toList then handleQuit srv peer view msg
  else if msg.command = "TOPIC".toList then handleTopic srv peer key now view msg
  else if msg.command = "MODE".toList then view.map fun chan => (handleMode srv peer chan msg).chan
  else view

/-- A line arriving on the link to `peer`. -/
def receive (srv : Server) (peer key : Text) (now : Int) (view : Option Channel) (line : Text) :
    Option Channel :=
  match ircParseLine line with
  | some msg => netsyncHandle srv peer key now view msg
  | none => view

/-! ## 3. Sending -/

/-- An SJOIN with the channel's modes and the tokens `members`. -/
def sjoinLine (srv : Server) (outsz : Nat) (chan : Channel) (members : Text) : Text :=
  (ircBuild outsz [] (some srv.sid) "SJOIN".toList
    (intDecimal chan.created :: chan.name :: (strtok ' ' (channelModesString chan 360)).take 10)
    (some members)).text

/-- `netsync_chan_kick`. -/
def netsyncChanKick (srv : Server) (chan : Channel) (kicker : Client) (target : Text)
    (reason : Text) : Text :=
  (ircBuild 500 [] (some (wireSource srv kicker)) "KICK".toList [chan.name, target]
    (some reason)).text

end SekurIRCd
