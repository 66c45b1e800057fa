/-
# Who is in which channel

A membership is kept twice: the channel has a `member_t` for the client, with its rank, and the
client has the channel in its list.  A dozen places write both, by JOIN, by force, for a link or
for services, and as many take both away.

`Hall` is the clients of `Node` with their channels.  What stands between a name on a line and a
channel or a client that it finds is modelled; the verdicts of the checks that only read are not.
-/
import SekurIRCd.Net.Channels
import SekurIRCd.Net.Clients

namespace SekurIRCd

open CLib

/-! ## 1. Channels and their members

Everything is at an address, and an address that was freed may not be led to any more. So the two
sides are lists of addresses, and keep them whether or not anything is there. -/

/-- `member_t`: a client, by its address, with its rank.  Both are kept as the code keeps them: a
client may still be without the UID that a `Member` of a `Channel` is known by, and the bits of a
rank are not closed by construction as in `Rank`. -/
structure Seat where
  client : Nat
  rank : Finset RankBit
deriving DecidableEq

/-- `channel_t`, as far as its members go. -/
structure Room where
  casefoldName : Text
  modes : Finset CMode
  created : Int
  members : List Seat
deriving DecidableEq

/-- The clients with their nicks, the channels at their addresses, the list of channels that each
client has, and whose coming to a channel the links were told of. -/
structure Hall where
  autoJoin : List Text
  defaultModes : Finset CMode
  node : Node
  nextChan : Nat
  chans : Nat → Option Room
  channels : Nat → List Nat
  announced : List (Nat × Nat)

/-- A server that starts. -/
def Hall.start (maxNickLength : Nat) (autoJoin : List Text) (defaultModes : Finset CMode) : Hall :=
  ⟨autoJoin, defaultModes, Node.start maxNickLength, 0, fun _ => none, fun _ => [], []⟩

/-- `channel_find_member`. -/
def Room.findMember (chan : Room) (p : Nat) : Option Seat := chan.members.find? fun m => m.client == p

/-- `channel_remove_member`. -/
def Room.removeMember (chan : Room) (p : Nat) : Room :=
  { chan with members := chan.members.filter fun m => m.client != p }

/-- One member's rank is written over. -/
def Room.setRank (chan : Room) (p : Nat) (f : Finset RankBit → Finset RankBit) : Room :=
  { chan with members := chan.members.map fun m => if m.client = p then { m with rank := f m.rank } else m }

/-- A rank letter, as every decoder applies it: owners and admins are ops too, and `-o` is a full
demotion.  On closed ranks it is `Rank.grant` and `Rank.revoke` (`rankAfter_bits`). -/
def rankAfter (add : Bool) (b : RankBit) (rank : Finset RankBit) : Finset RankBit :=
  if add then
    let rank := insert b rank
    if b = .owner ∨ b = .admin then insert .op rank else rank
  else
    let rank := rank.erase b
    if b = .op then (rank.erase .admin).erase .owner else rank

/-- `rank_from_prefix` on bits (`rankFromPrefix_bits`). -/
def rankFromPrefix : Finset RankBit → Text → Finset RankBit × Text
  | rank, [] => (rank, [])
  | rank, c :: s =>
    if c = '~' then rankFromPrefix (insert .owner (insert .op rank)) s
    else if c = '&' then rankFromPrefix (insert .admin (insert .op rank)) s
    else if c = '@' then rankFromPrefix (insert .op rank) s
    else if c = '%' then rankFromPrefix (insert .halfop rank) s
    else if c = '+' then rankFromPrefix (insert .voice rank) s
    else (rank, c :: s)

/-- `channel_rank_level` on bits (`rankLevel_bits`). -/
def rankLevel (rank : Finset RankBit) : Nat :=
  if .owner ∈ rank then 5 else if .admin ∈ rank then 4 else if .op ∈ rank then 3
  else if .halfop ∈ rank then 2 else if .voice ∈ rank then 1 else 0

namespace Hall

variable (s : Hall)

/-- A channel that is found, where it is. -/
def at? (k : Nat) : Option (Nat × Room) := (s.chans k).map fun chan => (k, chan)

/-- `server_find_channel`. -/
def serverFindChannel (name : Text) : Option (Nat × Room) :=
  ((List.range s.nextChan).find? fun k => (s.chans k).any fun chan =>
    chan.casefoldName == ircCasefold chanNameLen name).bind s.at?

/-- A channel is written over. -/
def write (k : Nat) (chan : Room) : Hall := { s with chans := Function.update s.chans k (some chan) }

/-- `server_get_or_create_channel`, with the modes and the age a new channel gets. -/
def serverGetOrCreateChannel (name : Text) (modes : Finset CMode) (created : Int) :
    Hall × Nat × Room :=
  match s.serverFindChannel name with
  | some x => (s, x)
  | none =>
    let chan : Room := ⟨ircCasefold chanNameLen name, modes, created, []⟩
    ({ s with nextChan := s.nextChan + 1 }.write s.nextChan chan, s.nextChan, chan)

/-- `server_attach_membership`. -/
def serverAttachMembership (p k : Nat) : Hall :=
  { s with channels := Function.update s.channels p (k :: s.channels p) }

/-- `server_detach_membership`. -/
def serverDetachMembership (p k : Nat) : Hall :=
  { s with channels := Function.update s.channels p ((s.channels p).erase k) }

/-- `server_maybe_drop_channel`. -/
def serverMaybeDropChannel (k : Nat) : Hall :=
  match s.chans k with
  | some chan =>
    if chan.members ≠ [] ∨ .perm ∈ chan.modes then s
    else { s with chans := Function.update s.chans k none }
  | none => s

/-- `channel_add_member`, of one who is not there, and `server_attach_membership`. Both sides are
written, one after the other. -/
def seat (k : Nat) (chan : Room) (p : Nat) (rank : Finset RankBit) : Hall :=
  (s.write k { chan with members := chan.members ++ [⟨p, rank⟩] }).serverAttachMembership p k

/-- `channel_remove_member`, `server_detach_membership` and `server_maybe_drop_channel`. -/
def unseat (k : Nat) (chan : Room) (p : Nat) : Hall :=
  ((s.write k (chan.removeMember p)).serverDetachMembership p k).serverMaybeDropChannel k

/-- `netsync_chan_join`; a client without a UID is not announced. What the links were told of is
kept, to be compared with who is there. -/
def netsyncChanJoin (k p : Nat) (cl : Conn) : Hall :=
  if cl.uid = [] then s else { s with announced := (p, k) :: s.announced }

/-! ## 2. Joining

All ways into a channel come down to `seat`, and differ in what they check before and in the rank
they give. -/

/-- `cmd_force_join`. -/
def cmdForceJoin (p : Nat) (cl : Conn) (name : Text) (now : Int) : Hall :=
  if ircValidChannel name 50 = false then s
  else
    let isNew := (s.serverFindChannel name).isNone
    let r := s.serverGetOrCreateChannel name s.defaultModes now
    if (r.2.2.findMember p).isSome then r.1
    else (r.1.seat r.2.1 r.2.2 p (if isNew then {.op} else ∅)).netsyncChanJoin r.2.1 p cl

/-- `do_join_one`.  `admitted` is the verdict of its checks; a redirect is a join of its own, and
what `+f` sets is a MODE. -/
def doJoinOne (p : Nat) (cl : Conn) (name : Text) (admitted : Bool) (now : Int) : Hall :=
  if ircValidChannel name 50 = false then s
  else if (s.serverFindChannel name).any (fun x => (x.2.findMember p).isSome) then s
  else if admitted = false then s
  else
    let isNew := (s.serverFindChannel name).isNone
    let r := s.serverGetOrCreateChannel name s.defaultModes now
    (r.1.seat r.2.1 r.2.2 p (if isNew then {.op} else ∅)).netsyncChanJoin r.2.1 p cl

/-- `cmd_sajoin`, one channel. -/
def sajoinOne (p : Nat) (cl : Conn) (now : Int) (s : Hall) (name : Text) : Hall :=
  if ircValidChannel name 50 = false then s
  else if (s.serverFindChannel name).any (fun x => (x.2.findMember p).isSome) then s
  else s.cmdForceJoin p cl name now

/-- `cmd_sajoin`; a target on another server is passed on. -/
def cmdSajoin (nick chans : Text) (now : Int) : Hall :=
  match s.node.serverFindUser nick with
  | some (p, target) =>
    if target.remote then s
    else (strtok ',' (clip 600 chans)).foldl (sajoinOne p target now) s
  | none => s

/-- The services' JOIN: the bot is op. -/
def svcJoin (p : Nat) (svc : Conn) (name : Text) (now : Int) : Hall :=
  let s := s.cmdForceJoin p svc name now
  match s.serverFindChannel name with
  | some (k, chan) => s.write k (chan.setRank p (rankAfter true .op))
  | none => s

/-- The auto-joins at the end of a registration. -/
def autoJoins (p : Nat) (cl : Conn) (now : Int) : Hall :=
  s.autoJoin.foldl (fun s name => s.cmdForceJoin p cl name now) s

/-- The member loop of `handle_sjoin`, which stops behind sixty-four joins. -/
def sjoinLoop (keepRanks : Bool) (k : Nat) : List Text → Nat → Hall → Hall
  | [], _, s => s
  | tok :: toks, nj, s =>
    if 64 ≤ nj then s
    else
      let r := rankFromPrefix ∅ tok
      match s.node.netsyncFindUid r.2, s.chans k with
      | some (p, u), some chan =>
        if u.remote = false ∨ (chan.findMember p).isSome then sjoinLoop keepRanks k toks nj s
        else sjoinLoop keepRanks k toks (nj + 1) (s.seat k chan p (if keepRanks then r.1 else ∅))
      | _, _ => sjoinLoop keepRanks k toks nj s

/-- `handle_sjoin`, with the modes that its mode string stands for. -/
def handleSjoin (ts : Int) (name : Text) (modes : Finset CMode) (members : Text) (now : Int) : Hall :=
  if ircValidChannel name 50 = false then s
  else
    let toks := strtok ' ' (clip 640 members)
    match s.serverFindChannel name with
    | none =>
      let r := s.serverGetOrCreateChannel name modes (if ts ≤ 0 then now else ts)
      sjoinLoop true r.2.1 toks 0 r.1
    | some (k, chan) =>
      let ts := if ts ≤ 0 then chan.created else ts
      if ts < chan.created then
        -- `reset_channel_for_ts`: theirs is older
        let chan := { chan with
          created := ts, modes := modes, members := chan.members.map fun m => { m with rank := ∅ } }
        sjoinLoop true k toks 0 (s.write k chan)
      else if ts = chan.created then
        sjoinLoop true k toks 0 (s.write k { chan with modes := chan.modes ∪ modes })
      else sjoinLoop false k toks 0 s

/-- `handle_join`, for the user that the line comes from. -/
def handleJoin (p : Nat) (ts : Int) (name : Text) (now : Int) : Hall :=
  let r := s.serverGetOrCreateChannel name ∅ (if 0 < ts then ts else now)
  if (r.2.2.findMember p).isSome then r.1 else r.1.seat r.2.1 r.2.2 p ∅

/-! ## 3. Leaving, ranks and names

All ways out come down to `unseat`. A client that goes for good leaves its channels one by one. -/

/-- A member goes from a channel that is found by name: `cmd_part`, `cmd_kick`, `cmd_sapart`,
`flood_kick`, the services' PART and KICK, `handle_part` and `handle_kick`. -/
def leaveNamed (p : Nat) (name : Text) : Hall :=
  match s.serverFindChannel name with
  | some (k, chan) => if (chan.findMember p).isSome then s.unseat k chan p else s
  | none => s

/-- `server_remove_client`, one channel. -/
def removeFrom (p : Nat) (s : Hall) (k : Nat) : Hall :=
  match s.chans k with
  | some chan => (s.write k (chan.removeMember p)).serverMaybeDropChannel k
  | none => s

/-- `server_remove_client`: the channels of a client that goes. -/
def leaveAllChannels (p : Nat) : Hall :=
  let t := (s.channels p).foldl (removeFrom p) s
  { t with channels := Function.update t.channels p [] }

/-- The setter at `q` is not senior enough to change the status of the member `tm` at `p`. -/
def tooJunior (chan : Room) (q p : Nat) (cl : Conn) (oper add : Bool) (b : RankBit) (tm : Seat) :
    Bool :=
  let setterLevel :=
    if oper || cl.isService then 99 else (chan.findMember q).elim 0 fun m => rankLevel m.rank
  let need := if b = .owner then 5 else if b = .admin then 4 else 0
  let selfDrop := decide (p = q) && !add
  !selfDrop && (decide (setterLevel < need) || (!add && decide (setterLevel < rankLevel tm.rank)))

/-- The rank letters of `cmd_apply_channel_mode`, one at a time, for a setter at `q`. -/
def applyRankLetter (q : Nat) (cl : Conn) (oper : Bool) (name : Text) (s : Hall)
    (letter : Bool × RankBit × Text) : Hall :=
  match s.serverFindChannel name, s.node.serverFindUser letter.2.2 with
  | some (k, chan), some (p, target) =>
    match chan.findMember p with
    | some tm =>
      if target.isService && !letter.1 && !cl.isService then s
      else if tooJunior chan q p cl oper letter.1 letter.2.1 tm then s
      else if letter.1 = decide (letter.2.1 ∈ tm.rank) then s
      else s.write k (chan.setRank p (rankAfter letter.1 letter.2.1))
    | none => s
  | _, _ => s

/-- The rank letters of `handle_mode`, whose arguments are UIDs. -/
def handleRankLetter (name : Text) (s : Hall) (letter : Bool × RankBit × Text) : Hall :=
  match s.serverFindChannel name, s.node.netsyncFindUid letter.2.2 with
  | some (k, chan), some (p, _) =>
    if (chan.findMember p).isSome then s.write k (chan.setRank p (rankAfter letter.1 letter.2.1))
    else s
  | _, _ => s

/-- The flags of a MODE: the channel has others then. -/
def setModes (name : Text) (modes : Finset CMode) : Hall :=
  match s.serverFindChannel name with
  | some (k, chan) => s.write k { chan with modes := modes }
  | none => s

/-- `cmd_channel_rename_apply`, for a name that no other channel has.  RENAME may change the case
of a name; from a link the new name must be no one's. -/
def rename (old new : Text) (fromLink : Bool) : Hall :=
  match s.serverFindChannel old with
  | some (k, chan) =>
    if (s.serverFindChannel new).any (fun x => fromLink || x.1 != k) then s
    else s.write k { chan with casefoldName := ircCasefold chanNameLen new }
  | none => s

/-! ## 4. Runs -/

/-- The clients after an event, and the channels without those who went by it. -/
def withNode (t : Node) : Hall :=
  let gone := (List.range s.node.next).filter fun p => (s.node.conns p).isSome && (t.conns p).isNone
  { gone.foldl leaveAllChannels s with node := t }

/-- A command of a registered user. -/
def dispatch (p : Nat) (f : Conn → Hall) : Hall :=
  match s.node.conns p with
  | some c => if c.quitting || c.remote || c.isService || !c.registered then s else f c
  | none => s

end Hall

inductive HallEvent
  /-- Connections, registrations, nicks, collisions and teardown. -/
  | node (e : NodeEvent) (h : e.Assigns)
  | join (p : Nat) (name : Text) (admitted : Bool) (now : Int)
  /-- `cmd_oper`, which joins the oper's own channel. -/
  | oper (p : Nat) (name : Text) (now : Int)
  | sajoin (nick chans : Text) (now : Int)
  /-- SAJOIN for one of our users, from an oper elsewhere. -/
  | encapSajoin (uid chans : Text) (now : Int)
  | svcJoin (p : Nat) (name : Text) (now : Int)
  | sjoin (ts : Int) (name : Text) (modes : Finset CMode) (members : Text) (now : Int)
  | remoteJoin (uid : Text) (ts : Int) (name : Text) (now : Int)
  | leave (p : Nat) (name : Text)
  /-- The rank letters of MODE, SAMODE and the services' MODE. -/
  | ranks (p : Nat) (oper : Bool) (name : Text) (letters : List (Bool × RankBit × Text))
  | remoteRanks (name : Text) (letters : List (Bool × RankBit × Text))
  | modes (name : Text) (modes : Finset CMode)
  | rename (old new : Text) (fromLink : Bool)

def hallStep (s : Hall) : HallEvent → Hall
  | .node e _ =>
    let t := s.withNode (nodeStep s.node e)
    match e with
    | .ready p _ _ now =>
      match s.node.conns p, t.node.conns p with
      | some c, some d => if !c.registered && d.registered then t.autoJoins p d now else t
      | _, _ => t
    | _ => t
  | .join p name admitted now => s.dispatch p fun c => s.doJoinOne p c name admitted now
  | .oper p name now => s.dispatch p fun c => s.cmdForceJoin p c name now
  | .sajoin nick chans now => s.cmdSajoin nick chans now
  | .encapSajoin uid chans now =>
    match s.node.netsyncFindUid uid with
    | some (_, target) => if target.remote then s else s.cmdSajoin target.nick chans now
    | none => s
  | .svcJoin p name now =>
    match s.node.conns p with
    | some c => if c.isService then s.svcJoin p c name now else s
    | none => s
  | .sjoin ts name modes members now => s.handleSjoin ts name modes members now
  | .remoteJoin uid ts name now =>
    match (s.node.netsyncFindUid uid).filter fun x => x.2.remote with
    | some (p, _) => s.handleJoin p ts name now
    | none => s
  | .leave p name => s.leaveNamed p name
  | .ranks p oper name letters =>
    match s.node.conns p with
    | some c => letters.foldl (Hall.applyRankLetter p c oper name) s
    | none => s
  | .remoteRanks name letters => letters.foldl (Hall.handleRankLetter name) s
  | .modes name modes => s.setModes name modes
  | .rename old new fromLink => s.rename old new fromLink

end SekurIRCd
