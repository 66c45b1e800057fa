/-
# What a user can ask

NAMES, LIST, WHO, WHOIS and TOPIC tell about channels and who is in them.  A `+s` or `+p` channel is
for its members: the others are not told who is in it, nor its topic.  They may see that there is
one, since its name answers NAMES in its own case and WHO without an error, and a `+p` channel is
counted by LIST.

`queries_blind` says that this is all: two servers that are the same but for channels like these,
whoever is in them and whatever they hold, answer every such question in the same words.  That goes
for operators, too.

Members are found by their UIDs.  The lines are those of `client_reply`, wherever the asker is.
-/
import SekurIRCd.Address
import SekurIRCd.Net.DelayedJoin
import SekurIRCd.Net.UserLines

namespace SekurIRCd

open CLib

namespace Queries

/-! ## 1. The server

The server is what queries read of it. A user keeps its channels beside the channels' own lists of
members. -/

/-- `client_t`, as queries show it. Who asks is a person, too, and the form of an answer depends on
its capabilities. -/
structure Person extends UserSync.UserState where
  uid : Text
  casefoldNick : Text
  registered : Bool
  remote : Bool
  /-- `nserver`: its SID, name and description. -/
  nserver : Option (Text × Text × Text)
  lastActivity : Int
  signonTime : Int
  multiPrefix : Bool
  userhostInNames : Bool

/-- A user with `channels`, by their casefolded names. -/
structure Seat where
  person : Person
  channels : List Text

/-- `server_t`.  The users and the channels stand in the order of their tables. -/
structure Hall where
  name : Text
  network : Text
  now : Int
  users : List Seat
  chans : List (Text × Channel)
  /-- A user keeps no channel that it is not in. -/
  joined : ∀ u ∈ users, ∀ k ∈ u.channels,
    (chans.lookup k).any (fun c => (channelFindMember c u.person.uid).isSome) = true

/-- What a query does: a line for a user, or a question for another server. -/
inductive Sent
  | line (dest text : Text)
  | ask (sid : Text) (words : List Text)

/-- A `+s` or `+p` channel, for who is not in it. -/
def hides (c : Channel) (uid : Text) : Bool :=
  decide (.s ∈ c.modes ∨ .p ∈ c.modes) && (channelFindMember c uid).isNone

namespace Hall

variable (inet : IpText) (h : Hall) (cl : Person)

/-- `client_reply`. -/
def reply (code : String) (params : List Text) (trailing : Option Text) : Sent :=
  .line cl.uid (ircBuild 1024 [] (some (if h.name = [] then "server".toList else h.name))
    code.toList ((if cl.nick = [] then ['*'] else cl.nick) :: params) trailing).text

/-- The user with this UID. -/
def seatOf (uid : Text) : Option Seat := h.users.find? fun u => u.person.uid == uid

/-- `server_find_user`. -/
def findUser (nick : Text) : Option Seat :=
  h.users.find? fun u => u.person.casefoldNick == ircCasefold nickLen nick

/-- `server_find_channel`. -/
def findChannel (name : Text) : Option Channel := h.chans.lookup (ircCasefold chanNameLen name)

/-- `netsync_server_name_of`. -/
def serverNameOf (u : Person) : Text :=
  match u.nserver with
  | some s => if u.remote then s.2.1 else h.name
  | none => h.name

/-! ## 2. NAMES, TOPIC and LIST

What hides a channel is asked once for each of them, before any of its members is looked at. -/

/-- `channel_rank_prefix`. -/
def rankMarks (rank : Rank) (multi : Bool) : Text :=
  if multi then channelRankMarks rank else (channelRankMarks rank).take 1

/-- `client_ident`. -/
def clientIdent (u : Person) : Text := ircIdentFor 66 u.user u.identConfirmed

/-- `nickbuf`. -/
def nameEntry (m : Member) (u : Person) : Text :=
  clip (64 + 256 + 8)
    (if cl.userhostInNames then
      rankMarks m.rank cl.multiPrefix ++ u.nick ++ '!' :: clientIdent u ++ '@' :: u.host
    else rankMarks m.rank cl.multiPrefix ++ u.nick)

/-- The members of a channel that the asker sees. -/
def shownMembers (c : Channel) : List (Member × Seat) :=
  (c.members.filter fun m =>
    DelayedJoin.channelMemberVisible c m (channelFindMember c cl.uid)).filterMap fun m =>
      (h.seatOf m.client).map fun u => (m, u)

def endOfNames (name : Text) : Sent := h.reply cl "366" [name] (some "End of /NAMES list.".toList)

/-- `send_names`. -/
def sendNames (c : Channel) : List Sent :=
  let overhead := h.name.length + cl.nick.length + c.name.length + 16
  let budget := min (if overhead < 510 - 64 then 510 - overhead else 64) 399
  let chantype : Text := if .s ∈ c.modes then ['@'] else if .p ∈ c.modes then ['*'] else ['=']
  let entries := (h.shownMembers cl c).map fun x => (x.1.client, nameEntry cl x.1 x.2.person)
  ((DelayedJoin.namesLoop budget entries [] []).map fun x =>
    h.reply cl "353" [chantype, c.name] (some x.2)) ++ [h.endOfNames cl c.name]

/-- `cmd_names`, of one channel. -/
def namesOne (tok : Text) : List Sent :=
  match h.findChannel tok with
  | some c => if hides c cl.uid then [h.endOfNames cl c.name] else h.sendNames cl c
  | none => [h.endOfNames cl tok]

/-- `cmd_names`. -/
def cmdNames (params : List Text) : List Sent :=
  match params with
  | [] => [h.endOfNames cl ['*']]
  | p :: _ => (strtok ',' (clip 600 p)).flatMap (h.namesOne cl)

/-- `cmd_topic`, when no topic is given. -/
def cmdTopic (name : Text) : List Sent :=
  match h.findChannel name with
  | none => [h.reply cl "403" [name] (some "No such channel".toList)]
  | some c =>
    if (channelFindMember c cl.uid).isNone then
      [h.reply cl "442" [c.name] (some "You're not on that channel".toList)]
    else if c.topic = [] then [h.reply cl "331" [c.name] (some "No topic is set".toList)]
    else
      [h.reply cl "332" [c.name] (some c.topic),
        h.reply cl "333" [c.name, c.topicSetter, intDecimal c.topicTime] none]

/-- What LIST is asked for: `wanted`, `masks`, `neg_masks`, `min_users` and `max_users`. -/
structure ListFilter where
  wanted : List Text
  masks : List Text
  neg : List Text
  minUsers : Int
  maxUsers : Int

/-- An entry more, while there are fewer than 32. -/
def addMask (l : List Text) (body : Text) : List Text :=
  if l.length < 32 then l ++ [ircCasefold chanNameLen body] else l

/-- One word of LIST's parameter. -/
def ListFilter.add (f : ListFilter) (tok : Text) : ListFilter :=
  let negate := decide (tok.head? = some '!') && !tok.tail.isEmpty
  let body := if negate then tok.tail else tok
  let digit := tok.tail.head?.any Char.isDigit
  if !negate && decide (tok.head? = some '>') && digit then { f with minUsers := atoi tok.tail }
  else if !negate && decide (tok.head? = some '<') && digit then
    { f with maxUsers := atoi tok.tail }
  else if negate then { f with neg := addMask f.neg body }
  else if body.head? = some '#' ∧ '*' ∉ body ∧ '?' ∉ body then
    { f with wanted := addMask f.wanted body }
  else { f with masks := addMask f.masks body }

def ListFilter.parse (params : List Text) : ListFilter :=
  match params with
  | [] => ⟨[], [], [], -1, -1⟩
  | p :: _ => (strtok ',' (clip 600 p)).foldl ListFilter.add ⟨[], [], [], -1, -1⟩

/-- The channel of this key is asked for. -/
def ListFilter.takes (f : ListFilter) (key : Text) : Bool :=
  (f.wanted.isEmpty || f.wanted.any (· == key)) &&
    (f.masks.isEmpty || f.masks.any fun m => ircGlobMatch m key) &&
    !(f.neg.any fun m => ircGlobMatch m key)

/-- A number of members that is asked for. -/
def ListFilter.counts (f : ListFilter) (n : Nat) : Bool :=
  !(decide (0 ≤ f.minUsers) && decide ((n : Int) ≤ f.minUsers)) &&
    !(decide (0 ≤ f.maxUsers) && decide (f.maxUsers ≤ (n : Int)))

/-- One channel of LIST. -/
def listOne (f : ListFilter) (key : Text) (c : Channel) : List Sent :=
  if f.takes key = true ∧ f.counts c.members.length = true then
    let isMember := (channelFindMember c cl.uid).isSome
    if .s ∈ c.modes ∧ isMember = false then []
    else if .p ∈ c.modes ∧ isMember = false then
      [h.reply cl "322" [['*'], decimal c.members.length] (some [])]
    else [h.reply cl "322" [c.name, decimal c.members.length] (some c.topic)]
  else []

/-- `cmd_list`. -/
def cmdList (params : List Text) : List Sent :=
  [h.reply cl "321" ["Channel".toList] (some "Users  Name".toList)] ++
    h.chans.flatMap (fun e => h.listOne cl (ListFilter.parse params) e.1 e.2) ++
    [h.reply cl "323" [] (some "End of /LIST".toList)]

/-! ## 3. WHO

WHO lists users and names a channel with each. Both what is listed and what is named may not depend
on a hidden one. -/

/-- `visible_oper`. -/
def visibleOper (u : Person) : Bool :=
  u.umodes .o && (!u.umodes .h || decide (u.uid = cl.uid) || cl.umodes .o)

/-- `shares_channel`. -/
def sharesChannel (a b : List Text) : Bool := a.any fun x => b.any fun y => x == y

/-- `invisible_to`; `mine` are the asker's channels. -/
def invisibleTo (mine : List Text) (u : Seat) : Bool :=
  u.person.umodes .i && !decide (u.person.uid = cl.uid) && !cl.umodes .o &&
    !sharesChannel u.channels mine

/-- The channel with this key, if the asker may see it. -/
def shows (key : Text) : Option Channel := (h.chans.lookup key).filter fun c => !hides c cl.uid

/-- `who_channel_for`. -/
def whoChannelFor (u : Seat) : Option Channel := u.channels.findSome? (h.shows cl)

/-- `flags`: away, operator, bot, and the rank in the channel. -/
def whoFlags (size : Nat) (u : Person) (c : Option Channel) : Text :=
  let rank := ((c.bind fun c => channelFindMember c u.uid).map Member.rank).getD Rank.none
  clip size ((if u.isAway then "G".toList else "H".toList) ++
    (if visibleOper cl u then "*".toList else []) ++ (if u.umodes .b then "B".toList else []) ++
    rankMarks rank cl.multiPrefix)

/-- `whox_value`. -/
def whoxValue (letter : Char) (u : Person) (c : Option Channel) (token : Text) : Text :=
  match letter with
  | 't' => token
  | 'c' => (c.map Channel.name).getD ['*']
  | 'u' => clientIdent u
  | 'i' => if cl.umodes .o || decide (u.uid = cl.uid) then u.ip else "255.255.255.255".toList
  | 'h' => u.host
  | 's' => h.serverNameOf u
  | 'n' => u.nick
  | 'f' => whoFlags cl 32 u c
  | 'd' => "0".toList
  | 'o' => "0".toList
  | 'l' => clip 32 (intDecimal (h.now - u.lastActivity))
  | 'a' => if u.account = [] then "0".toList else u.account
  | _ => []

/-- `send_whox_reply`. -/
def whoxReply (fields token : Text) (u : Person) (c : Option Channel) : Sent :=
  h.reply cl "354"
    (("tcuihsnfdlao".toList.filter fun f => decide (f ∈ fields)).map fun f =>
      h.whoxValue cl f u c token)
    (if 'r' ∈ fields then some u.realname else none)

/-- `send_who_classic`. -/
def whoClassic (u : Person) (c : Option Channel) : Sent :=
  h.reply cl "352" [(c.map Channel.name).getD ['*'], clientIdent u, u.host, h.serverNameOf u,
    u.nick, whoFlags cl 10 u c] (some (clip 600 ("0 ".toList ++ u.realname)))

/-- `client_prefix(u, full, 400)`. -/
def fullName (u : Person) : Text :=
  let nick := if u.nick = [] then ['*'] else u.nick
  let host := if u.host = [] then ['*'] else u.host
  clip 400
    (if u.identConfirmed then nick ++ '!' :: u.user ++ '@' :: host
    else if u.user = [] then nick ++ '@' :: host
    else nick ++ '!' :: ircIdentFor 128 u.user false ++ '@' :: host)

/-- `who_mask_hit`. -/
def whoMaskHit (u : Person) (mask : Text) : Bool :=
  mask == "0".toList || mask == "*".toList ||
    [u.nick, u.user, u.host, h.serverNameOf u, u.realname, fullName u].any (ircGlobMatch mask) ||
    cl.umodes .o && (ircGlobMatch mask u.realhost || ircIpMaskMatch inet mask u.ip)

/-- The second parameter of WHO: only operators, and the fields and the token of WHOX. -/
structure WhoFormat where
  opersOnly : Bool
  fields : Option (Text × Text)

def WhoFormat.parse (params : List Text) : WhoFormat :=
  match params with
  | _ :: p :: _ =>
    match strchr '%' p with
    | none => ⟨decide ('o' ∈ p), none⟩
    | some (flags, rest) =>
      match strchr ',' rest with
      | some (fields, token) => ⟨decide ('o' ∈ flags), some (clip 32 fields, clip 64 token)⟩
      | none => ⟨decide ('o' ∈ flags), some (rest, [])⟩
  | _ => ⟨false, none⟩

/-- One line of WHO. -/
def whoLine (f : WhoFormat) (u : Person) (c : Option Channel) : Sent :=
  match f.fields with
  | some (fields, token) => h.whoxReply cl fields token u c
  | none => h.whoClassic cl u c

def endOfWho (target : Text) : Sent := h.reply cl "315" [target] (some "End of /WHO list.".toList)

/-- WHO of a channel. -/
def whoChannel (mine : List Text) (f : WhoFormat) (target : Text) : List Sent :=
  match h.findChannel target with
  | none => [h.reply cl "403" [target] (some "No such channel".toList)]
  | some c =>
    if hides c cl.uid then [h.endOfWho cl target]
    else
      ((h.shownMembers cl c).filterMap fun x =>
        if (channelFindMember c cl.uid).isNone && invisibleTo cl mine x.2 then none
        else if f.opersOnly && !visibleOper cl x.2.person then none
        else some (h.whoLine cl f x.2.person (some c))) ++ [h.endOfWho cl target]

/-- WHO of a mask. -/
def whoMask (mine : List Text) (f : WhoFormat) (target : Text) : List Sent :=
  let hits := h.users.filter fun u =>
    u.person.registered && !invisibleTo cl mine u &&
      !(f.opersOnly && !visibleOper cl u.person) && h.whoMaskHit inet cl u.person target
  (hits.map fun u => h.whoLine cl f u.person (h.whoChannelFor cl u)) ++
    (if hits.isEmpty && decide ('*' ∉ target ∧ '?' ∉ target) && decide (target ≠ "0".toList) then
      [h.reply cl "401" [target] (some "No such nick/channel".toList)]
    else [])

/-- `cmd_who`. -/
def cmdWho (mine : List Text) (params : List Text) : List Sent :=
  let f := WhoFormat.parse params
  match params with
  | [] => [h.reply cl "461" ["WHO".toList] (some "Not enough parameters".toList)]
  | target :: _ =>
    if target = [] then [h.reply cl "461" ["WHO".toList] (some "Not enough parameters".toList)]
    else if target.head? = some '#' ∨ target.head? = some '&' then h.whoChannel cl mine f target
    else
      match (h.findUser target).filter fun u => u.person.registered with
      | some u =>
        (if f.opersOnly && !visibleOper cl u.person then []
        else [h.whoLine cl f u.person (h.whoChannelFor cl u)]) ++ [h.endOfWho cl target]
      | none => h.whoMask inet cl mine f target ++ [h.endOfWho cl target]

/-! ## 4. WHOIS -/

/-- The channels that WHOIS lists, while they fit `chanbuf`. -/
def whoisChannels (u : Seat) : Text :=
  (u.channels.filterMap (h.shows cl)).foldl
    (fun buf c =>
      let rank := ((channelFindMember c u.person.uid).map Member.rank).getD Rank.none
      let entry := clip 80 ((if buf = [] then [] else [' ']) ++ rankMarks rank false ++ c.name)
      if buf.length + entry.length < 1024 then buf ++ entry else buf)
    []

/-- The note for who asked to be told. -/
def whoisNote (u : Person) : List Sent :=
  if u.umodes .whoisnote && !decide (u.uid = cl.uid) then
    [.line u.uid (ircBuild 520 [] (some h.name) "NOTICE".toList [u.nick]
      (some (clip 400 ("*** Notice -- ".toList ++ cl.nick ++ " (".toList ++ clientIdent cl ++
        '@' :: cl.host ++ ") did a /WHOIS on you".toList)))).text]
  else []

/-- `whois_one`. -/
def whoisOne (nick : Text) : List Sent :=
  match (h.findUser nick).filter fun u => u.person.registered with
  | none =>
    [h.reply cl "401" [nick] (some "No such nick/channel".toList),
      h.reply cl "318" [nick] (some "End of /WHOIS list.".toList)]
  | some u =>
    let t := u.person
    let selfOrOper := decide (t.uid = cl.uid) || cl.umodes .o
    let chans := if t.umodes .p && !selfOrOper then [] else h.whoisChannels cl u
    [h.reply cl "311" [t.nick, clientIdent t, t.host, ['*']] (some t.realname)] ++
    h.whoisNote cl t ++
    [h.reply cl "312" [t.nick, h.serverNameOf t]
      (some (if t.remote then (t.nserver.map fun s => s.2.2).getD h.network else h.network))] ++
    (if t.isService then [h.reply cl "313" [t.nick] (some "is a Network Service".toList)]
    else if t.umodes .o && (!t.umodes .h || selfOrOper) then
      [h.reply cl "313" [t.nick] (some "is an IRC operator".toList)]
    else []) ++
    (if t.umodes .b then
      [h.reply cl "335" [t.nick] (some (clip 200 ("is a Bot on ".toList ++ h.network)))] else []) ++
    (if t.umodes .z then
      [h.reply cl "671" [t.nick] (some "is using a secure connection".toList)] else []) ++
    (if t.account = [] then []
    else [h.reply cl "330" [t.nick, t.account] (some "is logged in as".toList)]) ++
    (if t.isAway then [h.reply cl "301" [t.nick] (some t.away)] else []) ++
    (if (t.host ≠ t.realhost ∨ t.realhost ≠ t.ip) ∧ selfOrOper = true then
      [h.reply cl "378" [t.nick] (some (clip 300 ("is actually connecting from ".toList ++
        t.realhost ++ (if t.realhost = t.ip then [] else " [".toList ++ t.ip ++ [']']))))]
    else []) ++
    (if chans = [] then [] else [h.reply cl "319" [t.nick] (some chans)]) ++
    (if !t.remote && (!t.umodes .hideidle || selfOrOper) then
      [h.reply cl "317" [t.nick, intDecimal (h.now - t.lastActivity), intDecimal t.signonTime]
        (some "seconds idle, signon time".toList)] else []) ++
    [h.reply cl "318" [t.nick] (some "End of /WHOIS list.".toList)]

/-- What is asked of another server instead, for `WHOIS <nick> <nick>`. -/
def whoisElsewhere (params : List Text) : Option (List Sent) :=
  match params with
  | _ :: nick :: _ =>
    match h.findUser nick with
    | some u =>
      if cl.remote = false ∧ u.person.remote = true ∧ u.person.isService = false ∧
          u.person.registered = true then
        some (u.person.nserver.toList.map fun s => .ask s.1 ["WHOIS".toList, nick])
      else none
    | none => none
  | _ => none

/-- `cmd_whois`. -/
def cmdWhois (params : List Text) : List Sent :=
  match h.whoisElsewhere cl params with
  | some asked => asked
  | none => (strtok ',' (clip 600 (params.getLastD []))).flatMap (h.whoisOne cl)

end Hall

/-! ## 5. Questions -/

/-- A question. Each has the parameters that its command takes, as they were given. -/
inductive Query
  | names (params : List Text)
  | topic (name : Text)
  | list (params : List Text)
  | who (params : List Text)
  | whois (params : List Text)

/-- The answer to a user's question. -/
def Hall.answer (inet : IpText) (h : Hall) (uid : Text) (q : Query) : List Sent :=
  match h.seatOf uid with
  | none => []
  | some u =>
    match q with
    | .names params => h.cmdNames u.person params
    | .topic name => h.cmdTopic u.person name
    | .list params => h.cmdList u.person params
    | .who params => h.cmdWho inet u.person u.channels params
    | .whois params => h.cmdWhois u.person params

/-! ## 6. Two servers

Two servers that the asker should not be able to tell apart. The relation is between their channels
and between their users. -/

/-- The same for who has this UID: the same channel, or two that both hide from it under one name.
LIST counts them if they are only `+p`. -/
def SameChannel (uid : Text) (c c' : Channel) : Prop :=
  c = c' ∨ hides c uid = true ∧ hides c' uid = true ∧ c.name = c'.name ∧
    (.s ∈ c.modes ↔ .s ∈ c'.modes) ∧ (.s ∉ c.modes → c.members.length = c'.members.length)

/-- A channel that is not hidden from who has this UID. -/
def Open (h : Hall) (uid key : Text) : Bool :=
  ((h.chans.lookup key).filter fun c => !hides c uid).isSome

/-- The same user, in the same channels but for hidden ones. -/
structure SameSeat (uid : Text) (h h' : Hall) (u u' : Seat) : Prop where
  person : u.person = u'.person
  channels : u.channels.filter (Open h uid) = u'.channels.filter (Open h' uid)

/-- The same server, but for what is hidden from who has this UID. Users stand in the same order,
and have the same channels but for hidden ones. -/
structure SameBut (uid : Text) (h h' : Hall) : Prop where
  name : h.name = h'.name
  network : h.network = h'.network
  now : h.now = h'.now
  chans : List.Forall₂ (fun e e' => e.1 = e'.1 ∧ SameChannel uid e.2 e'.2) h.chans h'.chans
  users : List.Forall₂ (SameSeat uid h h') h.users h'.users

variable {inet : IpText} {uid : Text} {h h' : Hall} {cl : Person} {c c' : Channel}

/-- Lists that go together give the same, one by one. -/
theorem map_same {α β γ : Type} {R : α → β → Prop} {l : List α} {l' : List β} {f : α → γ}
    {g : β → γ} (hl : List.Forall₂ R l l') (hfg : ∀ ⦃x x'⦄, R x x' → f x = g x') :
    l.map f = l'.map g := by
  have hmap : List.Forall₂ (· = ·) (l.map f) (l'.map g) := List.rel_map hfg hl
  rwa [List.forall₂_eq_eq_eq] at hmap

theorem flatMap_same {α β γ : Type} {R : α → β → Prop} {l : List α} {l' : List β}
    {f : α → List γ} {g : β → List γ} (hl : List.Forall₂ R l l')
    (hfg : ∀ ⦃x x'⦄, R x x' → f x = g x') : l.flatMap f = l'.flatMap g := by
  rw [List.flatMap_def, List.flatMap_def, map_same hl hfg]

theorem filterMap_same {α β γ : Type} {R : α → β → Prop} {l : List α} {l' : List β}
    {f : α → Option γ} {g : β → Option γ} (hl : List.Forall₂ R l l')
    (hfg : ∀ ⦃x x'⦄, R x x' → f x = g x') : l.filterMap f = l'.filterMap g := by
  induction hl with
  | nil => rfl
  | cons hx _ ih => rw [List.filterMap_cons, List.filterMap_cons, hfg hx, ih]

theorem SameChannel.hides (hc : SameChannel uid c c') : hides c uid = hides c' uid := by
  rcases hc with rfl | ⟨h1, h2, -⟩
  · rfl
  · rw [h1, h2]

theorem SameChannel.eq (hc : SameChannel uid c c') (hopen : Queries.hides c uid = false) :
    c = c' := by
  rcases hc with rfl | ⟨h1, -⟩
  · rfl
  · rw [hopen] at h1
    cases h1

theorem SameChannel.name (hc : SameChannel uid c c') : c.name = c'.name := by
  rcases hc with rfl | ⟨-, -, h3, -⟩
  · rfl
  · exact h3

theorem lookup_same {l l' : List (Text × Channel)}
    (hl : List.Forall₂ (fun e e' => e.1 = e'.1 ∧ SameChannel uid e.2 e'.2) l l') (key : Text) :
    Option.Rel (SameChannel uid) (l.lookup key) (l'.lookup key) := by
  induction hl with
  | nil => exact .none
  | @cons e e' l l' he hl ih =>
    obtain ⟨k, c⟩ := e
    obtain ⟨k', c'⟩ := e'
    obtain ⟨rfl, hc⟩ := he
    rw [List.lookup_cons, List.lookup_cons]
    cases key == k with
    | true => exact .some hc
    | false => exact ih

/-- A test that sees only the person finds the same user. -/
theorem find?_same {P : Person → Bool} {l l' : List Seat}
    (hl : List.Forall₂ (SameSeat uid h h') l l') :
    Option.Rel (SameSeat uid h h') (l.find? fun u => P u.person)
      (l'.find? fun u => P u.person) := by
  induction hl with
  | nil => exact .none
  | @cons u u' l l' hu hl ih =>
    rw [List.find?_cons, List.find?_cons, ← hu.person]
    cases P u.person with
    | true => exact .some hu
    | false => exact ih

theorem isSome_shows (key : Text) : (h.shows cl key).isSome = Open h cl.uid key := rfl

theorem findSome?_shows (l : List Text) :
    l.findSome? (h.shows cl) = (l.filter (Open h cl.uid)).findSome? (h.shows cl) := by
  induction l with
  | nil => rfl
  | cons k l ih =>
    rw [List.findSome?_cons, List.filter_cons, ← isSome_shows]
    cases hk : h.shows cl k with
    | none => exact ih
    | some c =>
      rw [Option.isSome_some, if_pos rfl, List.findSome?_cons, hk]

theorem filterMap_shows (l : List Text) :
    l.filterMap (h.shows cl) = (l.filter (Open h cl.uid)).filterMap (h.shows cl) := by
  induction l with
  | nil => rfl
  | cons k l ih =>
    rw [List.filter_cons, ← isSome_shows]
    cases hk : h.shows cl k with
    | none => rw [List.filterMap_cons_none hk, ih, Option.isSome_none, if_neg (by decide)]
    | some c =>
      rw [List.filterMap_cons_some hk, ih, Option.isSome_some, if_pos rfl,
        List.filterMap_cons_some hk]

/-- Who shares a channel with the asker shares an open one. -/
theorem sharesChannel_filter {mine : List Text} (hmine : ∀ k ∈ mine, Open h uid k = true)
    (l : List Text) :
    Hall.sharesChannel l mine = Hall.sharesChannel (l.filter (Open h uid)) mine := by
  rw [Hall.sharesChannel, Hall.sharesChannel, List.any_filter]
  congr 1
  funext k
  cases hk : mine.any (fun y => k == y) with
  | false => rw [Bool.and_false]
  | true =>
    obtain ⟨y, hy, heq⟩ := List.any_eq_true.mp hk
    rw [Bool.and_true, eq_of_beq heq, hmine y hy]

theorem open_of_mem {u : Seat} (hu : u ∈ h.users) {k : Text} (hk : k ∈ u.channels) :
    Open h u.person.uid k = true := by
  obtain ⟨c, hc, hmem⟩ := (Option.any_eq_true ..).mp (h.joined u hu k hk)
  have hhides : Queries.hides c u.person.uid = false := by
    rw [Queries.hides, Option.isNone_eq_false_iff.mpr hmem, Bool.and_false]
  rw [Open, hc, Option.filter_some, hhides]
  rfl

namespace SameBut

theorem findChannel (hh : SameBut uid h h') (name : Text) :
    Option.Rel (SameChannel uid) (h.findChannel name) (h'.findChannel name) :=
  lookup_same hh.chans _

theorem seatOf (hh : SameBut uid h h') (id : Text) :
    Option.Rel (SameSeat uid h h') (h.seatOf id) (h'.seatOf id) :=
  find?_same (P := fun u => u.uid == id) hh.users

theorem findUser (hh : SameBut uid h h') (nick : Text) :
    Option.Rel (SameSeat uid h h') (h.findUser nick) (h'.findUser nick) :=
  find?_same (P := fun u => u.casefoldNick == ircCasefold nickLen nick) hh.users

theorem findRegistered (hh : SameBut uid h h') (nick : Text) : Option.Rel (SameSeat uid h h')
    ((h.findUser nick).filter fun u => u.person.registered)
    ((h'.findUser nick).filter fun u => u.person.registered) := by
  have hrel := hh.findUser nick
  generalize h.findUser nick = r at hrel
  generalize h'.findUser nick = r' at hrel
  cases hrel with
  | none => exact .none
  | @some u u' hu =>
    rw [Option.filter_some, Option.filter_some, hu.person]
    cases u'.person.registered with
    | true => exact .some hu
    | false => exact .none

theorem reply (hh : SameBut uid h h') : h.reply = h'.reply := by
  funext cl code params trailing
  rw [Hall.reply, Hall.reply, hh.name]

theorem serverNameOf (hh : SameBut uid h h') : h.serverNameOf = h'.serverNameOf := by
  funext u
  rw [Hall.serverNameOf.eq_def, Hall.serverNameOf.eq_def, hh.name]

theorem shows (hh : SameBut cl.uid h h') : h.shows cl = h'.shows cl := by
  funext key
  have hrel := lookup_same hh.chans key
  rw [Hall.shows, Hall.shows]
  generalize h.chans.lookup key = r at hrel
  generalize h'.chans.lookup key = r' at hrel
  cases hrel with
  | none => rfl
  | @some c c' hc =>
    rw [Option.filter_some, Option.filter_some, hc.hides]
    cases hopen : Queries.hides c' cl.uid with
    | true => rfl
    | false => rw [hc.eq (hc.hides.trans hopen)]

theorem whoChannelFor (hh : SameBut cl.uid h h') {u u' : Seat} (hu : SameSeat cl.uid h h' u u') :
    h.whoChannelFor cl u = h'.whoChannelFor cl u' := by
  rw [Hall.whoChannelFor, Hall.whoChannelFor, findSome?_shows, findSome?_shows u'.channels,
    hu.channels, hh.shows]

theorem whoisChannels (hh : SameBut cl.uid h h') {u u' : Seat} (hu : SameSeat cl.uid h h' u u') :
    h.whoisChannels cl u = h'.whoisChannels cl u' := by
  rw [Hall.whoisChannels, Hall.whoisChannels, filterMap_shows, filterMap_shows u'.channels,
    hu.channels, hh.shows, hu.person]

theorem invisibleTo {mine : List Text} (hmine : ∀ k ∈ mine, Open h cl.uid k = true)
    (hmine' : ∀ k ∈ mine, Open h' cl.uid k = true) {u u' : Seat} (hu : SameSeat cl.uid h h' u u') :
    Hall.invisibleTo cl mine u = Hall.invisibleTo cl mine u' := by
  rw [Hall.invisibleTo, Hall.invisibleTo, sharesChannel_filter hmine,
    sharesChannel_filter hmine' u'.channels, hu.channels, hu.person]

theorem shownMembers (hh : SameBut cl.uid h h') (c : Channel) :
    List.Forall₂ (fun x x' => x.1 = x'.1 ∧ SameSeat cl.uid h h' x.2 x'.2)
      (h.shownMembers cl c) (h'.shownMembers cl c) := by
  rw [Hall.shownMembers, Hall.shownMembers]
  generalize (c.members.filter fun m =>
    DelayedJoin.channelMemberVisible c m (channelFindMember c cl.uid)) = l
  induction l with
  | nil => exact .nil
  | cons m l ih =>
    have hseat := hh.seatOf m.client
    rw [List.filterMap_cons, List.filterMap_cons]
    generalize h.seatOf m.client = r at hseat
    generalize h'.seatOf m.client = r' at hseat
    cases hseat with
    | none => exact ih
    | some hu => exact .cons ⟨rfl, hu⟩ ih

end SameBut

/-! ## 7. The same answers -/

namespace SameBut

theorem sendNames (hh : SameBut cl.uid h h') (c : Channel) :
    h.sendNames cl c = h'.sendNames cl c := by
  have hentries : ((h.shownMembers cl c).map fun x =>
      (x.1.client, Hall.nameEntry cl x.1 x.2.person)) =
      (h'.shownMembers cl c).map fun x => (x.1.client, Hall.nameEntry cl x.1 x.2.person) :=
    map_same (hh.shownMembers c) fun x x' hx => by rw [hx.1, hx.2.person]
  rw [Hall.sendNames, Hall.sendNames, hentries, hh.name, Hall.endOfNames, Hall.endOfNames, hh.reply]

theorem namesOne (hh : SameBut cl.uid h h') : h.namesOne cl = h'.namesOne cl := by
  funext tok
  have hrel := hh.findChannel tok
  rw [Hall.namesOne, Hall.namesOne]
  generalize h.findChannel tok = r at hrel
  generalize h'.findChannel tok = r' at hrel
  cases hrel with
  | none => rw [Hall.endOfNames, Hall.endOfNames, hh.reply]
  | @some c c' hc =>
    dsimp only
    rw [hc.hides]
    cases hopen : Queries.hides c' cl.uid with
    | true =>
      rw [if_pos rfl, if_pos rfl, Hall.endOfNames, Hall.endOfNames, hh.reply, hc.name]
    | false =>
      rw [if_neg Bool.false_ne_true, if_neg Bool.false_ne_true, hc.eq (hc.hides.trans hopen),
        hh.sendNames]

theorem cmdNames (hh : SameBut cl.uid h h') (params : List Text) :
    h.cmdNames cl params = h'.cmdNames cl params := by
  cases params with
  | nil => rw [Hall.cmdNames, Hall.cmdNames, Hall.endOfNames, Hall.endOfNames, hh.reply]
  | cons p params => rw [Hall.cmdNames, Hall.cmdNames, hh.namesOne]

/-- Who is not hidden from is a member, or the channel is the same. -/
theorem cmdTopic (hh : SameBut cl.uid h h') (name : Text) :
    h.cmdTopic cl name = h'.cmdTopic cl name := by
  have hrel := hh.findChannel name
  rw [Hall.cmdTopic, Hall.cmdTopic, hh.reply]
  generalize h.findChannel name = r at hrel
  generalize h'.findChannel name = r' at hrel
  cases hrel with
  | none => rfl
  | some hc =>
    rcases hc with rfl | ⟨hhides, hhides', hname, -⟩
    · rfl
    · have hout : ∀ {c : Channel}, Queries.hides c cl.uid = true →
          (channelFindMember c cl.uid).isNone = true := fun hc => (Bool.and_eq_true_iff.mp hc).2
      dsimp only
      rw [if_pos (hout hhides), if_pos (hout hhides'), hname]

theorem listOne (hh : SameBut cl.uid h h') (f : Hall.ListFilter) (key : Text)
    (hc : SameChannel cl.uid c c') : h.listOne cl f key c = h'.listOne cl f key c' := by
  rw [Hall.listOne, Hall.listOne, hh.reply]
  rcases hc with rfl | ⟨hhides, hhides', hname, hs, hcount⟩
  · rfl
  · have hout : ∀ {c : Channel}, Queries.hides c cl.uid = true →
        (channelFindMember c cl.uid).isSome = false := by
      intro c hc
      rw [Option.isNone_iff_eq_none.mp (Bool.and_eq_true_iff.mp hc).2]
      rfl
    have hmode : ∀ {c : Channel}, Queries.hides c cl.uid = true → .s ∈ c.modes ∨ .p ∈ c.modes :=
      fun hc => of_decide_eq_true (Bool.and_eq_true_iff.mp hc).1
    rw [hout hhides, hout hhides']
    by_cases hsecret : .s ∈ c.modes
    · -- neither is listed, whatever is counted
      have hsecret' := hs.mp hsecret
      simp only [hsecret, hsecret', and_self, if_true, ite_self]
    · have hsecret' : .s ∉ c'.modes := fun hs' => hsecret (hs.mpr hs')
      have hp := (hmode hhides).resolve_left hsecret
      have hp' := (hmode hhides').resolve_left hsecret'
      simp only [hsecret, hsecret', hp, hp', false_and, and_self, if_false, if_true,
        hcount hsecret]

theorem cmdList (hh : SameBut cl.uid h h') (params : List Text) :
    h.cmdList cl params = h'.cmdList cl params := by
  have hchans : (h.chans.flatMap fun e => h.listOne cl (Hall.ListFilter.parse params) e.1 e.2) =
      h'.chans.flatMap fun e => h'.listOne cl (Hall.ListFilter.parse params) e.1 e.2 :=
    flatMap_same hh.chans fun e e' he => by rw [he.1, hh.listOne _ _ he.2]
  rw [Hall.cmdList, Hall.cmdList, hchans, hh.reply]

theorem whoLine (hh : SameBut cl.uid h h') (f : Hall.WhoFormat) :
    h.whoLine cl f = h'.whoLine cl f := by
  funext u c
  have hvalue : h.whoxValue cl = h'.whoxValue cl := by
    funext letter u c token
    rw [Hall.whoxValue.eq_def, Hall.whoxValue.eq_def, hh.serverNameOf, hh.now]
  rw [Hall.whoLine.eq_def, Hall.whoLine.eq_def]
  split
  · rw [Hall.whoxReply, Hall.whoxReply, hvalue, hh.reply]
  · rw [Hall.whoClassic, Hall.whoClassic, hh.serverNameOf, hh.reply]

section Who

variable {mine : List Text} (hmine : ∀ k ∈ mine, Open h cl.uid k = true)
  (hmine' : ∀ k ∈ mine, Open h' cl.uid k = true)

include hmine hmine'

theorem whoChannel (hh : SameBut cl.uid h h') (f : Hall.WhoFormat) (target : Text) :
    h.whoChannel cl mine f target = h'.whoChannel cl mine f target := by
  have hrel := hh.findChannel target
  rw [Hall.whoChannel, Hall.whoChannel, Hall.endOfWho, Hall.endOfWho, hh.reply]
  generalize h.findChannel target = r at hrel
  generalize h'.findChannel target = r' at hrel
  cases hrel with
  | none => rfl
  | @some c c' hc =>
    dsimp only
    rw [hc.hides]
    cases hopen : Queries.hides c' cl.uid with
    | true => rfl
    | false =>
      have hlines : ((h.shownMembers cl c').filterMap fun x =>
          if (channelFindMember c' cl.uid).isNone && Hall.invisibleTo cl mine x.2 then none
          else if f.opersOnly && !Hall.visibleOper cl x.2.person then none
          else some (h.whoLine cl f x.2.person (some c'))) =
          (h'.shownMembers cl c').filterMap fun x =>
            if (channelFindMember c' cl.uid).isNone && Hall.invisibleTo cl mine x.2 then none
            else if f.opersOnly && !Hall.visibleOper cl x.2.person then none
            else some (h'.whoLine cl f x.2.person (some c')) :=
        filterMap_same (hh.shownMembers c') fun x x' hx => by
          rw [invisibleTo hmine hmine' hx.2, hx.2.person, hh.whoLine]
      rw [if_neg Bool.false_ne_true, if_neg Bool.false_ne_true, hc.eq (hc.hides.trans hopen),
        hlines]

theorem whoMask (hh : SameBut cl.uid h h') (f : Hall.WhoFormat) (target : Text) :
    h.whoMask inet cl mine f target = h'.whoMask inet cl mine f target := by
  have hhits : List.Forall₂ (SameSeat cl.uid h h')
      (h.users.filter fun u => u.person.registered && !Hall.invisibleTo cl mine u &&
        !(f.opersOnly && !Hall.visibleOper cl u.person) && h.whoMaskHit inet cl u.person target)
      (h'.users.filter fun u => u.person.registered && !Hall.invisibleTo cl mine u &&
        !(f.opersOnly && !Hall.visibleOper cl u.person) &&
          h'.whoMaskHit inet cl u.person target) := by
    refine List.rel_filter (fun u u' hu => iff_of_eq (congrArg (· = true) ?_)) hh.users
    rw [invisibleTo hmine hmine' hu, hu.person, Hall.whoMaskHit, Hall.whoMaskHit, hh.serverNameOf]
  have hlines : ∀ ⦃u u' : Seat⦄, SameSeat cl.uid h h' u u' →
      h.whoLine cl f u.person (h.whoChannelFor cl u) =
        h'.whoLine cl f u'.person (h'.whoChannelFor cl u') := by
    intro u u' hu
    rw [hu.person, hh.whoChannelFor hu, hh.whoLine]
  rw [Hall.whoMask, Hall.whoMask, hh.reply, map_same hhits hlines,
    ← List.isEmpty_map (f := Seat.person), map_same hhits fun u u' hu => hu.person,
    List.isEmpty_map]

theorem cmdWho (hh : SameBut cl.uid h h') (params : List Text) :
    h.cmdWho inet cl mine params = h'.cmdWho inet cl mine params := by
  rw [Hall.cmdWho.eq_def, Hall.cmdWho.eq_def, hh.reply]
  cases params with
  | nil => rfl
  | cons target params =>
    dsimp only
    rw [hh.whoChannel hmine hmine', hh.whoMask hmine hmine', Hall.endOfWho, Hall.endOfWho, hh.reply]
    have hrel := hh.findRegistered target
    generalize ((h.findUser target).filter fun u => u.person.registered) = r at hrel
    generalize ((h'.findUser target).filter fun u => u.person.registered) = r' at hrel
    cases hrel with
    | none => rfl
    | some hu =>
      dsimp only
      rw [hh.whoLine, hh.whoChannelFor hu, hu.person]

end Who

theorem whoisNote (hh : SameBut cl.uid h h') : h.whoisNote cl = h'.whoisNote cl := by
  funext u
  rw [Hall.whoisNote, Hall.whoisNote, hh.name]

theorem whoisOne (hh : SameBut cl.uid h h') : h.whoisOne cl = h'.whoisOne cl := by
  funext nick
  have hrel := hh.findRegistered nick
  rw [Hall.whoisOne, Hall.whoisOne, hh.reply]
  generalize ((h.findUser nick).filter fun u => u.person.registered) = r at hrel
  generalize ((h'.findUser nick).filter fun u => u.person.registered) = r' at hrel
  cases hrel with
  | none => rfl
  | some hu =>
    dsimp only
    rw [hu.person, hh.whoisChannels hu, hh.serverNameOf, hh.network, hh.now, hh.whoisNote]

theorem whoisElsewhere (hh : SameBut cl.uid h h') (params : List Text) :
    h.whoisElsewhere cl params = h'.whoisElsewhere cl params := by
  rw [Hall.whoisElsewhere.eq_def, Hall.whoisElsewhere.eq_def]
  split
  · next nick _ =>
    have hrel := hh.findUser nick
    generalize h.findUser nick = r at hrel
    generalize h'.findUser nick = r' at hrel
    cases hrel with
    | none => rfl
    | some hu =>
      dsimp only
      rw [hu.person]
  · rfl

theorem cmdWhois (hh : SameBut cl.uid h h') (params : List Text) :
    h.cmdWhois cl params = h'.cmdWhois cl params := by
  rw [Hall.cmdWhois, Hall.cmdWhois, hh.whoisElsewhere, hh.whoisOne]

end SameBut

/-- **Questions tell nothing of hidden channels**: servers that differ in these only give the same
answers, line by line. The question may be any of them, with any parameters. A channel is hidden
from an asker by what the code tests: its modes, and whether the asker is on it. -/
theorem queries_blind (inet : IpText) {uid : Text} {h h' : Hall} (hh : SameBut uid h h')
    (q : Query) : h.answer inet uid q = h'.answer inet uid q := by
  have hrel := hh.seatOf uid
  rw [Hall.answer, Hall.answer]
  cases hu : h.seatOf uid with
  | none =>
    rw [hu] at hrel
    cases hu' : h'.seatOf uid with
    | none => rfl
    | some u' =>
      rw [hu'] at hrel
      cases hrel
  | some u =>
    rw [hu] at hrel
    cases hu' : h'.seatOf uid with
    | none =>
      rw [hu'] at hrel
      cases hrel
    | some u' =>
      rw [hu'] at hrel
      cases hrel with
      | some hsame =>
        have hfind : (h.users.find? fun u => u.person.uid == uid) = some u := hu
        have hfind' : (h'.users.find? fun u => u.person.uid == uid) = some u' := hu'
        have huid : u.person.uid = uid := by
          have hp := List.find?_some hfind
          exact eq_of_beq hp
        have hmem := List.mem_of_find?_eq_some hfind
        have hmem' := List.mem_of_find?_eq_some hfind'
        subst huid
        have hopen : ∀ k ∈ u.channels, Open h u.person.uid k = true := by
          intro k hk
          exact open_of_mem hmem hk
        have hopen' : ∀ k ∈ u'.channels, Open h' u.person.uid k = true := by
          intro k hk
          rw [hsame.person]
          exact open_of_mem hmem' hk
        have hmine : u.channels = u'.channels := by
          rw [← List.filter_eq_self.mpr hopen, hsame.channels, List.filter_eq_self.mpr hopen']
        dsimp only
        rw [← hmine] at hopen'
        rw [← hsame.person, ← hmine]
        cases q with
        | names params => exact hh.cmdNames params
        | topic name => exact hh.cmdTopic name
        | list params => exact hh.cmdList params
        | who params => exact hh.cmdWho hopen hopen' params
        | whois params => exact hh.cmdWhois params

/-- A user of this server without modes. -/
def samplePerson (uid nick : Text) : Person where
  nick := nick
  nickTs := 1
  user := "u".toList
  host := "example.net".toList
  realhost := "example.net".toList
  ip := "192.0.2.1".toList
  realname := nick
  account := []
  umodes := fun _ => false
  isService := false
  identConfirmed := true
  isAway := false
  away := []
  certfp := []
  uid := uid
  casefoldNick := nick
  registered := true
  remote := false
  nserver := none
  lastActivity := 100
  signonTime := 50
  multiPrefix := false
  userhostInNames := false

def sampleMember (uid : Text) (named : uid ≠ []) : Member := ⟨uid, named, Rank.none, false⟩

/-- A secret channel, and an open one that Alice and Bob are in. -/
def sampleChans (members : List Member) (topic : Text) : List (Text × Channel) :=
  [("#inn".toList, { newChannel "#inn".toList (by decide) 10 with
      members := [sampleMember "0AAAAAAAA".toList (by decide),
        sampleMember "0AAAAAAAB".toList (by decide)] }),
    ("#cell".toList, { newChannel "#cell".toList (by decide) 20 with
      modes := {.s}, topic := topic, members := members })]

/-- Bob is in the secret channel. -/
def sampleHall : Hall where
  name := "irc.example".toList
  network := "Example".toList
  now := 200
  users := [⟨samplePerson "0AAAAAAAA".toList "alice".toList, ["#inn".toList]⟩,
    ⟨samplePerson "0AAAAAAAB".toList "bob".toList, ["#cell".toList, "#inn".toList]⟩,
    ⟨samplePerson "0AAAAAAAC".toList "carol".toList, []⟩]
  chans := sampleChans [sampleMember "0AAAAAAAB".toList (by decide)] "tonight".toList
  joined := by decide

/-- Bob has left it, and Carol is there. -/
def sampleHallLater : Hall where
  name := "irc.example".toList
  network := "Example".toList
  now := 200
  users := [⟨samplePerson "0AAAAAAAA".toList "alice".toList, ["#inn".toList]⟩,
    ⟨samplePerson "0AAAAAAAB".toList "bob".toList, ["#inn".toList]⟩,
    ⟨samplePerson "0AAAAAAAC".toList "carol".toList, ["#cell".toList]⟩]
  chans := sampleChans [sampleMember "0AAAAAAAC".toList (by decide)] []
  joined := by decide

theorem sameBut_sample : SameBut "0AAAAAAAA".toList sampleHall sampleHallLater := by
  refine ⟨rfl, rfl, rfl, .cons ⟨rfl, .inl rfl⟩ (.cons ⟨rfl, .inr ?_⟩ .nil), ?_⟩
  · exact ⟨by decide, by decide, rfl, by decide, fun hs => absurd (by decide) hs⟩
  · refine .cons ⟨rfl, ?_⟩ (.cons ⟨rfl, ?_⟩ (.cons ⟨rfl, ?_⟩ .nil))
    · decide
    · decide
    · decide

theorem queries_blind_cell :
    sampleHall.answer fullInet "0AAAAAAAA".toList (.whois ["bob".toList]) =
      sampleHallLater.answer fullInet "0AAAAAAAA".toList (.whois ["bob".toList]) :=
  queries_blind fullInet sameBut_sample (.whois ["bob".toList])

end Queries

end SekurIRCd
