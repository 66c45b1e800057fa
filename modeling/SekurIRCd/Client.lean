/-
# Clients, servers and the tables that find them

A server finds a client in two ways: by nick, through the `users` table keyed by the casefolded
nick, and by UID, through `by_uid`.  Both are modelled by one list of clients, searched from the
front.  A client on another server is told apart by `remote` and by the server it is on
(`nserver`, a SID); the tree of servers is kept as each server's uplink, and a link may only
speak for what lies behind it (`srcServer`, `srcUser`).
-/
import SekurIRCd.Proto

namespace SekurIRCd

open CLib

def nickLen : Nat := 64

def uidLen : Nat := 9

def sidLen : Nat := 3

/-- `client_t`, as far as channels and links read it. What concerns its connection is in the
modules about connections. -/
structure Client where
  nick : Text
  casefoldNick : Text
  user : Text
  host : Text
  uid : Text
  nserver : Text
  remote : Bool
  isService : Bool
  oper : Bool
  identConfirmed : Bool
deriving DecidableEq, Repr

/-- `netserver_t`: a server and the one it is linked through (none for this server itself). -/
structure NetServer where
  sid : Text
  name : Text
  uplink : Option Text
deriving DecidableEq, Repr

/-! ## 1. Names of a client -/

/-- `irc_ident_for`. -/
def ircIdentFor (outsz : Nat) (user : Text) (identConfirmed : Bool) : Text :=
  if user = [] then []
  else if identConfirmed || user.head? == some '~' then clip outsz user
  else clip outsz ('~' :: user)

/-- `irc_prefix_for(out, 320, ..)`. -/
def ircSourceFor (nick user host : Text) : Text :=
  if user ≠ [] then clip 320 (nick ++ '!' :: ircIdentFor 128 user false ++ '@' :: host)
  else clip 320 (nick ++ '@' :: host)

/-- `client_prefix(cl, out, 320)`: `nick!user@host`. -/
def clientSource (cl : Client) : Text :=
  let nick := if cl.nick = [] then ['*'] else cl.nick
  let host := if cl.host = [] then ['*'] else cl.host
  if cl.identConfirmed then clip 320 (nick ++ '!' :: cl.user ++ '@' :: host)
  else ircSourceFor nick cl.user host

/-! ## 2. The tables

The tables are hashes in the code. As no two clients share a key, a list that is searched from the
front finds what they find. -/

/-- What the checks on nicks, hosts and UIDs keep true of a server's clients: a client is filed
under its own nick, no two share a nick or a UID, and every name fits its field. -/
structure UsersOk (clients : List Client) : Prop where
  keyed : ∀ u ∈ clients, u.casefoldNick = ircCasefold nickLen u.nick
  nick_inj : ∀ u ∈ clients, ∀ v ∈ clients, u.casefoldNick = v.casefoldNick → u = v
  uid_inj : ∀ u ∈ clients, ∀ v ∈ clients, u.uid = v.uid → u.uid ≠ [] → u = v
  nick_valid : ∀ u ∈ clients, ircValidNick u.nick (nickLen - 1) = true
  uid_plain : ∀ u ∈ clients, u.uid ≠ [] → Plain u.uid
  source : ∀ u ∈ clients, Source (clientSource u)

instance (clients : List Client) : Decidable (UsersOk clients) :=
  decidable_of_iff
    ((∀ u ∈ clients, u.casefoldNick = ircCasefold nickLen u.nick) ∧
      (∀ u ∈ clients, ∀ v ∈ clients, u.casefoldNick = v.casefoldNick → u = v) ∧
      (∀ u ∈ clients, ∀ v ∈ clients, u.uid = v.uid → u.uid ≠ [] → u = v) ∧
      (∀ u ∈ clients, ircValidNick u.nick (nickLen - 1) = true) ∧
      (∀ u ∈ clients, u.uid ≠ [] → Plain u.uid) ∧ ∀ u ∈ clients, Source (clientSource u))
    ⟨fun ⟨h1, h2, h3, h4, h5, h6⟩ => ⟨h1, h2, h3, h4, h5, h6⟩,
      fun ⟨h1, h2, h3, h4, h5, h6⟩ => ⟨h1, h2, h3, h4, h5, h6⟩⟩

/-- The clients of a server. -/
structure Users where
  clients : List Client
  ok : UsersOk clients
deriving DecidableEq

/-- The parts of `server_t` that find clients and servers. The users are found by UID and by nick,
and no two share a UID. -/
structure Server where
  sid : Text
  name : Text
  servers : List NetServer
  users : Users
  defaultModes : Text
deriving DecidableEq

/-! ## 3. Finding

A link speaks for the servers behind it and for their users. Every handler asks for the source of a
line in this way first, and drops the line if there is none. -/

/-- `server_find_user`. -/
def serverFindUser (users : List Client) (nick : Text) : Option Client :=
  users.find? fun u => u.casefoldNick == ircCasefold nickLen nick

/-- `netsync_find_uid`; a client without a UID is not in the index. -/
def netsyncFindUid (users : List Client) (uid : Text) : Option Client :=
  users.find? fun u => u.uid == uid && u.uid != []

/-- `netsync_find_sid`. -/
def netsyncFindSid (srv : Server) (sid : Text) : Option NetServer :=
  srv.servers.find? fun s => s.sid == sid

/-- `netsync_is_behind(s, ancestor)`, up the uplinks; a tree of `n` servers is less than `n`
links deep. -/
def isBehindFuel (srv : Server) : Nat → Text → Text → Bool
  | 0, s, ancestor => s == ancestor
  | n + 1, s, ancestor =>
    s == ancestor ||
      match (netsyncFindSid srv s).bind NetServer.uplink with
      | some up => isBehindFuel srv n up ancestor
      | none => false

def netsyncIsBehind (srv : Server) (s ancestor : Text) : Bool :=
  isBehindFuel srv srv.servers.length s ancestor

/-- `src_server`: the server a prefix names, if it is behind the link to `peer`. -/
def srcServer (srv : Server) (peer : Text) (pfx : Option Text) : Option NetServer :=
  (pfx.bind (netsyncFindSid srv)).filter fun s => s.sid != srv.sid && netsyncIsBehind srv s.sid peer

/-- `src_user`: the user a prefix names, if it is behind the link to `peer`. A user of the server
itself is never one, whatever a peer claims. -/
def srcUser (srv : Server) (peer : Text) (pfx : Option Text) : Option Client :=
  (pfx.bind (netsyncFindUid srv.users.clients)).filter fun u => u.remote && netsyncIsBehind srv u.nserver peer

/-- What names a setter on the wire: its UID, or this server when it has none. -/
def wireSource (srv : Server) (cl : Client) : Text := if cl.uid ≠ [] then cl.uid else srv.sid

/-! ## 4. Lookups that succeed -/

theorem netsyncFindUid_some {users : List Client} {uid : Text} {u : Client}
    (h : netsyncFindUid users uid = some u) : u ∈ users ∧ u.uid = uid ∧ uid ≠ [] := by
  have hp := List.find?_some h
  simp only [Bool.and_eq_true, beq_iff_eq, bne_iff_ne] at hp
  exact ⟨List.mem_of_find?_eq_some h, hp.1, hp.1 ▸ hp.2⟩

theorem serverFindUser_some {users : List Client} {nick : Text} {u : Client}
    (h : serverFindUser users nick = some u) :
    u ∈ users ∧ u.casefoldNick = ircCasefold nickLen nick := by
  have hp := List.find?_some h
  simp only [beq_iff_eq] at hp
  exact ⟨List.mem_of_find?_eq_some h, hp⟩

namespace Users

variable (us : Users)

/-- Looking up the nick of a client finds that client. -/
theorem find_nick {u : Client} (hu : u ∈ us.clients) : serverFindUser us.clients u.nick = some u := by
  have hs : (serverFindUser us.clients u.nick).isSome = true := by
    rw [serverFindUser, List.find?_isSome]
    exact ⟨u, hu, by simpa using us.ok.keyed u hu⟩
  obtain ⟨v, hv⟩ := Option.isSome_iff_exists.mp hs
  obtain ⟨hmem, hkey⟩ := serverFindUser_some hv
  rw [hv, us.ok.nick_inj v hmem u hu (hkey.trans (us.ok.keyed u hu).symm)]

/-- Looking up the UID of a client finds that client. -/
theorem find_uid {u : Client} (hu : u ∈ us.clients) (hne : u.uid ≠ []) :
    netsyncFindUid us.clients u.uid = some u := by
  have hs : (netsyncFindUid us.clients u.uid).isSome = true := by
    rw [netsyncFindUid, List.find?_isSome]
    exact ⟨u, hu, by simpa using hne⟩
  obtain ⟨v, hv⟩ := Option.isSome_iff_exists.mp hs
  obtain ⟨hmem, hid, -⟩ := netsyncFindUid_some hv
  rw [hv, us.ok.uid_inj v hmem u hu hid (hid ▸ hne)]

end Users

end SekurIRCd
