/-
# The table of nicks

`srv->users` finds a client by its casefolded nick.  A client comes into the table with its first
NICK, as a user of another server or as a service, and goes when it is removed.  A local client
that loses a nick collision goes at once, with its `casefold_nick` empty from then on, but lives
until the end of the event pass: its UID and its pending lookups still lead to it.

Two ways lead back to it.  An SVSNICK that names it by UID takes it out of the table a second time,
and a lookup that comes back completes its registration, under the nick that is no longer its own.
`nick_table_sound` says that the table is sound in every run that takes neither.
-/
import SekurIRCd.Client
import SekurIRCd.Lib.HashIndex
import SekurIRCd.Lib.Runs

namespace SekurIRCd

open CLib HashIndex

/-! ## 1. Clients and their table

A client is at an address and in the table under its casefolded nick. The key in the client and the
key in the table are two things, and the code trusts that they are the same. -/

/-- `client_t`, as far as its nick goes. -/
structure Conn where
  nick : Text
  casefoldNick : Text
  uid : Text
  nickTs : Int
  registered : Bool
  gotNick : Bool
  gotUser : Bool
  remote : Bool
  isService : Bool
  quitting : Bool
deriving DecidableEq, Repr

/-- What the server did to its table, and whom it introduced: an entry that was deleted, with
whether it was there, and a UID line, with whom its nick found. -/
inductive Note
  | deleted (p : Nat) (there : Bool)
  | introduced (p : Nat) (nick : Text) (found : Option Nat)
deriving DecidableEq, Repr

/-- The clients at their addresses, and the table.  No two entries share a key, so that the order
within a chain does not matter. -/
structure Node where
  maxNickLength : Nat
  next : Nat
  conns : Nat → Option Conn
  users : Index Text Nat
  notes : List Note

/-- A server that starts. -/
def Node.start (maxNickLength : Nat) : Node := ⟨maxNickLength, 0, fun _ => none, Index.empty, []⟩

namespace Node

variable (s : Node)

/-- A client that is found, where it is. -/
def at? (p : Nat) : Option (Nat × Conn) := (s.conns p).map fun c => (p, c)

/-- `server_find_user`. -/
def serverFindUser (nick : Text) : Option (Nat × Conn) :=
  (s.users.lookup (ircCasefold nickLen nick)).bind s.at?

/-- `netsync_find_uid`. -/
def netsyncFindUid (uid : Text) : Option (Nat × Conn) :=
  ((List.range s.next).find? fun p => (s.conns p).any fun c => c.uid == uid && c.uid != []).bind s.at?

/-- A client is written over. -/
def write (p : Nat) (c : Conn) : Node := { s with conns := Function.update s.conns p (some c) }

/-- `HASH_DEL(srv->users, cl)`. -/
def hashDel (p : Nat) : Node :=
  { s with
    users := s.users.delete p
    notes := s.notes ++ [.deleted p (s.users.entries.any fun e => e.ptr = p)] }

/-- `HASH_FIND_STR(srv->users, cl->casefold_nick, found); if (found == cl) HASH_DEL(srv->users, cl)`. -/
def hashDelFound (p : Nat) (c : Conn) : Node :=
  if s.users.lookup c.casefoldNick = some p then s.hashDel p else s

/-- `server_add_user`. -/
def serverAddUser (p : Nat) (c : Conn) : Node :=
  { s with users := s.users.add c.casefoldNick p false }

/-- The lines of `send_uid_line` to the links. -/
def sendUidLine (p : Nat) (c : Conn) : Node :=
  { s with notes := s.notes ++ [.introduced p c.nick (s.users.lookup (ircCasefold nickLen c.nick))] }

end Node

/-- A client under another nick. -/
def Conn.called (c : Conn) (nick : Text) : Conn :=
  { c with nick := clip nickLen nick, casefoldNick := ircCasefold nickLen nick }

/-- The client is written over and comes into the table. -/
def Node.enter (s : Node) (p : Nat) (c : Conn) : Node := (s.write p c).serverAddUser p c

/-! ## 2. Local nicks

A local client takes a nick by NICK, or is given one. It is in the table from the first NICK on,
registered or not. -/

/-- `netsync_user_nick`: the nick is as old as now. -/
def Conn.dated (c : Conn) (now : Int) : Conn := { c with nickTs := now }

/-- `cmd_nick`.  `barred` says that the nick is reserved, or that a channel forbids the change. -/
def cmdNick (s : Node) (p : Nat) (c : Conn) (newnick : Text) (barred : Bool) (now : Int) : Node :=
  if ircValidNick newnick s.maxNickLength = false then s
  else if barred then s
  else if (s.serverFindUser newnick).any (fun x => x.1 != p) then s
  else if c.registered = false then
    let s := if c.gotNick then s.hashDelFound p c else s
    s.enter p { c.called newnick with gotNick := true }
  else if c.nick = newnick then s
  else if c.casefoldNick = ircCasefold nickLen newnick then
    s.write p ({ c with nick := clip nickLen newnick }.dated now)
  else (s.hashDel p).enter p ((c.called newnick).dated now)

/-- `cmd_send_welcome_if_ready`, with nothing pending.  `uid` is what `netsync_assign_uid` gives,
`klined` the verdict of the K-lines. -/
def cmdSendWelcomeIfReady (s : Node) (p : Nat) (c : Conn) (uid : Text) (klined : Bool)
    (now : Int) : Node :=
  if c.registered || !c.gotNick || !c.gotUser then s
  else if klined then s.write p { c with quitting := true }
  else
    let c := { c with
      registered := true
      uid := if c.uid = [] then uid else c.uid
      nickTs := if c.nickTs = 0 then now else c.nickTs }
    (s.write p c).sendUidLine p c

/-- A nick that `force_nick_change` accepts: valid, and not another's. -/
def Node.canTake (s : Node) (p : Nat) (newnick : Text) : Bool :=
  ircValidNick newnick s.maxNickLength && (s.serverFindUser newnick).all fun x => x.1 == p

/-- `force_nick_change`. -/
def forceNickChange (s : Node) (p : Nat) (c : Conn) (newnick : Text) (now : Int) : Node :=
  if s.canTake p newnick then (s.hashDel p).enter p ((c.called newnick).dated now) else s

/-- `svc_target`: a local client by its connection, its UID or its nick. -/
def svcTarget (s : Node) (id : Nat ⊕ Text) : Option (Nat × Conn) :=
  (match id with
    | .inl p => s.at? p
    | .inr name =>
      (if name.length = uidLen then s.netsyncFindUid name else none).or (s.serverFindUser name)).filter
    fun x => !x.2.isService && !x.2.remote

/-! ## 3. Lines from links -/

/-- `server_remove_client`. -/
def serverRemoveClient (s : Node) (p : Nat) (c : Conn) : Node :=
  let s := if c.casefoldNick ≠ [] then s.hashDelFound p c else s
  { s with conns := Function.update s.conns p none }

/-- `evict_local_for_collision`. -/
def evictLocalForCollision (s : Node) (p : Nat) (c : Conn) : Node :=
  (s.hashDelFound p c).write p { c with casefoldNick := [], quitting := true }

/-- The loser of a collision goes. -/
def loseNick (s : Node) (p : Nat) (c : Conn) : Node :=
  if c.remote then serverRemoveClient s p c else evictLocalForCollision s p c

/-- `resolve_collision`, with whether the newcomer may proceed. -/
def resolveCollision (s : Node) (nick : Text) (ts : Int) : Node × Bool :=
  match s.serverFindUser nick with
  | none => (s, true)
  | some (p, old) =>
    if ts < old.nickTs then (loseNick s p old, true)
    else if ts = old.nickTs then (loseNick s p old, false)
    else (s, false)

/-- A client of another server. -/
def Conn.remoteUser (nick uid : Text) (ts : Int) (svc : Bool) : Conn :=
  Conn.called ⟨[], [], clip 10 uid, ts, true, true, true, true, svc, false⟩ nick

/-- `handle_uid`, for a UID of the server it comes from. -/
def Node.handleUid (s : Node) (nick uid : Text) (ts : Int) (svc : Bool) : Node :=
  if ircValidNick nick (nickLen - 1) = false ∨ uid.length ≠ uidLen ∨
      (s.netsyncFindUid uid).isSome then s
  else
    let r := resolveCollision s nick ts
    if r.2 then
      let c := Conn.remoteUser nick uid ts svc
      ({ r.1 with next := r.1.next + 1 }.enter r.1.next c).sendUidLine r.1.next c
    else r.1

/-- `handle_nick`, for the user `u` that the line comes from. -/
def handleNick (s : Node) (p : Nat) (u : Conn) (newnick : Text) (ts : Int) : Node :=
  if ircValidNick newnick (nickLen - 1) = false then s
  else
    let rename := fun s : Node => (s.hashDelFound p u).enter p ((u.called newnick).dated ts)
    match (s.serverFindUser newnick).filter fun x => x.1 != p with
    | some (q, clash) =>
      if ts < clash.nickTs then rename (loseNick s q clash) else serverRemoveClient s p u
    | none => rename s

/-- A service that a link introduces: its NICK. -/
def svcNick (s : Node) (nick uid : Text) (now : Int) : Node :=
  if (s.serverFindUser nick).isSome then s
  else
    let c := Conn.called ⟨[], [], uid, now, true, true, true, false, true, false⟩ nick
    ({ s with next := s.next + 1 }.enter s.next c).sendUidLine s.next c

/-- The users of a burst: `HASH_ITER(hh, srv->users, u, utmp)`. -/
def sendBurst (s : Node) : Node :=
  (s.users.entries.filterMap fun e => s.at? e.ptr).foldl
    (fun s x => if x.2.uid ≠ [] then s.sendUidLine x.1 x.2 else s) s

/-! ## 4. Runs

Events are what may happen in any order, between two passes of the event loop and within one. -/

/-- What happens to clients: they connect, take nicks, register, quit and are removed, users of
other servers and services come and go, and services rename. -/
inductive NodeEvent
  /-- A connection is accepted. -/
  | connect
  | nick (p : Nat) (newnick : Text) (barred : Bool) (now : Int)
  | user (p : Nat)
  /-- NICK, USER or CAP END completed a registration, or a lookup or login came back. -/
  | ready (p : Nat) (uid : Text) (klined : Bool) (now : Int)
  | sanick (nick newnick : Text) (now : Int)
  | svsnick (id : Nat ⊕ Text) (newnick : Text) (now : Int)
  | uid (nick uid : Text) (ts : Int) (svc : Bool)
  | remoteNick (uid newnick : Text) (ts : Int)
  | service (nick uid : Text) (now : Int)
  /-- `client_mark_quit`: QUIT, KILL, an error, a timeout. -/
  | markQuit (p : Nat)
  /-- `server_remove_client`: the end of the pass, a remote QUIT, SQUIT, a services link lost. -/
  | remove (p : Nat)
  | linkUp

/-- A command of a local client; none is dispatched once it is quitting. -/
def Node.dispatch (s : Node) (p : Nat) (f : Conn → Node) : Node :=
  match s.conns p with
  | some c => if c.quitting || c.remote || c.isService then s else f c
  | none => s

def nodeStep (s : Node) : NodeEvent → Node
  | .connect =>
    { s with next := s.next + 1 }.write s.next
      ⟨[], [], [], 0, false, false, false, false, false, false⟩
  | .nick p newnick barred now => s.dispatch p fun c => cmdNick s p c newnick barred now
  | .user p => s.dispatch p fun c => if c.registered then s else s.write p { c with gotUser := true }
  | .ready p uid klined now =>
    match s.conns p with
    | some c => cmdSendWelcomeIfReady s p c uid klined now
    | none => s
  | .sanick nick newnick now =>
    match s.serverFindUser nick with
    | some (p, c) =>
      if c.registered = false || c.isService || c.remote then s
      else forceNickChange s p c newnick now
    | none => s
  | .svsnick id newnick now =>
    match svcTarget s id with
    | some (p, c) => if c.registered then forceNickChange s p c newnick now else s
    | none => s
  | .uid nick uid ts svc => s.handleUid nick uid ts svc
  | .remoteNick uid newnick ts =>
    match (s.netsyncFindUid uid).filter fun x => x.2.remote with
    | some (p, u) => handleNick s p u newnick ts
    | none => s
  | .service nick uid now => svcNick s nick uid now
  | .markQuit p =>
    match s.conns p with
    | some c => s.write p { c with quitting := true }
    | none => s
  | .remove p =>
    match s.conns p with
    | some c => serverRemoveClient s p c
    | none => s
  | .linkUp => sendBurst s

/-- What a note should say: the entry was there, or the nick finds the user. -/
def Note.Ok : Note → Prop
  | .deleted _ there => there = true
  | .introduced p _ found => found = some p

/-- **The table is sound**: one entry for a nick, each under its client's casefolded nick, none
deleted that was not there, and no one introduced under a nick that finds another. -/
structure NicksSound (s : Node) : Prop where
  once : s.users.entries.Pairwise fun a b => a.key ≠ b.key
  keyed : ∀ e ∈ s.users.entries, ∃ c, s.conns e.ptr = some c ∧ c.casefoldNick = e.key
  notes : ∀ n ∈ s.notes, n.Ok

/-- The condition on an event: what changes the nick of a client, or completes its registration,
finds it with a nick of its own; and a service has one. -/
def KeepsOut (s : Node) : NodeEvent → Prop
  | .svsnick id newnick _ => ∀ p c, svcTarget s id = some (p, c) → c.registered = true →
      s.canTake p newnick = true → c.casefoldNick ≠ []
  | .ready p _ klined _ => ∀ c, s.conns p = some c → c.registered = false → c.gotNick = true →
      c.gotUser = true → klined = false → c.casefoldNick ≠ []
  | .service nick _ _ => nick ≠ []
  | _ => True

/-! ## 5. What keeps the table sound

The invariant: the table and the keys of the clients are the same, and everybody who is not on the
way out has a key. -/

/-- The key of a client, if it has one. -/
def Conn.key (c : Conn) : Option Text := if c.casefoldNick = [] then none else some c.casefoldNick

def Node.keyOf (s : Node) (p : Nat) : Option Text := (s.conns p).bind Conn.key

theorem key_of_ne {c : Conn} (h : c.casefoldNick ≠ []) : c.key = some c.casefoldNick := if_neg h

theorem key_eq_some {c : Conn} {k : Text} (h : c.key = some k) : c.casefoldNick = k ∧ k ≠ [] := by
  unfold Conn.key at h
  split at h
  · exact absurd h (by simp)
  · rename_i hne
    have hk := Option.some.inj h
    exact ⟨hk, hk ▸ hne⟩

/-- What is true of every client: its key is its nick, casefolded, and it has one from its first
NICK on, until it quits. -/
structure Conn.Ok (c : Conn) : Prop where
  keyed : c.casefoldNick ≠ [] → c.casefoldNick = ircCasefold nickLen c.nick
  named : c.casefoldNick ≠ [] → c.gotNick = true
  held : c.quitting = false → c.gotNick = true → c.casefoldNick ≠ []
  got : c.registered = true ∨ c.remote = true → c.gotNick = true

/-- The table holds just the clients that have a key, and no two share one. -/
structure NodeOk (s : Node) : Prop where
  users : Indexes s.users s.keyOf
  alone : Alone s.keyOf
  fresh : ∀ p c, s.conns p = some c → p < s.next
  conns : ∀ p c, s.conns p = some c → c.Ok
  notes : ∀ n ∈ s.notes, n.Ok

/-- The same with one client out of the table, whatever it is like. -/
structure Without (s : Node) (p : Nat) : Prop where
  users : Indexes s.users (Function.update s.keyOf p none)
  alone : Alone (Function.update s.keyOf p none)
  fresh : ∀ q c, s.conns q = some c → q < s.next
  conns : ∀ q c, q ≠ p → s.conns q = some c → c.Ok
  notes : ∀ n ∈ s.notes, n.Ok

theorem keyOf_write (s : Node) (p : Nat) (c : Conn) :
    (s.write p c).keyOf = Function.update s.keyOf p c.key :=
  Function.comp_update (fun o : Option Conn => o.bind Conn.key) s.conns p (some c)

theorem conns_write (s : Node) (p : Nat) (c : Conn) {q : Nat} {d : Conn}
    (h : (s.write p c).conns q = some d) : (q = p ∧ d = c) ∨ (q ≠ p ∧ s.conns q = some d) := by
  change Function.update s.conns p (some c) q = some d at h
  by_cases hq : q = p
  · rw [hq, Function.update_self] at h
    exact Or.inl ⟨hq, (Option.some.inj h).symm⟩
  · rw [Function.update_of_ne hq] at h
    exact Or.inr ⟨hq, h⟩

theorem casefold_ne_nil_of_valid {nick : Text} {n : Nat} (h : ircValidNick nick n = true) :
    ircCasefold nickLen nick ≠ [] := by
  cases nick with
  | nil => exact absurd h (by simp [ircValidNick])
  | cons c cs => simp [ircCasefold, clip, lower, nickLen]

theorem called_ok {c : Conn} {nick : Text} (hne : ircCasefold nickLen nick ≠ [])
    (hgot : c.gotNick = true) : (c.called nick).Ok where
  keyed := fun _ => by rw [Conn.called, ircCasefold, ircCasefold, clip_clip]
  named := fun _ => hgot
  held := fun _ _ => hne
  got := fun _ => hgot

theorem start_ok (n : Nat) : NodeOk (Node.start n) where
  users := indexes_empty
  alone := fun _ _ _ h => absurd h (by simp [Node.keyOf, Node.start])
  fresh := fun _ _ h => absurd h (by simp [Node.start])
  conns := fun _ _ h => absurd h (by simp [Node.start])
  notes := fun _ h => absurd h List.not_mem_nil

namespace Without

variable {s : Node} {p : Nat} (h : Without s p)

include h

theorem removed : NodeOk { s with conns := Function.update s.conns p none } := by
  have hkey : ({ s with conns := Function.update s.conns p none } : Node).keyOf =
      Function.update s.keyOf p none :=
    Function.comp_update (fun o : Option Conn => o.bind Conn.key) s.conns p none
  have hlive : ∀ q c, Function.update s.conns p none q = some c → q ≠ p ∧ s.conns q = some c := by
    intro q c hq
    by_cases hqp : q = p
    · rw [hqp, Function.update_self] at hq
      exact absurd hq (by simp)
    · rw [Function.update_of_ne hqp] at hq
      exact ⟨hqp, hq⟩
  exact ⟨hkey ▸ h.users, hkey ▸ h.alone, fun q c hq => h.fresh q c (hlive q c hq).2,
    fun q c hq => h.conns q c (hlive q c hq).1 (hlive q c hq).2, h.notes⟩

theorem keyless {c : Conn} (hc : c.Ok) (hkey : c.key = none) (hnext : p < s.next) :
    NodeOk (s.write p c) := by
  have hk : (s.write p c).keyOf = Function.update s.keyOf p none := by rw [keyOf_write, hkey]
  refine ⟨hk ▸ h.users, hk ▸ h.alone, fun q d hq => ?_, fun q d hq => ?_, h.notes⟩
  · rcases conns_write s p c hq with ⟨rfl, -⟩ | ⟨-, hq⟩
    · exact hnext
    · exact h.fresh q d hq
  · rcases conns_write s p c hq with ⟨-, rfl⟩ | ⟨hqp, hq⟩
    · exact hc
    · exact h.conns q d hqp hq

/-- The client comes in under a key that no other has. -/
theorem entered {c : Conn} (hc : c.Ok) (hne : c.casefoldNick ≠ []) (hnext : p < s.next)
    (hfree : ∀ q, q ≠ p → s.keyOf q ≠ some c.casefoldNick) : NodeOk (s.enter p c) := by
  have hk : (s.enter p c).keyOf = Function.update s.keyOf p (some c.casefoldNick) := by
    rw [← key_of_ne hne]
    exact keyOf_write s p c
  have hadd : Indexes (s.users.add c.casefoldNick p false)
      (Function.update s.keyOf p (some c.casefoldNick)) := by
    have hin := h.users.add c.casefoldNick (Function.update_self p none s.keyOf)
      (fun hf : false = true => absurd hf (by simp))
    rwa [Function.update_idem] at hin
  refine ⟨hk ▸ hadd, ?_, fun q d hq => ?_, fun q d hq => ?_, h.notes⟩
  · rw [hk]
    intro q r k hq hr
    by_cases hqp : q = p <;> by_cases hrp : r = p
    · rw [hqp, hrp]
    · rw [hqp, Function.update_self] at hq
      rw [Function.update_of_ne hrp, ← hq] at hr
      exact absurd hr (hfree r hrp)
    · rw [hrp, Function.update_self] at hr
      rw [Function.update_of_ne hqp, ← hr] at hq
      exact absurd hq (hfree q hqp)
    · refine h.alone q r k ?_ ?_
      · rwa [Function.update_of_ne hqp] at hq ⊢
      · rwa [Function.update_of_ne hrp] at hr ⊢
  · rcases conns_write s p c hq with ⟨rfl, -⟩ | ⟨-, hq⟩
    · exact hnext
    · exact h.fresh q d hq
  · rcases conns_write s p c hq with ⟨-, rfl⟩ | ⟨hqp, hq⟩
    · exact hc
    · exact h.conns q d hqp hq

end Without

namespace NodeOk

variable {s : Node} (h : NodeOk s)

include h

theorem lookup_key {p : Nat} {k : Text} (hp : s.keyOf p = some k) : s.users.lookup k = some p :=
  h.users.lookup_alone hp fun q hq => h.alone q p k hq hp

/-- A nick that finds no one, or only `p`, is no other's key. -/
theorem key_free {nick : Text} {p : Nat}
    (hfind : ∀ q c, s.serverFindUser nick = some (q, c) → q = p) :
    ∀ q, q ≠ p → s.keyOf q ≠ some (ircCasefold nickLen nick) := by
  intro q hqp hq
  obtain ⟨c, hc, -⟩ := Option.bind_eq_some_iff.mp hq
  refine hqp (hfind q c ?_)
  rw [Node.serverFindUser, h.lookup_key hq, Option.bind_some, Node.at?, hc]
  rfl

/-- What a nick finds is a client with that key. -/
theorem of_serverFindUser {nick : Text} {p : Nat} {c : Conn}
    (hfind : s.serverFindUser nick = some (p, c)) :
    s.conns p = some c ∧ c.casefoldNick = ircCasefold nickLen nick ∧
      s.keyOf p = some (ircCasefold nickLen nick) := by
  obtain ⟨q, hq, hat⟩ := Option.bind_eq_some_iff.mp hfind
  obtain ⟨d, hd, hpair⟩ := Option.map_eq_some_iff.mp hat
  obtain ⟨rfl, rfl⟩ := Prod.mk.inj hpair
  have hkey := h.users.lookup_some hq
  have hc := hkey
  rw [Node.keyOf, hd, Option.bind_some] at hc
  exact ⟨hd, (key_eq_some hc).1, hkey⟩

/-- What is written over a client, but for its nick. -/
theorem write {p : Nat} {c d : Conn} (hc : s.conns p = some c) (hd : d.Ok) (hkey : d.key = c.key) :
    NodeOk (s.write p d) := by
  have hk : (s.write p d).keyOf = s.keyOf := by
    rw [keyOf_write, hkey, Function.update_eq_self_iff, Node.keyOf, hc]
    rfl
  refine ⟨hk ▸ h.users, hk ▸ h.alone, fun q e hq => ?_, fun q e hq => ?_, h.notes⟩
  · rcases conns_write s p d hq with ⟨rfl, -⟩ | ⟨-, hq⟩
    · exact h.fresh q c hc
    · exact h.fresh q e hq
  · rcases conns_write s p d hq with ⟨-, rfl⟩ | ⟨-, hq⟩
    · exact hd
    · exact h.conns q e hq

theorem hashDel {p : Nat} {k : Text} (hp : s.keyOf p = some k) : Without (s.hashDel p) p := by
  have hthere : (s.users.entries.any fun e => e.ptr = p) = true := by
    obtain ⟨e, he, hptr⟩ := h.users.complete p k hp
    exact List.any_eq_true.mpr ⟨e, he, by simpa using hptr⟩
  refine ⟨h.users.delete p, ?_, h.fresh, fun q c _ hq => h.conns q c hq, ?_⟩
  · intro q r j hq hr
    have hlive : ∀ x, Function.update s.keyOf p none x = some j → s.keyOf x = some j := by
      intro x hx
      by_cases hxp : x = p
      · rw [hxp, Function.update_self] at hx
        exact absurd hx (by simp)
      · rwa [Function.update_of_ne hxp] at hx
    exact h.alone q r j (hlive q hq) (hlive r hr)
  · intro n hn
    rcases List.mem_append.mp hn with hn | hn
    · exact h.notes n hn
    · rw [List.mem_singleton.mp hn]
      exact hthere

theorem without {p : Nat} (hp : s.keyOf p = none) : Without s p := by
  have hk : Function.update s.keyOf p none = s.keyOf := Function.update_eq_self_iff.mpr hp.symm
  exact ⟨hk.symm ▸ h.users, hk.symm ▸ h.alone, h.fresh, fun q c _ hq => h.conns q c hq, h.notes⟩

/-- A client that is taken out if it is found is out then. -/
theorem hashDelFound {p : Nat} {c : Conn} (hc : s.conns p = some c) :
    Without (s.hashDelFound p c) p := by
  have hkey : s.keyOf p = c.key := by rw [Node.keyOf, hc]; rfl
  unfold Node.hashDelFound
  split
  next hfound => exact h.hashDel (h.users.lookup_some hfound)
  next hnot =>
    refine h.without ?_
    cases hk : c.key with
    | none => rw [hkey, hk]
    | some k =>
      rw [hk] at hkey
      rw [(key_eq_some hk).1] at hnot
      exact absurd (h.lookup_key hkey) hnot

theorem next_free : s.conns s.next = none := by
  cases hp : s.conns s.next with
  | none => rfl
  | some c => exact absurd (h.fresh s.next c hp) (lt_irrefl _)

theorem allocated : Without { s with next := s.next + 1 } s.next :=
  have hout : Without s s.next := h.without (by rw [Node.keyOf, h.next_free]; rfl)
  ⟨hout.users, hout.alone, fun q c hq => Nat.lt_succ_of_lt (hout.fresh q c hq), hout.conns,
    hout.notes⟩

theorem sendUidLine {p : Nat} {c : Conn} (hc : s.conns p = some c) (hne : c.casefoldNick ≠ []) :
    NodeOk (s.sendUidLine p c) := by
  have hkey : s.keyOf p = some (ircCasefold nickLen c.nick) := by
    rw [Node.keyOf, hc, Option.bind_some, key_of_ne hne, (h.conns p c hc).keyed hne]
  refine ⟨h.users, h.alone, h.fresh, h.conns, fun n hn => ?_⟩
  rcases List.mem_append.mp hn with hn | hn
  · exact h.notes n hn
  · rw [List.mem_singleton.mp hn]
    exact h.lookup_key hkey

theorem sound : NicksSound s where
  once := by
    refine h.users.once.imp_of_mem fun {a b} ha hb hab hkey => hab ?_
    have hb' := h.users.sound b hb
    rw [← hkey] at hb'
    exact h.alone a.ptr b.ptr a.key (h.users.sound a ha) hb'
  keyed := by
    intro e he
    obtain ⟨c, hc, hk⟩ := Option.bind_eq_some_iff.mp (h.users.sound e he)
    exact ⟨c, hc, (key_eq_some hk).1⟩
  notes := h.notes

end NodeOk

/-! ## 6. The operations -/

theorem serverRemoveClient_ok {s : Node} (h : NodeOk s) {p : Nat} {c : Conn}
    (hc : s.conns p = some c) : NodeOk (serverRemoveClient s p c) := by
  unfold serverRemoveClient
  split
  next => exact (h.hashDelFound hc).removed
  next hnil =>
    refine (h.without ?_).removed
    rw [Node.keyOf, hc, Option.bind_some, Conn.key, if_pos (not_not.mp hnil)]

theorem evictLocalForCollision_ok {s : Node} (h : NodeOk s) {p : Nat} {c : Conn}
    (hc : s.conns p = some c) : NodeOk (evictLocalForCollision s p c) := by
  have hout := h.hashDelFound hc
  have hnext : (s.hashDelFound p c).next = s.next := by
    unfold Node.hashDelFound
    split <;> rfl
  refine hout.keyless ⟨fun hne => absurd rfl hne, fun hne => absurd rfl hne, fun hq => ?_,
    (h.conns p c hc).got⟩ rfl (hnext.symm ▸ h.fresh p c hc)
  exact absurd hq (by simp)

/-- What the loser of a collision leaves: all but its own key. -/
structure Lost (s t : Node) (p : Nat) : Prop where
  ok : NodeOk t
  key : t.keyOf p = none
  others : ∀ q, q ≠ p → t.conns q = s.conns q
  next : t.next = s.next

theorem hashDelFound_frame (s : Node) (p : Nat) (c : Conn) :
    (s.hashDelFound p c).conns = s.conns ∧ (s.hashDelFound p c).next = s.next := by
  unfold Node.hashDelFound
  split <;> exact ⟨rfl, rfl⟩

theorem loseNick_others (s : Node) (c : Conn) {p q : Nat} (hq : q ≠ p) :
    (loseNick s p c).conns q = s.conns q := by
  obtain ⟨hconns, -⟩ := hashDelFound_frame s p c
  unfold loseNick
  split
  next =>
    simp only [serverRemoveClient]
    split <;> simp [hq, hconns]
  next => simp [evictLocalForCollision, Node.write, hq, hconns]

theorem loseNick_lost {s : Node} (h : NodeOk s) {p : Nat} {c : Conn} (hc : s.conns p = some c) :
    Lost s (loseNick s p c) p := by
  have hnext := (hashDelFound_frame s p c).2
  refine ⟨?_, ?_, fun q hq => loseNick_others s c hq, ?_⟩
  · unfold loseNick
    split
    · exact serverRemoveClient_ok h hc
    · exact evictLocalForCollision_ok h hc
  · unfold loseNick
    split
    · simp only [Node.keyOf, serverRemoveClient]
      split <;> simp
    · simp [Node.keyOf, evictLocalForCollision, Node.write, Conn.key]
  · unfold loseNick
    split
    · simp only [serverRemoveClient]
      split
      · exact hnext
      · rfl
    · exact hnext

/-- After the loser has gone its nick is no one's. -/
theorem Lost.key_free {s t : Node} {p : Nat} {nick : Text} (hl : Lost s t p) (h : NodeOk s)
    (hp : s.keyOf p = some (ircCasefold nickLen nick)) (q : Nat) :
    t.keyOf q ≠ some (ircCasefold nickLen nick) := by
  intro hq
  by_cases hqp : q = p
  · rw [hqp, hl.key] at hq
    exact absurd hq (by simp)
  · rw [Node.keyOf, hl.others q hqp] at hq
    exact hqp (h.alone q p _ hq hp)

/-- `resolve_collision`: when the newcomer may proceed, the nick is free. -/
theorem resolveCollision_ok {s : Node} (h : NodeOk s) (nick : Text) (ts : Int) :
    NodeOk (resolveCollision s nick ts).1 ∧ ((resolveCollision s nick ts).2 = true →
      ∀ q, (resolveCollision s nick ts).1.keyOf q ≠ some (ircCasefold nickLen nick)) := by
  unfold resolveCollision
  split
  next hnone =>
    refine ⟨h, fun _ q => ?_⟩
    -- no client at all has the key
    intro hq
    exact h.key_free (p := q + 1) (fun _ _ hfind => absurd (hnone.symm.trans hfind) (by simp)) q
      (by omega) hq
  next p old hfind =>
    obtain ⟨hc, -, hkey⟩ := h.of_serverFindUser hfind
    have hl := loseNick_lost h hc
    split
    · exact ⟨hl.ok, fun _ => hl.key_free h hkey⟩
    · split
      · exact ⟨hl.ok, fun hf => absurd hf (by simp)⟩
      · exact ⟨h, fun hf => absurd hf (by simp)⟩

/-- A new client under a valid nick that no one has. -/
theorem newcomer_ok {s : Node} (h : NodeOk s) {c : Conn} {nick : Text}
    (hne : ircCasefold nickLen nick ≠ []) (hgot : c.gotNick = true)
    (hfree : ∀ q, s.keyOf q ≠ some (ircCasefold nickLen nick)) :
    NodeOk (({ s with next := s.next + 1 }.enter s.next (c.called nick)).sendUidLine s.next
      (c.called nick)) := by
  have hin := h.allocated.entered (c := c.called nick) (called_ok hne hgot) hne
    (Nat.lt_succ_self _) fun q _ => hfree q
  exact hin.sendUidLine (Function.update_self ..) hne

theorem handleUid_ok {s : Node} (h : NodeOk s) (nick uid : Text) (ts : Int) (svc : Bool) :
    NodeOk (s.handleUid nick uid ts svc) := by
  unfold Node.handleUid
  split
  next => exact h
  next hvalid =>
    rw [not_or, Bool.not_eq_false] at hvalid
    obtain ⟨hr, hfree⟩ := resolveCollision_ok h nick ts
    simp only
    split
    next hwins => exact newcomer_ok hr (casefold_ne_nil_of_valid hvalid.1) rfl (hfree hwins)
    next => exact hr

theorem svcNick_ok {s : Node} (h : NodeOk s) {nick : Text} (uid : Text) (now : Int)
    (hne : nick ≠ []) : NodeOk (svcNick s nick uid now) := by
  unfold svcNick
  split
  next => exact h
  next hfind =>
    have hfold : ircCasefold nickLen nick ≠ [] := by
      obtain ⟨c, cs, rfl⟩ := List.exists_cons_of_ne_nil hne
      simp [ircCasefold, clip, lower, nickLen]
    refine newcomer_ok h hfold rfl fun q => ?_
    exact h.key_free (p := q + 1) (fun _ _ hf => absurd (hf ▸ rfl) hfind) q (by omega)

/-- A client that is out of the table comes in under another nick. -/
theorem Without.renamed {s : Node} {p : Nat} (h : Without s p) {c : Conn} {nick : Text}
    (hnext : p < s.next) (hne : ircCasefold nickLen nick ≠ []) (hgot : c.gotNick = true) (now : Int)
    (hfree : ∀ q, q ≠ p → s.keyOf q ≠ some (ircCasefold nickLen nick)) :
    NodeOk (s.enter p ((c.called nick).dated now)) := by
  have hok := called_ok hne hgot
  exact h.entered ⟨hok.keyed, hok.named, hok.held, hok.got⟩ hne hnext hfree

theorem handleNick_ok {s : Node} (h : NodeOk s) {p : Nat} {u : Conn} (hu : s.conns p = some u)
    (hgot : u.gotNick = true) (newnick : Text) (ts : Int) :
    NodeOk (handleNick s p u newnick ts) := by
  have hrename : ∀ t : Node, NodeOk t → t.conns p = some u → ircValidNick newnick (nickLen - 1) →
      (∀ q, q ≠ p → t.keyOf q ≠ some (ircCasefold nickLen newnick)) →
      NodeOk ((t.hashDelFound p u).enter p ((u.called newnick).dated ts)) := by
    intro t ht hut hvalid hfree
    obtain ⟨hconns, hnext⟩ := hashDelFound_frame t p u
    refine (ht.hashDelFound hut).renamed (hnext.symm ▸ ht.fresh p u hut)
      (casefold_ne_nil_of_valid hvalid) hgot ts fun q hq => ?_
    rw [Node.keyOf, hconns]
    exact hfree q hq
  unfold handleNick
  split
  next => exact h
  next hvalid =>
    rw [Bool.not_eq_false] at hvalid
    simp only
    split
    next q clash hclash =>
      obtain ⟨hfind, hqp⟩ := Option.filter_eq_some_iff.mp hclash
      obtain ⟨hc, -, hkey⟩ := h.of_serverFindUser hfind
      split
      next =>
        have hl := loseNick_lost h hc
        have hpq : p ≠ q := fun e => by simp [e] at hqp
        refine hrename _ hl.ok ((hl.others p hpq).trans hu) hvalid fun r _ => hl.key_free h hkey r
      next => exact serverRemoveClient_ok h hu
    next hnone =>
      refine hrename s h hu hvalid (h.key_free fun q c hfind => ?_)
      by_contra hqp
      rw [hfind, Option.filter_eq_none_iff] at hnone
      exact hnone _ rfl (by simpa using hqp)

theorem forceNickChange_ok {s : Node} (h : NodeOk s) {p : Nat} {c : Conn}
    (hc : s.conns p = some c) (newnick : Text) (now : Int)
    (hne : s.canTake p newnick = true → c.casefoldNick ≠ []) :
    NodeOk (forceNickChange s p c newnick now) := by
  unfold forceNickChange
  split
  next hcan =>
    have hkey : s.keyOf p = some c.casefoldNick := by
      rw [Node.keyOf, hc, Option.bind_some, key_of_ne (hne hcan)]
    obtain ⟨hvalid, hfind⟩ := Bool.and_eq_true_iff.mp hcan
    refine (h.hashDel hkey).renamed (h.fresh p c hc) (casefold_ne_nil_of_valid hvalid)
      ((h.conns p c hc).named (hne hcan)) now (h.key_free fun q d hq => ?_)
    rw [hq] at hfind
    simpa using hfind
  next => exact h

theorem cmdNick_ok {s : Node} (h : NodeOk s) {p : Nat} {c : Conn} (hc : s.conns p = some c)
    (hquit : c.quitting = false) (newnick : Text) (barred : Bool) (now : Int) :
    NodeOk (cmdNick s p c newnick barred now) := by
  unfold cmdNick
  split
  next => exact h
  next hvalid =>
    rw [Bool.not_eq_false] at hvalid
    have hfold := casefold_ne_nil_of_valid hvalid
    split
    next => exact h
    next =>
      split
      next => exact h
      next hfind =>
        have hfree : ∀ q, q ≠ p → s.keyOf q ≠ some (ircCasefold nickLen newnick) := by
          refine h.key_free fun q d hq => ?_
          rw [hq] at hfind
          simpa using hfind
        split
        next =>
          -- the first nick, or another before the registration is complete
          have hout : Without (if c.gotNick then s.hashDelFound p c else s) p := by
            split
            next => exact h.hashDelFound hc
            next hgot =>
              refine h.without ?_
              have hnil : c.casefoldNick = [] := by
                by_contra hne
                exact hgot ((h.conns p c hc).named hne)
              rw [Node.keyOf, hc, Option.bind_some, Conn.key, if_pos hnil]
          obtain ⟨hconns, hnext⟩ := hashDelFound_frame s p c
          have hok := called_ok (c := { c with gotNick := true }) hfold rfl
          refine hout.entered ⟨hok.keyed, hok.named, hok.held, fun _ => rfl⟩ hfold ?_ fun q hq => ?_
          · split
            · rw [hnext]
              exact h.fresh p c hc
            · exact h.fresh p c hc
          · have hk : (if c.gotNick then s.hashDelFound p c else s).keyOf q = s.keyOf q := by
              split
              · rw [Node.keyOf, hconns]
                rfl
              · rfl
            rw [hk]
            exact hfree q hq
        next hreg =>
          have hgot : c.gotNick = true := (h.conns p c hc).got (Or.inl (by simpa using hreg))
          have hne : c.casefoldNick ≠ [] := (h.conns p c hc).held hquit hgot
          split
          next => exact h
          next =>
            split
            next hsame =>
              refine h.write hc ⟨fun _ => ?_, fun _ => hgot, fun _ _ => hne, fun _ => hgot⟩ rfl
              rw [Conn.dated]
              simp only
              rw [hsame, ircCasefold, ircCasefold, clip_clip]
            next =>
              have hkey : s.keyOf p = some c.casefoldNick := by
                rw [Node.keyOf, hc, Option.bind_some, key_of_ne hne]
              exact (h.hashDel hkey).renamed (h.fresh p c hc) hfold hgot now hfree

theorem cmdSendWelcomeIfReady_ok {s : Node} (h : NodeOk s) {p : Nat} {c : Conn}
    (hc : s.conns p = some c) (uid : Text) (klined : Bool) (now : Int)
    (hin : c.registered = false → c.gotNick = true → c.gotUser = true → klined = false →
      c.casefoldNick ≠ []) : NodeOk (cmdSendWelcomeIfReady s p c uid klined now) := by
  have hok := h.conns p c hc
  unfold cmdSendWelcomeIfReady
  split
  next => exact h
  next hready =>
    simp only [Bool.or_eq_true, Bool.not_eq_true', not_or, Bool.not_eq_true,
      Bool.not_eq_false] at hready
    split
    next => exact h.write hc ⟨hok.keyed, hok.named, fun hq => absurd hq (by simp), hok.got⟩ rfl
    next hkline =>
      have hne := hin hready.1.1 hready.1.2 hready.2 (by simpa using hkline)
      have hw := h.write hc (d := { c with
        registered := true, uid := if c.uid = [] then uid else c.uid
        nickTs := if c.nickTs = 0 then now else c.nickTs })
        ⟨hok.keyed, hok.named, hok.held, fun _ => hready.1.2⟩ rfl
      exact hw.sendUidLine (Function.update_self ..) hne

theorem sendBurst_ok {s : Node} (h : NodeOk s) : NodeOk (sendBurst s) := by
  have hall : ∀ (xs : List (Nat × Conn)) (t : Node), NodeOk t →
      (∀ x ∈ xs, t.conns x.1 = some x.2 ∧ x.2.casefoldNick ≠ []) →
      NodeOk (xs.foldl (fun s x => if x.2.uid ≠ [] then s.sendUidLine x.1 x.2 else s) t) := by
    intro xs
    induction xs with
    | nil => exact fun _ ht _ => ht
    | cons x xs ih =>
      intro t ht hxs
      obtain ⟨hx, hne⟩ := hxs x List.mem_cons_self
      have hrest := fun y hy => hxs y (List.mem_cons_of_mem x hy)
      rw [List.foldl_cons]
      split
      · exact ih _ (ht.sendUidLine hx hne) hrest
      · exact ih t ht hrest
  refine hall _ s h fun x hx => ?_
  obtain ⟨e, he, hat⟩ := List.mem_filterMap.mp hx
  obtain ⟨c, hc, rfl⟩ := Option.map_eq_some_iff.mp hat
  have hkey := h.users.sound e he
  rw [Node.keyOf, hc, Option.bind_some] at hkey
  obtain ⟨hk, hne⟩ := key_eq_some hkey
  exact ⟨hc, hk ▸ hne⟩

/-! ## 7. Runs keep it -/

theorem of_at? {s : Node} {p q : Nat} {c : Conn} (h : s.at? q = some (p, c)) :
    s.conns p = some c := by
  obtain ⟨d, hd, hpair⟩ := Option.map_eq_some_iff.mp h
  obtain ⟨rfl, rfl⟩ := Prod.mk.inj hpair
  exact hd

theorem of_netsyncFindUid {s : Node} {uid : Text} {p : Nat} {c : Conn}
    (h : s.netsyncFindUid uid = some (p, c)) : s.conns p = some c := by
  obtain ⟨q, -, hat⟩ := Option.bind_eq_some_iff.mp h
  exact of_at? hat

theorem of_svcTarget {s : Node} (h : NodeOk s) {id : Nat ⊕ Text} {p : Nat} {c : Conn}
    (hid : svcTarget s id = some (p, c)) : s.conns p = some c := by
  have hfind := (Option.filter_eq_some_iff.mp hid).1
  cases id with
  | inl q => exact of_at? hfind
  | inr name =>
    simp only [Option.or_eq_some_iff] at hfind
    rcases hfind with hfind | ⟨-, hfind⟩
    · split at hfind
      · exact of_netsyncFindUid hfind
      · exact absurd hfind (by simp)
    · exact (h.of_serverFindUser hfind).1

/-- **An event that leaves the evicted alone keeps the table sound.** -/
theorem nodeStep_ok (s : Node) (e : NodeEvent) (h : NodeOk s) (he : KeepsOut s e) :
    NodeOk (nodeStep s e) := by
  cases e with
  | connect =>
    refine h.allocated.keyless ⟨fun hne => absurd rfl hne, fun hne => absurd rfl hne,
      fun _ hgot => absurd hgot (by simp), fun hreg => absurd hreg (by simp)⟩ rfl (Nat.lt_succ_self _)
  | nick p newnick barred now =>
    simp only [nodeStep, Node.dispatch]
    split
    next c hc =>
      split
      next => exact h
      next hgo =>
        simp only [Bool.or_eq_true, not_or, Bool.not_eq_true] at hgo
        exact cmdNick_ok h hc hgo.1.1 newnick barred now
    next => exact h
  | user p =>
    simp only [nodeStep, Node.dispatch]
    split
    next c hc =>
      have hok := h.conns p c hc
      split
      next => exact h
      next =>
        split
        next => exact h
        next => exact h.write hc ⟨hok.keyed, hok.named, hok.held, hok.got⟩ rfl
    next => exact h
  | ready p uid klined now =>
    simp only [nodeStep]
    split
    next c hc => exact cmdSendWelcomeIfReady_ok h hc uid klined now (he c hc)
    next => exact h
  | sanick nick newnick now =>
    simp only [nodeStep]
    split
    next p c hfind =>
      obtain ⟨hc, -, hkey⟩ := h.of_serverFindUser hfind
      split
      next => exact h
      next =>
        refine forceNickChange_ok h hc newnick now fun _ hnil => ?_
        rw [Node.keyOf, hc, Option.bind_some, Conn.key, if_pos hnil] at hkey
        exact absurd hkey (by simp)
    next => exact h
  | svsnick id newnick now =>
    simp only [nodeStep]
    split
    next p c hid =>
      split
      next hreg => exact forceNickChange_ok h (of_svcTarget h hid) newnick now (he p c hid hreg)
      next => exact h
    next => exact h
  | uid nick uid ts svc => exact handleUid_ok h nick uid ts svc
  | remoteNick uid newnick ts =>
    simp only [nodeStep]
    split
    next p u hfind =>
      obtain ⟨hfind, hremote⟩ := Option.filter_eq_some_iff.mp hfind
      have hu := of_netsyncFindUid hfind
      exact handleNick_ok h hu ((h.conns p u hu).got (Or.inr hremote)) newnick ts
    next => exact h
  | service nick uid now => exact svcNick_ok h uid now he
  | markQuit p =>
    simp only [nodeStep]
    split
    next c hc =>
      have hok := h.conns p c hc
      exact h.write hc ⟨hok.keyed, hok.named, fun hq => absurd hq (by simp), hok.got⟩ rfl
    next => exact h
  | remove p =>
    simp only [nodeStep]
    split
    next c hc => exact serverRemoveClient_ok h hc
    next => exact h
  | linkUp => exact sendBurst_ok h

/-- **The table of nicks is sound** after every run in which no SVSNICK renames an evicted client
and no evicted client completes its registration, and every service has a nick. An evicted client
keeps its slot but has no key, and both of these would delete what is not there. -/
theorem nick_table_sound (n : Nat) (es : List NodeEvent)
    (h : Runs.Throughout nodeStep KeepsOut (Node.start n) es) :
    NicksSound (es.foldl nodeStep (Node.start n)) :=
  (Runs.invariant_of_step nodeStep_ok es (Node.start n) (start_ok n) h).sound

/-- Alice registers, and a user of another server who had the nick before her comes: she is
evicted. -/
def demoCollision : List NodeEvent :=
  [.connect, .nick 0 "alice".toList false 100, .user 0, .ready 0 "001AAAAAA".toList false 100,
    .uid "alice".toList "002AAAAAA".toList 50 false]

theorem nick_table_sound_demo :
    NicksSound (demoCollision.foldl nodeStep (Node.start 30)) := by
  refine nick_table_sound 30 _ ⟨trivial, trivial, trivial, fun c hc _ _ _ _ => ?_, trivial, trivial⟩
  obtain rfl := Option.some.inj hc
  decide

/-- Before the pass ends the services rename her by UID: she is deleted from a table she is not
in. -/
theorem evicted_deleted_again : ¬ ∀ es : List NodeEvent,
    NicksSound (es.foldl nodeStep (Node.start 30)) := by
  intro h
  have hrun := h (demoCollision ++
    [.svsnick (.inr "001AAAAAA".toList) "Guest1".toList 101])
  exact absurd (hrun.notes (.deleted 0 false) (by decide)) (by simp [Note.Ok])

end SekurIRCd
