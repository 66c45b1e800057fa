/-
# The tree of servers

A server keeps a table of the servers it knows, each with a pointer to the next server toward
itself (`uplink`) and with the link it is reached through (`route`).  Entries come from the two
sides of a handshake (`dialPeer`, `acceptPeer`) and from SERVER lines of linked servers, and they
go with everything behind them when a server is SQUIT or a link is lost.

Pointers are modelled as such: an entry is the number of its allocation, so that two entries may
have the same SID.  And this can happen: a SID and a name are looked up as they were sent, but
stored in fields of four and of 128 bytes.  `server_tree_iff` says that this is all that can go
wrong: in every run the table stays a tree of distinct servers exactly as long as no server is
let in whose SID or name, cut to its field, is in the table.

A user is known here by its UID and the server it is on; a step `gone` stands for whatever removes
one.  What is sent to other links is left out.
-/
import SekurIRCd.Client
import SekurIRCd.Lib.ParentTree
import SekurIRCd.Lib.Runs

namespace SekurIRCd

open CLib ParentTree

/-! ## 1. The tables

Pointers are numbers of allocations, and a pointer to something that was freed leads to nothing.
The table is a list, searched from its newer or its older end as the code does. -/

/-- `netserver_t`. -/
structure TreeServer where
  ptr : Nat
  name : Text
  sid : Text
  desc : Text
  hop : Int
  uplink : Option Nat
  route : Option Nat
deriving DecidableEq, Repr

/-- `link_conn_t`, once authenticated. -/
structure TreeLink where
  conn : Nat
  peerName : Text
  nserver : Option Nat
  closing : Bool
deriving DecidableEq, Repr

/-- A user, as far as the servers go. -/
structure TreeUser where
  uid : Text
  remote : Bool
  nserver : Nat
deriving DecidableEq, Repr

/-- The server's tables, and the number of the next allocation.  The entry of this server itself
is number 0; the newest entry stands first. -/
structure Tree where
  next : Nat
  servers : List TreeServer
  links : List TreeLink
  users : List TreeUser
deriving DecidableEq, Repr

/-- `netsync_init`. -/
def netsyncInit (name sid network : Text) : Tree where
  next := 1
  servers := [⟨0, clip 128 name, clip (sidLen + 1) sid, clip 128 network, 0, none, none⟩]
  links := []
  users := []

namespace Tree

/-- The entry at a pointer. -/
def entry (t : Tree) (p : Nat) : Option TreeServer := t.servers.find? fun s => s.ptr == p

/-- The pointer to the next server toward this one. -/
def parent (t : Tree) (p : Nat) : Option Nat := (t.entry p).bind TreeServer.uplink

/-- `netsync_find_sid`; of two entries the newer is found. -/
def findSid (t : Tree) (sid : Text) : Option TreeServer := t.servers.find? fun s => s.sid == sid

/-- `netsync_find_name`; of two entries the older is found. -/
def findName (t : Tree) (name : Text) : Option TreeServer :=
  t.servers.reverse.find? fun s => caseEq s.name name

/-- `netsync_is_behind(s, ancestor)`.  No walk is longer than the number of allocations. -/
def isBehind (t : Tree) (s : Nat) (ancestor : Option Nat) : Bool :=
  ancestor.any fun a => decide (a ∈ walk t.parent t.next s)

/-- `src_server`. -/
def srcServer (t : Tree) (lc : TreeLink) (pfx : Option Text) : Option TreeServer :=
  (pfx.bind t.findSid).filter fun s => s.ptr != 0 && t.isBehind s.ptr lc.nserver

/-- The server a line comes from: `src_server`, or the peer itself. -/
def fromServer (t : Tree) (lc : TreeLink) (pfx : Option Text) : Option TreeServer :=
  (t.srcServer lc pfx).or ((lc.nserver.bind t.entry).filter fun s => pfx == some s.sid)

/-- `server_find_link`: the link of a connection. -/
def link (t : Tree) (conn : Nat) : Option TreeLink := t.links.find? fun l => l.conn == conn

/-- A new authenticated link. -/
def openLink (t : Tree) (conn : Nat) (peerName : Text) : Tree :=
  { t with links := ⟨conn, clip 128 peerName, none, false⟩ :: t.links }

/-- `link_close`: the link goes at the end of the pass. -/
def closeLink (t : Tree) (conn : Nat) : Tree :=
  { t with links := t.links.map fun l => if l.conn = conn then { l with closing := true } else l }

end Tree

/-! ## 2. Servers come and go

A server comes in by a handshake or by a SERVER line, and the checks differ a little. It goes with
all that is behind it. -/

/-- `netsync_link_up`; `none` is its `-1`. -/
def netsyncLinkUp (t : Tree) (conn : Nat) (name sid desc : Text) : Option Tree :=
  if (t.findSid sid).isSome ∨ (t.findName name).isSome then none
  else some { t with
    next := t.next + 1
    servers := ⟨t.next, clip 128 name, clip (sidLen + 1) sid, clip 128 desc, 1, some 0,
      some conn⟩ :: t.servers
    links := t.links.map fun l => if l.conn = conn then { l with nserver := some t.next } else l }

/-- What a handshake that has come this far leads to. -/
def linkUpOrClose (t : Tree) (conn : Nat) (name sid desc : Text) : Tree :=
  (netsyncLinkUp t conn name sid desc).getD (t.closeLink conn)

/-- `dial_peer`, from the peer's answer on: `capab` says that it offered the state-sync protocol,
`compatible` that `netsync_check_peer` accepted its version. -/
def dialPeer (t : Tree) (conn : Nat) (peer : Text) (capab compatible : Bool)
    (reply : IrcMessage) : Tree :=
  if (t.link conn).isSome then t
  else if caseEq reply.command "SERVER".toList = false ∨ reply.params.head? ≠ some peer then t
  else
    match capab, reply.params with
    | true, _ :: _ :: sid :: desc :: _ =>
      if compatible = false then t
      else linkUpOrClose (t.openLink conn peer) conn peer (clip 8 sid) desc
    | _, _ => t.openLink conn peer

/-- A digit or a capital. -/
def isSidTail (c : Char) : Bool := c.isDigit || (decide ('A' ≤ c) && decide (c ≤ 'Z'))

/-- The SIDs that `link_process_line` accepts in a handshake. -/
def sidOk (sid : Text) : Bool :=
  match sid with
  | [a, b, c] => a.isDigit && isSidTail b && isSidTail c
  | _ => false

/-- SERVER on a connection that is not authenticated yet, in `link_process_line`: `ok` says that
the name, the password, the fingerprint and the address are those of a configured peer. -/
def acceptPeer (t : Tree) (conn : Nat) (ok capab compatible : Bool) (msg : IrcMessage) : Tree :=
  if (t.link conn).isSome then t
  else
    match msg.params with
    | [] => t
    | name :: rest =>
      if ok = false ∨ t.links.any (fun l => !l.closing && caseEq l.peerName name) = true then t
      else
        match capab, rest with
        | true, _ :: sid :: desc :: _ =>
          if sidOk sid = false ∨ (t.findSid sid).isSome ∨ (t.findName name).isSome ∨
              compatible = false then
            (t.openLink conn name).closeLink conn
          else linkUpOrClose (t.openLink conn name) conn name sid desc
        | _, _ => t.openLink conn name

/-- `remove_server_tree`: the users behind `root` go, then the servers. Nothing is freed before all
have been tested, so every test walks the table as it was. -/
def removeServerTree (t : Tree) (root : Nat) : Tree :=
  { t with
    users := t.users.filter fun u => !(u.remote && t.isBehind u.nserver (some root))
    servers := t.servers.filter fun s => s.ptr == 0 || !t.isBehind s.ptr (some root) }

/-- `handle_server`. -/
def handleServer (t : Tree) (lc : TreeLink) (msg : IrcMessage) : Tree :=
  match t.fromServer lc msg.pfx, msg.params with
  | some sender, name :: hopText :: sid :: desc :: _ =>
    if (t.findSid sid).isSome ∨ (t.findName name).isSome then t.closeLink lc.conn
    else
      let hop := atoi hopText
      { t with
        next := t.next + 1
        servers := ⟨t.next, clip 128 name, clip (sidLen + 1) sid, clip 128 desc,
          if 0 < hop then hop else sender.hop + 1, some sender.ptr, some lc.conn⟩ :: t.servers }
  | _, _ => t

/-- `handle_squit`. -/
def handleSquit (t : Tree) (lc : TreeLink) (msg : IrcMessage) : Tree :=
  match msg.params.head?.bind t.findSid with
  | some s =>
    if s.ptr = 0 ∨ t.isBehind s.ptr lc.nserver = false then t
    else if some s.ptr = lc.nserver then t.closeLink lc.conn
    else removeServerTree t s.ptr
  | none => t

/-- `netsync_link_down`, as `link_reap` calls it: the link is off the list by then. -/
def netsyncLinkDown (t : Tree) (lc : TreeLink) : Tree :=
  match lc.nserver with
  | some root => removeServerTree t root
  | none => t

/-- `link_reap`, for one link. -/
def linkReap (t : Tree) (lc : TreeLink) : Tree :=
  netsyncLinkDown { t with links := t.links.filter fun l => l.conn != lc.conn } lc

/-- `handle_uid`, as far as the servers go: `admitted` says that the nick was free or won. -/
def handleUid (t : Tree) (lc : TreeLink) (admitted : Bool) (msg : IrcMessage) : Tree :=
  match t.fromServer lc msg.pfx, msg.params[8]? with
  | some sender, some uid =>
    if msg.params.length < 12 ∨ uid.length ≠ uidLen ∨ t.users.any (fun u => u.uid == uid) = true ∨
        uid.take sidLen ≠ sender.sid.take sidLen ∨ admitted = false then t
    else { t with users := ⟨uid, true, sender.ptr⟩ :: t.users }
  | _, _ => t

/-! ## 3. Runs -/

inductive TreeEvent
  | dial (conn : Nat) (peer : Text) (capab compatible : Bool) (reply : IrcMessage)
  | accept (conn : Nat) (ok capab compatible : Bool) (msg : IrcMessage)
  | server (conn : Nat) (msg : IrcMessage)
  | squit (conn : Nat) (msg : IrcMessage)
  | close (conn : Nat)
  | reap (conn : Nat)
  | uid (conn : Nat) (admitted : Bool) (msg : IrcMessage)
  | register (uid : Text)
  | gone (uid : Text)

/-- A line on a server link. -/
def Tree.onLink (t : Tree) (conn : Nat) (f : TreeLink → Tree) : Tree :=
  match t.link conn with
  | some lc => if lc.nserver.isSome then f lc else t
  | none => t

def treeStep (t : Tree) : TreeEvent → Tree
  | .dial conn peer capab compatible reply => dialPeer t conn peer capab compatible reply
  | .accept conn ok capab compatible msg => acceptPeer t conn ok capab compatible msg
  | .server conn msg => t.onLink conn fun lc => handleServer t lc msg
  | .squit conn msg => t.onLink conn fun lc => handleSquit t lc msg
  | .close conn => t.closeLink conn
  | .reap conn =>
    match t.link conn with
    | some lc => if lc.closing then linkReap t lc else t
    | none => t
  | .uid conn admitted msg => t.onLink conn fun lc => handleUid t lc admitted msg
  | .register uid => { t with users := ⟨uid, false, 0⟩ :: t.users }
  | .gone uid => { t with users := t.users.filter fun u => u.uid != uid }

/-! ## 4. The pointers

Sound pointers are one thing, and distinct servers another. This section is about the first, which
holds in every run. -/

/-- The entries, as pointers. -/
def Tree.nodes (t : Tree) : Set Nat := {p | ∃ s ∈ t.servers, s.ptr = p}

/-- What every step keeps of the pointers, whatever the peers send. -/
structure Wired (t : Tree) : Prop where
  rooted : Rooted t.parent id t.nodes 0
  distinct : ∀ s ∈ t.servers, ∀ s' ∈ t.servers, s.ptr = s'.ptr → s = s'
  fresh : ∀ s ∈ t.servers, s.ptr < t.next
  direct : ∀ s ∈ t.servers, s.uplink = some 0 →
    ∃ l ∈ t.links, s.route = some l.conn ∧ l.nserver = some s.ptr
  inherit : ∀ s ∈ t.servers, ∀ u ∈ t.servers, s.uplink = some u.ptr → u.ptr ≠ 0 → s.route = u.route
  conns : ∀ l ∈ t.links, ∀ l' ∈ t.links, l.conn = l'.conn → l = l'
  attached : ∀ l ∈ t.links, ∀ p, l.nserver = some p →
    ∃ s ∈ t.servers, s.ptr = p ∧ s.uplink = some 0 ∧ s.route = some l.conn
  users : ∀ u ∈ t.users, u.nserver ∈ t.nodes ∧ (u.remote = false → u.nserver = 0)

theorem entry_of_mem {t : Tree} (hd : ∀ s ∈ t.servers, ∀ s' ∈ t.servers, s.ptr = s'.ptr → s = s')
    {s : TreeServer} (hs : s ∈ t.servers) : t.entry s.ptr = some s := by
  have hsome : (t.entry s.ptr).isSome = true := by
    rw [Tree.entry, List.find?_isSome]
    exact ⟨s, hs, by simp⟩
  obtain ⟨s', hs'⟩ := Option.isSome_iff_exists.mp hsome
  have hptr : s'.ptr = s.ptr := by simpa using List.find?_some hs'
  rw [hs', hd s' (List.mem_of_find?_eq_some hs') s hs hptr]

theorem parent_some {t : Tree} {x p : Nat} (h : t.parent x = some p) :
    ∃ s ∈ t.servers, s.ptr = x ∧ s.uplink = some p := by
  obtain ⟨s, hs, hup⟩ := Option.bind_eq_some_iff.mp h
  exact ⟨s, List.mem_of_find?_eq_some hs, by simpa using List.find?_some hs, hup⟩

namespace Wired

variable {t : Tree} (h : Wired t)

include h

theorem entry_eq {s : TreeServer} (hs : s ∈ t.servers) : t.entry s.ptr = some s :=
  entry_of_mem h.distinct hs

theorem parent_eq {s : TreeServer} (hs : s ∈ t.servers) : t.parent s.ptr = s.uplink := by
  rw [Tree.parent, h.entry_eq hs]
  rfl

/-- The loop of `netsync_is_behind` decides what is behind an entry. -/
theorem isBehind_iff {p a : Nat} (hp : p ∈ t.nodes) :
    t.isBehind p (some a) = true ↔ Behind t.parent p a := by
  obtain ⟨s, hs, rfl⟩ := hp
  have hlt := h.fresh s hs
  rw [Tree.isBehind, Option.any_some, decide_eq_true_eq]
  exact ⟨behind_of_mem_walk, mem_walk_of_behind h.rooted.falls (Nat.le_of_lt hlt)⟩

/-- What is behind a link's peer is reached through the link. -/
theorem route_of_behind {lc : TreeLink} (hlc : lc ∈ t.links) {a : Nat} (ha : lc.nserver = some a)
    {s : TreeServer} (hs : s ∈ t.servers) (hb : Behind t.parent s.ptr a) :
    s.route = some lc.conn := by
  obtain ⟨peer, hpeer, hptr, hup, hroute⟩ := h.attached lc hlc a ha
  have hne : a ≠ 0 := by
    rintro rfl
    have htop := h.rooted.root_top
    rw [← hptr, h.parent_eq hpeer, hup] at htop
    exact absurd htop (by simp)
  have hall : ∀ s ∈ t.servers, s.ptr = a → s.route = some lc.conn := by
    intro s hs e
    rw [h.distinct s hs peer hpeer (e.trans hptr.symm), hroute]
  have hmain := of_behind (P := fun p => ∀ s ∈ t.servers, s.ptr = p → s.route = some lc.conn) hb hall
    (fun x p hxp hpa ih s hs e => ?_)
  · exact hmain s hs rfl
  · have hsp : s.uplink = some p := by rw [← h.parent_eq hs, e, hxp]
    obtain ⟨u, hu, rfl⟩ := h.rooted.parent_mem (s := x) ⟨s, hs, e⟩ hxp
    have hu0 : u.ptr ≠ 0 := by
      intro e0
      rw [e0] at hpa
      exact hne (h.rooted.eq_root_of_root_behind hpa)
    rw [h.inherit s hs u hu hsp hu0]
    exact ih u hu rfl

/-- The sender of a line is in the table, and behind the link. -/
theorem fromServer_spec {lc : TreeLink} {pfx : Option Text} {s : TreeServer}
    (hs : t.fromServer lc pfx = some s) : s ∈ t.servers ∧
      ∃ a, lc.nserver = some a ∧ Behind t.parent s.ptr a := by
  rcases Option.or_eq_some_iff.mp hs with hs | ⟨-, hs⟩
  · obtain ⟨hfind, hcond⟩ := Option.filter_eq_some_iff.mp hs
    obtain ⟨sid, -, hsid⟩ := Option.bind_eq_some_iff.mp hfind
    have hmem := List.mem_of_find?_eq_some hsid
    simp only [Bool.and_eq_true] at hcond
    cases hn : lc.nserver with
    | none =>
      rw [hn] at hcond
      exact absurd hcond.2 (by simp [Tree.isBehind])
    | some a =>
      rw [hn] at hcond
      exact ⟨hmem, a, rfl, (h.isBehind_iff ⟨s, hmem, rfl⟩).mp hcond.2⟩
  · obtain ⟨hfind, -⟩ := Option.filter_eq_some_iff.mp hs
    obtain ⟨a, ha, hentry⟩ := Option.bind_eq_some_iff.mp hfind
    have hptr : s.ptr = a := by simpa using List.find?_some hentry
    exact ⟨List.mem_of_find?_eq_some hentry, a, ha, hptr ▸ Relation.ReflTransGen.refl⟩

end Wired

/-! ## 5. What the operations keep -/

/-- The table with one more entry, and other links. -/
def Tree.push (t : Tree) (s : TreeServer) (links : List TreeLink) : Tree :=
  { t with next := t.next + 1, servers := s :: t.servers, links := links }

/-- Two lists of links under which the same peers are attached. -/
structure SameAttached (links links' : List TreeLink) : Prop where
  conns : ∀ l ∈ links', ∀ l' ∈ links', l.conn = l'.conn → l = l'
  kept : ∀ l ∈ links, ∀ p, l.nserver = some p → ∃ l' ∈ links', l'.conn = l.conn ∧ l'.nserver = some p
  old : ∀ l' ∈ links', ∀ p, l'.nserver = some p → ∃ l ∈ links, l.conn = l'.conn ∧ l.nserver = some p

theorem parent_push (t : Tree) (s : TreeServer) (links : List TreeLink) (p : Nat) :
    (t.push s links).parent p = if p = s.ptr then s.uplink else t.parent p := by
  rw [Tree.parent, Tree.entry, Tree.push, List.find?_cons]
  by_cases hp : p = s.ptr
  · simp [hp]
  · have hne : (s.ptr == p) = false := by simpa using Ne.symm hp
    rw [if_neg hp, hne]
    rfl

theorem nodes_push (t : Tree) (s : TreeServer) (links : List TreeLink) :
    (t.push s links).nodes = insert s.ptr t.nodes := by
  ext p
  simp [Tree.nodes, Tree.push, eq_comm]

namespace Wired

variable {t : Tree} (h : Wired t)

include h

theorem push {s u : TreeServer} {links : List TreeLink} (hu : u ∈ t.servers)
    (hptr : s.ptr = t.next) (hup : s.uplink = some u.ptr)
    (hdirect : u.ptr = 0 → ∃ l ∈ links, s.route = some l.conn ∧ l.nserver = some s.ptr)
    (hinherit : u.ptr ≠ 0 → s.route = u.route)
    (hconns : ∀ l ∈ links, ∀ l' ∈ links, l.conn = l'.conn → l = l')
    (hkept : ∀ l ∈ t.links, ∀ p, l.nserver = some p → l ∈ links)
    (hold : ∀ l ∈ links, ∀ p, l.nserver = some p →
      l ∈ t.links ∨ p = s.ptr ∧ s.uplink = some 0 ∧ s.route = some l.conn) :
    Wired (t.push s links) := by
  have hnew : s.ptr ∉ t.nodes := by
    rintro ⟨s', hs', e⟩
    have := h.fresh s' hs'
    omega
  have hne : ∀ p ∈ t.nodes, p ≠ s.ptr := by
    rintro p hp rfl
    exact hnew hp
  have hfalls : ∀ x p, (t.push s links).parent x = some p → id p < id x := by
    intro x p hxp
    rw [parent_push] at hxp
    split at hxp
    · rename_i hx
      rw [hup] at hxp
      have := h.fresh u hu
      simp only [id_eq, ← Option.some.inj hxp]
      omega
    · exact h.rooted.falls x p hxp
  have hroot : Rooted (t.push s links).parent id (insert s.ptr t.nodes) 0 :=
    h.rooted.insert ⟨u, hu, rfl⟩ hnew (fun p hp => by rw [parent_push, if_neg (hne p hp)])
    (by rw [parent_push, if_pos rfl, hup]) hfalls
  refine ⟨?_, ?_, ?_, ?_, ?_, hconns, ?_, ?_⟩
  · rw [nodes_push]
    exact hroot
  · intro a ha b hb e
    rcases List.mem_cons.mp ha with rfl | ha' <;> rcases List.mem_cons.mp hb with rfl | hb'
    · rfl
    · exact absurd ⟨b, hb', e.symm⟩ hnew
    · exact absurd ⟨a, ha', e⟩ hnew
    · exact h.distinct a ha' b hb' e
  · intro a ha
    rcases List.mem_cons.mp ha with rfl | ha
    · rw [hptr]
      exact Nat.lt_succ_self _
    · exact Nat.lt_succ_of_lt (h.fresh a ha)
  · intro a ha h0
    rcases List.mem_cons.mp ha with rfl | ha
    · rw [hup] at h0
      exact hdirect (Option.some.inj h0)
    · obtain ⟨l, hl, hroute, hn⟩ := h.direct a ha h0
      exact ⟨l, hkept l hl _ hn, hroute, hn⟩
  · intro a ha b hb hab hb0
    rcases List.mem_cons.mp ha with rfl | ha
    · rw [hup] at hab
      rcases List.mem_cons.mp hb with rfl | hb
      · exact absurd (Option.some.inj hab) (hne u.ptr ⟨u, hu, rfl⟩)
      · have heq := h.distinct u hu b hb (Option.some.inj hab)
        rw [← heq] at hb0 ⊢
        exact hinherit hb0
    · have hpa : t.parent a.ptr = some b.ptr := (h.parent_eq ha).trans hab
      have hbn := h.rooted.parent_mem ⟨a, ha, rfl⟩ hpa
      rcases List.mem_cons.mp hb with rfl | hb
      · exact absurd hbn hnew
      · exact h.inherit a ha b hb hab hb0
  · intro l hl p hp
    rcases hold l hl p hp with hl | ⟨rfl, h0, hroute⟩
    · obtain ⟨a, ha, hap⟩ := h.attached l hl p hp
      exact ⟨a, List.mem_cons_of_mem _ ha, hap⟩
    · exact ⟨s, List.mem_cons_self .., rfl, h0, hroute⟩
  · intro v hv
    rw [nodes_push]
    exact ⟨Set.mem_insert_of_mem _ (h.users v hv).1, (h.users v hv).2⟩

/-- Links that change nothing about the peers. -/
theorem relink {links : List TreeLink} (hl : SameAttached t.links links) :
    Wired { t with links := links } := by
  refine ⟨h.rooted, h.distinct, h.fresh, ?_, h.inherit, hl.conns, ?_, h.users⟩
  · intro s hs h0
    obtain ⟨l, hmem, hroute, hn⟩ := h.direct s hs h0
    obtain ⟨l', hmem', hconn, hn'⟩ := hl.kept l hmem _ hn
    exact ⟨l', hmem', hconn ▸ hroute, hn'⟩
  · intro l hmem p hp
    obtain ⟨l', hmem', hconn, hn'⟩ := hl.old l hmem p hp
    obtain ⟨s, hs, hptr, h0, hroute⟩ := h.attached l' hmem' p hn'
    exact ⟨s, hs, hptr, h0, hconn ▸ hroute⟩

theorem repeople {users : List TreeUser}
    (hu : ∀ u ∈ users, u.nserver ∈ t.nodes ∧ (u.remote = false → u.nserver = 0)) :
    Wired { t with users := users } :=
  ⟨h.rooted, h.distinct, h.fresh, h.direct, h.inherit, h.conns, h.attached, hu⟩

theorem close (conn : Nat) : Wired (t.closeLink conn) := by
  refine h.relink ⟨?_, ?_, ?_⟩
  · intro l hl l' hl' e
    obtain ⟨a, ha, rfl⟩ := List.mem_map.mp hl
    obtain ⟨b, hb, rfl⟩ := List.mem_map.mp hl'
    have hab : a.conn = b.conn := by
      split at e <;> split at e <;> exact e
    rw [h.conns a ha b hb hab]
  · intro l hl p hp
    refine ⟨_, List.mem_map_of_mem hl, ?_, ?_⟩
    · split <;> rfl
    · split <;> exact hp
  · intro l hl p hp
    obtain ⟨a, ha, rfl⟩ := List.mem_map.mp hl
    refine ⟨a, ha, ?_, ?_⟩
    · split <;> rfl
    · split at hp <;> exact hp

theorem openNew {conn : Nat} (peerName : Text) (hnew : t.link conn = none) :
    Wired (t.openLink conn peerName) := by
  have hconn : ∀ l ∈ t.links, l.conn ≠ conn := by
    intro l hl e
    have hnone := List.find?_eq_none.mp hnew l hl
    simp [e] at hnone
  refine h.relink ⟨?_, ?_, ?_⟩
  · intro l hl l' hl' e
    rcases List.mem_cons.mp hl with rfl | hl <;> rcases List.mem_cons.mp hl' with rfl | hl'
    · rfl
    · exact absurd e.symm (hconn l' hl')
    · exact absurd e (hconn l hl)
    · exact h.conns l hl l' hl' e
  · exact fun l hl p hp => ⟨l, List.mem_cons_of_mem _ hl, rfl, hp⟩
  · intro l hl p hp
    rcases List.mem_cons.mp hl with rfl | hl
    · exact absurd hp (by simp)
    · exact ⟨l, hl, rfl, hp⟩

/-- A subtree goes, and with it its users; no link that stays has its peer in it. -/
theorem prune {root : Nat} {links : List TreeLink} (hroot : root ≠ 0) (hin : root ∈ t.nodes)
    (hsub : ∀ l ∈ links, l ∈ t.links ∧ l.nserver ≠ some root)
    (hkept : ∀ l ∈ t.links, l.nserver ≠ some root → l.nserver.isSome → l ∈ links) :
    Wired (removeServerTree { t with links := links } root) := by
  have hmem : ∀ s, s ∈ (removeServerTree { t with links := links } root).servers ↔
      s ∈ t.servers ∧ ¬ Behind t.parent s.ptr root := by
    intro s
    have hiff : s ∈ t.servers → (t.isBehind s.ptr (some root) = true ↔ Behind t.parent s.ptr root) :=
      fun hs => h.isBehind_iff ⟨s, hs, rfl⟩
    have h0 : s.ptr = 0 → ¬ Behind t.parent s.ptr root := by
      intro e hb
      rw [e] at hb
      exact hroot (h.rooted.eq_root_of_root_behind hb)
    change s ∈ t.servers.filter (fun s => s.ptr == 0 || !t.isBehind s.ptr (some root)) ↔ _
    rw [List.mem_filter, Bool.or_eq_true, beq_iff_eq, Bool.not_eq_true', ← Bool.not_eq_true]
    constructor
    · rintro ⟨hs, h1 | h1⟩
      · exact ⟨hs, h0 h1⟩
      · exact ⟨hs, fun hb => h1 ((hiff hs).mpr hb)⟩
    · rintro ⟨hs, hb⟩
      exact ⟨hs, Or.inr fun h1 => hb ((hiff hs).mp h1)⟩
  have hnodes : (removeServerTree { t with links := links } root).nodes =
      {p ∈ t.nodes | ¬ Behind t.parent p root} := by
    ext p
    constructor
    · rintro ⟨s, hs, rfl⟩
      exact ⟨⟨s, ((hmem s).mp hs).1, rfl⟩, ((hmem s).mp hs).2⟩
    · rintro ⟨⟨s, hs, rfl⟩, hb⟩
      exact ⟨s, (hmem s).mpr ⟨hs, hb⟩, rfl⟩
  have hdistinct : ∀ s ∈ (removeServerTree { t with links := links } root).servers,
      ∀ s' ∈ (removeServerTree { t with links := links } root).servers, s.ptr = s'.ptr → s = s' :=
    fun s hs s' hs' => h.distinct s ((hmem s).mp hs).1 s' ((hmem s').mp hs').1
  have hold : ∀ p ∈ t.nodes, ¬ Behind t.parent p root →
      (removeServerTree { t with links := links } root).parent p = t.parent p := by
    rintro p ⟨s, hs, rfl⟩ hb
    rw [Tree.parent, entry_of_mem hdistinct ((hmem s).mpr ⟨hs, hb⟩), h.parent_eq hs]
    rfl
  have hfalls : ∀ x p, (removeServerTree { t with links := links } root).parent x = some p →
      id p < id x := by
    intro x p hxp
    obtain ⟨s, hs, rfl, hup⟩ := parent_some hxp
    have hs' := ((hmem s).mp hs).1
    exact h.rooted.falls s.ptr p ((h.parent_eq hs').trans hup)
  -- a link that stays has its peer in what stays
  have hpeer : ∀ l ∈ t.links, ∀ p, l.nserver = some p → p ≠ root → ¬ Behind t.parent p root := by
    intro l hl p hp hne hb
    obtain ⟨s, hs, hptr, h0, -⟩ := h.attached l hl p hp
    rcases Relation.ReflTransGen.cases_head hb with e | ⟨q, hpq, hq⟩
    · exact hne e
    · rw [← hptr, h.parent_eq hs, h0] at hpq
      rw [← Option.some.inj hpq] at hq
      exact hroot (h.rooted.eq_root_of_root_behind hq)
  refine ⟨?_, hdistinct, ?_, ?_, ?_, ?_, ?_, ?_⟩
  · rw [hnodes]
    exact h.rooted.prune hroot hold hfalls
  · exact fun s hs => h.fresh s ((hmem s).mp hs).1
  · intro s hs h0
    obtain ⟨hs', hb⟩ := (hmem s).mp hs
    obtain ⟨l, hl, hroute, hn⟩ := h.direct s hs' h0
    have hne : l.nserver ≠ some root := by
      intro e
      rw [hn] at e
      rw [Option.some.inj e] at hb
      exact hb Relation.ReflTransGen.refl
    exact ⟨l, hkept l hl hne (by simp [hn]), hroute, hn⟩
  · exact fun s hs u hu => h.inherit s ((hmem s).mp hs).1 u ((hmem u).mp hu).1
  · exact fun l hl l' hl' => h.conns l (hsub l hl).1 l' (hsub l' hl').1
  · intro l hl p hp
    obtain ⟨s, hs, hptr, h0, hroute⟩ := h.attached l (hsub l hl).1 p hp
    have hne : p ≠ root := by
      rintro rfl
      exact (hsub l hl).2 hp
    exact ⟨s, (hmem s).mpr ⟨hs, hptr ▸ hpeer l (hsub l hl).1 p hp hne⟩, hptr, h0, hroute⟩
  · intro u hu
    obtain ⟨hu', hstays⟩ := List.mem_filter.mp hu
    obtain ⟨hnode, hlocal⟩ := h.users u hu'
    refine ⟨?_, hlocal⟩
    rw [hnodes]
    refine ⟨hnode, fun hb => ?_⟩
    have hbehind : t.isBehind u.nserver (some root) = true := (h.isBehind_iff hnode).mpr hb
    cases hr : u.remote with
    | false =>
      rw [hlocal hr] at hb
      exact hroot (h.rooted.eq_root_of_root_behind hb)
    | true =>
      change (!(u.remote && t.isBehind u.nserver (some root))) = true at hstays
      rw [hr, hbehind] at hstays
      exact absurd hstays (by decide)

theorem linkUp {conn : Nat} {name sid desc : Text} {t' : Tree} (hl : ∃ l ∈ t.links, l.conn = conn)
    (hfree : ∀ l ∈ t.links, l.conn = conn → l.nserver = none)
    (hup : netsyncLinkUp t conn name sid desc = some t') : Wired t' := by
  rw [netsyncLinkUp] at hup
  split at hup
  · exact absurd hup (by simp)
  obtain ⟨self, hself, hself0⟩ := h.rooted.root_mem
  rw [← Option.some.inj hup]
  refine h.push (s := ⟨t.next, clip 128 name, clip (sidLen + 1) sid, clip 128 desc, 1, some 0,
    some conn⟩) hself rfl (by rw [hself0]) (fun _ => ?_) (fun hne => absurd hself0 hne) ?_ ?_ ?_
  · obtain ⟨l, hmem, hconn⟩ := hl
    exact ⟨_, List.mem_map_of_mem hmem, by simp [hconn], by simp [hconn]⟩
  · intro l hl l' hl' e
    obtain ⟨a, ha, rfl⟩ := List.mem_map.mp hl
    obtain ⟨b, hb, rfl⟩ := List.mem_map.mp hl'
    have hab : a.conn = b.conn := by
      split at e <;> split at e <;> exact e
    rw [h.conns a ha b hb hab]
  · intro l hmem p hp
    have hne : l.conn ≠ conn := by
      intro e
      rw [hfree l hmem e] at hp
      exact absurd hp (by simp)
    exact List.mem_map.mpr ⟨l, hmem, if_neg hne⟩
  · intro l hl p hp
    obtain ⟨a, ha, rfl⟩ := List.mem_map.mp hl
    by_cases hc : a.conn = conn
    · rw [if_pos hc] at hp ⊢
      exact Or.inr ⟨(Option.some.inj hp).symm, rfl, by rw [← hc]⟩
    · rw [if_neg hc]
      exact Or.inl ha

theorem linkUpOrClose {conn : Nat} {name sid desc : Text} (hl : ∃ l ∈ t.links, l.conn = conn)
    (hfree : ∀ l ∈ t.links, l.conn = conn → l.nserver = none) :
    Wired (linkUpOrClose t conn name sid desc) := by
  rw [SekurIRCd.linkUpOrClose]
  cases hup : netsyncLinkUp t conn name sid desc with
  | none => exact h.close conn
  | some t' => exact h.linkUp hl hfree hup

theorem handshake {conn : Nat} {peer : Text} (hnew : t.link conn = none) (name sid desc : Text) :
    Wired (SekurIRCd.linkUpOrClose (t.openLink conn peer) conn name sid desc) := by
  refine (h.openNew peer hnew).linkUpOrClose ⟨_, List.mem_cons_self .., rfl⟩ ?_
  intro l hl e
  rcases List.mem_cons.mp hl with rfl | hl
  · rfl
  · have hnone := List.find?_eq_none.mp hnew l hl
    simp [e] at hnone

theorem dial (conn : Nat) (peer : Text) (capab compatible : Bool) (reply : IrcMessage) :
    Wired (dialPeer t conn peer capab compatible reply) := by
  rw [dialPeer.eq_def]
  split
  · exact h
  rename_i hconn
  have hnew : t.link conn = none := by simpa using hconn
  split
  · exact h
  split
  · split
    · exact h
    · exact h.handshake hnew _ _ _
  · exact h.openNew peer hnew

theorem accept (conn : Nat) (ok capab compatible : Bool) (msg : IrcMessage) :
    Wired (acceptPeer t conn ok capab compatible msg) := by
  rw [acceptPeer.eq_def]
  split
  · exact h
  rename_i hconn
  have hnew : t.link conn = none := by simpa using hconn
  split
  · exact h
  split
  · exact h
  split
  · split
    · exact (h.openNew _ hnew).close conn
    · exact h.handshake hnew _ _ _
  · exact h.openNew _ hnew

theorem server {lc : TreeLink} (hlc : lc ∈ t.links) (msg : IrcMessage) :
    Wired (handleServer t lc msg) := by
  rw [handleServer]
  split
  · rename_i sender name hopText sid desc rest hfrom hparams
    obtain ⟨hmem, a, ha, hb⟩ := h.fromServer_spec hfrom
    split
    · exact h.close lc.conn
    · refine h.push hmem rfl rfl (fun h0 => ?_) (fun _ => ?_) h.conns (fun l hl _ _ => hl)
        (fun l hl _ _ => Or.inl hl)
      · rw [h0] at hb
        have ha0 : a = 0 := h.rooted.eq_root_of_root_behind hb
        obtain ⟨peer, hpeer, hptr, hup, -⟩ := h.attached lc hlc a ha
        have htop := h.rooted.root_top
        rw [← ha0, ← hptr, h.parent_eq hpeer, hup] at htop
        exact absurd htop (by simp)
      · exact (h.route_of_behind hlc ha hmem hb).symm
  · exact h

theorem squit {lc : TreeLink} (hlc : lc ∈ t.links) (msg : IrcMessage) :
    Wired (handleSquit t lc msg) := by
  rw [handleSquit]
  split
  · rename_i s hs
    split
    · exact h
    rename_i hcond
    rw [not_or] at hcond
    split
    · exact h.close lc.conn
    · rename_i hpeer
      obtain ⟨sid, -, hfind⟩ := Option.bind_eq_some_iff.mp hs
      have hmem := List.mem_of_find?_eq_some hfind
      refine h.prune hcond.1 ⟨s, hmem, rfl⟩ (fun l hl => ⟨hl, fun e => ?_⟩) fun l hl _ _ => hl
      -- a peer hangs off this server itself, so it is behind no other peer
      obtain ⟨s', hs', hptr, h0, -⟩ := h.attached l hl s.ptr e
      have hbehind : t.isBehind s.ptr lc.nserver = true := by simpa using hcond.2
      cases hn : lc.nserver with
      | none =>
        rw [hn] at hbehind
        exact absurd hbehind (by simp [Tree.isBehind])
      | some a =>
        rw [hn] at hbehind hpeer
        have hb := (h.isBehind_iff ⟨s, hmem, rfl⟩).mp hbehind
        obtain ⟨peer, hpm, hpptr, hpup, -⟩ := h.attached lc hlc a hn
        rcases Relation.ReflTransGen.cases_head hb with e' | ⟨q, hq, hqa⟩
        · exact hpeer (by rw [e'])
        · rw [← hptr, h.parent_eq hs', h0] at hq
          rw [← Option.some.inj hq] at hqa
          have ha0 : a = 0 := h.rooted.eq_root_of_root_behind hqa
          have htop := h.rooted.root_top
          rw [← ha0, ← hpptr, h.parent_eq hpm, hpup] at htop
          exact absurd htop (by simp)
  · exact h

theorem reap {lc : TreeLink} (hlc : lc ∈ t.links) : Wired (linkReap t lc) := by
  have hother : ∀ l ∈ t.links.filter fun l => l.conn != lc.conn, l ∈ t.links ∧ l.conn ≠ lc.conn := by
    intro l hl
    obtain ⟨hmem, hc⟩ := List.mem_filter.mp hl
    exact ⟨hmem, by simpa using hc⟩
  rw [linkReap, netsyncLinkDown]
  cases hn : lc.nserver with
  | none =>
    refine h.relink ⟨fun l hl l' hl' => h.conns l (hother l hl).1 l' (hother l' hl').1, ?_, ?_⟩
    · intro l hl p hp
      have hne : l.conn ≠ lc.conn := by
        intro e
        rw [h.conns l hl lc hlc e, hn] at hp
        exact absurd hp (by simp)
      exact ⟨l, List.mem_filter.mpr ⟨hl, by simpa using hne⟩, rfl, hp⟩
    · exact fun l hl p hp => ⟨l, (hother l hl).1, rfl, hp⟩
  | some root =>
    obtain ⟨s, hs, hptr, hup, hroute⟩ := h.attached lc hlc root hn
    have hroot : root ≠ 0 := by
      rintro rfl
      have htop := h.rooted.root_top
      rw [← hptr, h.parent_eq hs, hup] at htop
      exact absurd htop (by simp)
    refine h.prune hroot ⟨s, hs, hptr⟩ (fun l hl => ⟨(hother l hl).1, fun e => ?_⟩) ?_
    · obtain ⟨s', hs', hptr', -, hroute'⟩ := h.attached l (hother l hl).1 root e
      rw [h.distinct s' hs' s hs (hptr'.trans hptr.symm), hroute] at hroute'
      exact (hother l hl).2 (Option.some.inj hroute').symm
    · intro l hl hne hsome
      refine List.mem_filter.mpr ⟨hl, ?_⟩
      have hconn : l.conn ≠ lc.conn := by
        intro e
        rw [h.conns l hl lc hlc e] at hne
        exact hne hn
      simpa using hconn

theorem uid (lc : TreeLink) (admitted : Bool) (msg : IrcMessage) :
    Wired (handleUid t lc admitted msg) := by
  rw [handleUid]
  split
  · rename_i sender uid hfrom huid
    split
    · exact h
    · refine h.repeople fun u hu => ?_
      rcases List.mem_cons.mp hu with rfl | hu
      · exact ⟨⟨sender, (h.fromServer_spec hfrom).1, rfl⟩, fun e => absurd e (by simp)⟩
      · exact h.users u hu
  · exact h

/-- **Every step keeps the pointers.** -/
theorem step (e : TreeEvent) : Wired (treeStep t e) := by
  have hline : ∀ (conn : Nat) (f : TreeLink → Tree), (∀ lc ∈ t.links, Wired (f lc)) →
      Wired (t.onLink conn f) := by
    intro conn f hf
    rw [Tree.onLink]
    split
    · rename_i lc hlc
      split
      · exact hf lc (List.mem_of_find?_eq_some hlc)
      · exact h
    · exact h
  cases e with
  | dial conn peer capab compatible reply => exact h.dial conn peer capab compatible reply
  | accept conn ok capab compatible msg => exact h.accept conn ok capab compatible msg
  | server conn msg => exact hline conn _ fun lc hlc => h.server hlc msg
  | squit conn msg => exact hline conn _ fun lc hlc => h.squit hlc msg
  | close conn => exact h.close conn
  | reap conn =>
    rw [treeStep]
    split
    · rename_i lc hlc
      split
      · exact h.reap (List.mem_of_find?_eq_some hlc)
      · exact h
    · exact h
  | uid conn admitted msg => exact hline conn _ fun lc _ => h.uid lc admitted msg
  | register uid =>
    refine h.repeople fun u hu => ?_
    rcases List.mem_cons.mp hu with rfl | hu
    · exact ⟨h.rooted.root_mem, fun _ => rfl⟩
    · exact h.users u hu
  | gone uid => exact h.repeople fun u hu => h.users u (List.mem_of_mem_filter hu)

end Wired

theorem wired_init (name sid network : Text) : Wired (netsyncInit name sid network) := by
  have hself : ∀ s ∈ (netsyncInit name sid network).servers,
      s = ⟨0, clip 128 name, clip (sidLen + 1) sid, clip 128 network, 0, none, none⟩ :=
    fun s hs => List.mem_singleton.mp hs
  have hparent : ∀ p, (netsyncInit name sid network).parent p = none := by
    intro p
    cases hp : (netsyncInit name sid network).parent p with
    | none => rfl
    | some q =>
      obtain ⟨s, hs, -, hup⟩ := parent_some hp
      rw [hself s hs] at hup
      exact absurd hup (by simp)
  refine ⟨⟨⟨_, List.mem_singleton_self _, rfl⟩, hparent 0, ?_, ?_⟩, ?_, ?_, ?_, ?_, ?_, ?_, ?_⟩
  · rintro p ⟨s, hs, rfl⟩ hne
    rw [hself s hs] at hne
    exact absurd rfl hne
  · intro s p hp
    rw [hparent] at hp
    exact absurd hp (by simp)
  · intro s hs s' hs' _
    rw [hself s hs, hself s' hs']
  · intro s hs
    rw [hself s hs]
    exact Nat.one_pos
  · intro s hs h0
    rw [hself s hs] at h0
    exact absurd h0 (by simp)
  · intro s hs u _ hup
    rw [hself s hs] at hup
    exact absurd hup (by simp)
  · intro l hl
    exact absurd hl List.not_mem_nil
  · intro l hl
    exact absurd hl List.not_mem_nil
  · intro u hu
    exact absurd hu List.not_mem_nil

/-! ## 6. A tree of distinct servers

What is let in is written down as it was sent, and compared with the table as it is stored. -/

/-- What a step lets in: the name and the SID as they were sent, where all checks pass but the
search for the two in the table. -/
def introduces (t : Tree) : TreeEvent → Option (Text × Text)
  | .dial conn peer capab compatible reply =>
    match reply.params with
    | _ :: _ :: sid :: _ :: _ =>
      if (t.link conn).isSome = false ∧ caseEq reply.command "SERVER".toList = true ∧
          reply.params.head? = some peer ∧ capab = true ∧ compatible = true then
        some (peer, clip 8 sid)
      else none
    | _ => none
  | .accept conn ok capab compatible msg =>
    match msg.params with
    | name :: _ :: sid :: _ :: _ =>
      if (t.link conn).isSome = false ∧ ok = true ∧
          t.links.any (fun l => !l.closing && caseEq l.peerName name) = false ∧ capab = true ∧
          sidOk sid = true ∧ compatible = true then
        some (name, sid)
      else none
    | _ => none
  | .server conn msg =>
    match t.link conn, msg.params with
    | some lc, name :: _ :: sid :: _ :: _ =>
      if lc.nserver.isSome = true ∧ (t.fromServer lc msg.pfx).isSome = true then some (name, sid)
      else none
    | _, _ => none
  | _ => none

/-- Whatever is let in is new to the table as it will be stored, too. The code compares what was
sent, and cuts it when it stores it. -/
def Fresh (t : Tree) (e : TreeEvent) : Prop :=
  ∀ name sid, introduces t e = some (name, sid) → t.findSid sid = none → t.findName name = none →
    t.findSid (clip (sidLen + 1) sid) = none ∧ t.findName (clip 128 name) = none

/-- The new entry of a step, or none. -/
inductive Adds (t : Tree) (e : TreeEvent) : Prop
  | one (name sid : Text) (s : TreeServer) (hin : introduces t e = some (name, sid))
      (hsid : t.findSid sid = none) (hname : t.findName name = none)
      (hservers : (treeStep t e).servers = s :: t.servers) (hptr : s.ptr = t.next)
      (hsname : s.name = clip 128 name) (hssid : s.sid = clip (sidLen + 1) sid)
  | none (hin : ∀ name sid, introduces t e = some (name, sid) →
        (t.findSid sid).isSome ∨ (t.findName name).isSome)
      (hservers : ∀ s ∈ (treeStep t e).servers, s ∈ t.servers)

/-- A handshake adds the peer, if the two are not found. -/
theorem adds_of_linkUp {t t1 : Tree} {e : TreeEvent} {conn : Nat} {name sid desc : Text}
    (hin : introduces t e = some (name, sid)) (hservers : t1.servers = t.servers)
    (hnext : t1.next = t.next) (hstep : treeStep t e = linkUpOrClose t1 conn name sid desc) :
    Adds t e := by
  have hfs : t1.findSid sid = t.findSid sid := by rw [Tree.findSid, hservers, Tree.findSid]
  have hfn : t1.findName name = t.findName name := by rw [Tree.findName, hservers, Tree.findName]
  rw [linkUpOrClose, netsyncLinkUp, hfs, hfn] at hstep
  by_cases hfound : (t.findSid sid).isSome ∨ (t.findName name).isSome
  · rw [if_pos hfound] at hstep
    refine Adds.none (fun name' sid' hin' => ?_) fun s hs => ?_
    · rw [hin] at hin'
      cases hin'
      exact hfound
    · rw [hstep] at hs
      rw [← hservers]
      exact hs
  · rw [if_neg hfound] at hstep
    rw [not_or] at hfound
    exact Adds.one name sid ⟨t1.next, clip 128 name, clip (sidLen + 1) sid, clip 128 desc, 1,
      some 0, some conn⟩ hin (by simpa using hfound.1) (by simpa using hfound.2)
      (by rw [hstep, ← hservers]; rfl) hnext rfl rfl

theorem adds_none {t : Tree} {e : TreeEvent} (hin : introduces t e = Option.none)
    (hservers : ∀ s ∈ (treeStep t e).servers, s ∈ t.servers) : Adds t e := by
  refine Adds.none (fun name sid h => ?_) hservers
  rw [hin] at h
  exact absurd h (by simp)

theorem adds_dial (t : Tree) (conn : Nat) (peer : Text) (capab compatible : Bool)
    (reply : IrcMessage) : Adds t (.dial conn peer capab compatible reply) := by
  have hstep : treeStep t (.dial conn peer capab compatible reply) =
    dialPeer t conn peer capab compatible reply := rfl
  rw [dialPeer.eq_def] at hstep
  split at hstep
  · rename_i hconn
    refine adds_none ?_ fun s hs => by rwa [hstep] at hs
    rw [introduces.eq_def]
    dsimp only
    split
    · exact if_neg fun h => absurd (hconn.symm.trans h.1) (by simp)
    · rfl
  split at hstep
  · rename_i hconn hbad
    refine adds_none ?_ fun s hs => by rwa [hstep] at hs
    rw [introduces.eq_def]
    dsimp only
    split
    · refine if_neg ?_
      rintro ⟨-, hc, hp, -⟩
      exact hbad.elim (fun hb => absurd (hc.symm.trans hb) (by simp)) fun hb => hb hp
    · rfl
  split at hstep
  · rename_i hconn hgood sid desc rest hpar
    split at hstep
    · rename_i hcomp
      refine adds_none ?_ fun s hs => by rwa [hstep] at hs
      rw [introduces.eq_def]
      simp [hcomp, hpar]
    · rename_i hcomp
      refine adds_of_linkUp ?_ ?_ ?_ hstep
      · rw [introduces.eq_def]
        simp_all
      · rfl
      · rfl
  · rename_i hconn hgood hnot
    refine adds_none ?_ fun s hs => by rwa [hstep] at hs
    rw [introduces.eq_def]
    dsimp only
    split
    · rename_i hpar
      refine if_neg ?_
      rintro ⟨-, -, -, hcap, -⟩
      exact hnot _ _ _ _ _ hcap hpar
    · rfl

theorem adds_accept (t : Tree) (conn : Nat) (ok capab compatible : Bool) (msg : IrcMessage) :
    Adds t (.accept conn ok capab compatible msg) := by
  have hstep : treeStep t (.accept conn ok capab compatible msg) =
    acceptPeer t conn ok capab compatible msg := rfl
  rw [acceptPeer.eq_def] at hstep
  split at hstep
  · rename_i hconn
    refine adds_none ?_ fun s hs => by rwa [hstep] at hs
    rw [introduces.eq_def]
    dsimp only
    split
    · exact if_neg fun h => absurd (hconn.symm.trans h.1) (by simp)
    · rfl
  rename_i hconn
  split at hstep
  · rename_i hpar
    refine adds_none ?_ fun s hs => by rwa [hstep] at hs
    rw [introduces.eq_def]
    simp [hpar]
  rename_i name rest hpar
  split at hstep
  · rename_i hbad
    refine adds_none ?_ fun s hs => by rwa [hstep] at hs
    rw [introduces.eq_def]
    dsimp only
    split
    · rename_i hpar'
      refine if_neg ?_
      rintro ⟨-, hok, hlinked, -⟩
      rw [hpar] at hpar'
      cases hpar'
      exact hbad.elim (fun hb => absurd (hok.symm.trans hb) (by simp))
        fun hb => absurd (hlinked.symm.trans hb) (by simp)
    · rfl
  rename_i hgood
  have hgood' : ok = true ∧ t.links.any (fun l => !l.closing && caseEq l.peerName name) = false :=
    ⟨by simpa using fun h => hgood (Or.inl h), by simpa using fun h => hgood (Or.inr h)⟩
  split at hstep
  · rename_i hopText sid desc rest
    split at hstep
    · rename_i hbad
      refine Adds.none (fun name' sid' hin => ?_) fun s hs => by rwa [hstep] at hs
      rw [introduces.eq_def] at hin
      simp only [hpar] at hin
      split at hin
      · rename_i hc
        cases hin
        rcases hbad with hbad | hbad | hbad | hbad
        · exact absurd (hc.2.2.2.2.1.symm.trans hbad) (by simp)
        · exact Or.inl hbad
        · exact Or.inr hbad
        · exact absurd (hc.2.2.2.2.2.symm.trans hbad) (by simp)
      · exact absurd hin (by simp)
    · refine adds_of_linkUp ?_ ?_ ?_ hstep
      · rw [introduces.eq_def]
        simp_all
      · rfl
      · rfl
  · rename_i hnot
    refine adds_none ?_ fun s hs => by rwa [hstep] at hs
    rw [introduces.eq_def]
    dsimp only
    split
    · rename_i hpar'
      refine if_neg ?_
      rintro ⟨-, -, -, hcap, -⟩
      rw [hpar] at hpar'
      cases hpar'
      exact hnot _ _ _ _ hcap rfl
    · rfl

theorem adds_server (t : Tree) (conn : Nat) (msg : IrcMessage) : Adds t (.server conn msg) := by
  have hstep : treeStep t (.server conn msg) = t.onLink conn fun lc => handleServer t lc msg := rfl
  rw [Tree.onLink] at hstep
  split at hstep
  · rename_i lc hlc
    split at hstep
    · rename_i hserver
      rw [handleServer.eq_def] at hstep
      split at hstep
      · rename_i sender name hopText sid desc rest hfrom hpar
        have hin : introduces t (.server conn msg) = some (name, sid) := by
          rw [introduces.eq_def]
          simp [hlc, hpar, hserver, hfrom]
        split at hstep
        · rename_i hfound
          refine Adds.none (fun name' sid' hin' => ?_) fun s hs => by rwa [hstep] at hs
          rw [hin] at hin'
          cases hin'
          exact hfound
        · rename_i hfound
          rw [not_or] at hfound
          exact Adds.one name sid _ hin (by simpa using hfound.1) (by simpa using hfound.2)
            (congrArg Tree.servers hstep) rfl rfl rfl
      · rename_i hnot
        refine adds_none ?_ fun s hs => by rwa [hstep] at hs
        rw [introduces.eq_def]
        dsimp only
        split
        · rename_i hlc' hpar
          cases hlc.symm.trans hlc'
          refine if_neg ?_
          rintro ⟨-, hfrom⟩
          obtain ⟨sender, hsender⟩ := Option.isSome_iff_exists.mp hfrom
          exact hnot _ _ _ _ _ _ hsender hpar
        · rfl
    · rename_i hserver
      refine adds_none ?_ fun s hs => by rwa [hstep] at hs
      rw [introduces.eq_def]
      dsimp only
      split
      · rename_i hlc' hpar
        cases hlc.symm.trans hlc'
        exact if_neg fun h => hserver h.1
      · rfl
  · rename_i hnone
    refine adds_none ?_ fun s hs => by rwa [hstep] at hs
    rw [introduces.eq_def]
    simp [hnone]

theorem servers_prune {t : Tree} {root : Nat} {s : TreeServer}
    (hs : s ∈ (removeServerTree t root).servers) : s ∈ t.servers := List.mem_of_mem_filter hs

/-- **What a step does to the table.** -/
theorem adds_step (t : Tree) (e : TreeEvent) : Adds t e := by
  cases e with
  | dial conn peer capab compatible reply => exact adds_dial t conn peer capab compatible reply
  | accept conn ok capab compatible msg => exact adds_accept t conn ok capab compatible msg
  | server conn msg => exact adds_server t conn msg
  | squit conn msg =>
    refine adds_none rfl fun s hs => ?_
    rw [treeStep, Tree.onLink] at hs
    split at hs
    · split at hs
      · rw [handleSquit] at hs
        split at hs
        · split at hs
          · exact hs
          split at hs
          · exact hs
          · exact servers_prune hs
        · exact hs
      · exact hs
    · exact hs
  | close conn => exact adds_none rfl fun s hs => hs
  | reap conn =>
    refine adds_none rfl fun s hs => ?_
    rw [treeStep] at hs
    split at hs
    · split at hs
      · rw [linkReap, netsyncLinkDown] at hs
        split at hs
        · exact servers_prune hs
        · exact hs
      · exact hs
    · exact hs
  | uid conn admitted msg =>
    refine adds_none rfl fun s hs => ?_
    rw [treeStep, Tree.onLink] at hs
    split at hs
    · split at hs
      · rw [handleUid] at hs
        split at hs
        · split at hs <;> exact hs
        · exact hs
      · exact hs
    · exact hs
  | register uid => exact adds_none rfl fun s hs => hs
  | gone uid => exact adds_none rfl fun s hs => hs

/-- No two entries have the same SID, or the same name up to case. -/
structure Unlike (servers : List TreeServer) : Prop where
  sids : ∀ s ∈ servers, ∀ s' ∈ servers, s.sid = s'.sid → s = s'
  names : ∀ s ∈ servers, ∀ s' ∈ servers, caseEq s.name s'.name = true → s = s'

/-- **What is claimed of the table**: distinct servers, a tree under this server, each reached
through the link of its first hop; and what stays refers to what stays. -/
structure TreeSound (t : Tree) : Prop where
  unlike : Unlike t.servers
  self : ∃ s ∈ t.servers, s.ptr = 0 ∧ s.uplink = none
  uplinks : ∀ s ∈ t.servers, s.ptr ≠ 0 → ∃ u ∈ t.servers, s.uplink = some u.ptr
  reaches : ∀ s ∈ t.servers, 0 ∈ walk t.parent t.next s.ptr
  ends : ∀ s ∈ t.servers, walk t.parent (t.next + 1) s.ptr = walk t.parent t.next s.ptr
  routes : ∀ s ∈ t.servers, s.ptr ≠ 0 → ∃ a ∈ t.servers, a.uplink = some 0 ∧
    t.isBehind s.ptr (some a.ptr) = true ∧
      ∃ l ∈ t.links, s.route = some l.conn ∧ l.nserver = some a.ptr
  users : ∀ u ∈ t.users, ∃ s ∈ t.servers, s.ptr = u.nserver

theorem Wired.sound_iff {t : Tree} (h : Wired t) : TreeSound t ↔ Unlike t.servers := by
  refine ⟨TreeSound.unlike, fun hu => ⟨hu, ?_, ?_, ?_, ?_, ?_, fun u hu => (h.users u hu).1⟩⟩
  · obtain ⟨s, hs, hptr⟩ := h.rooted.root_mem
    refine ⟨s, hs, hptr, ?_⟩
    rw [← h.parent_eq hs, hptr, h.rooted.root_top]
  · intro s hs hne
    obtain ⟨p, ⟨u, hu, rfl⟩, hp⟩ := h.rooted.up s.ptr ⟨s, hs, rfl⟩ hne
    exact ⟨u, hu, (h.parent_eq hs).symm.trans hp⟩
  · intro s hs
    exact mem_walk_of_behind h.rooted.falls (Nat.le_of_lt (h.fresh s hs))
      (h.rooted.behind_root ⟨s, hs, rfl⟩)
  · intro s hs
    exact walk_ends h.rooted.falls (Nat.le_of_lt (h.fresh s hs))
  · intro s hs hne
    obtain ⟨p, ⟨a, ha, rfl⟩, hane, hb, hup⟩ := h.rooted.first_hop ⟨s, hs, rfl⟩ hne
    have ha0 : a.uplink = some 0 := (h.parent_eq ha).symm.trans hup
    obtain ⟨l, hl, -, hn⟩ := h.direct a ha ha0
    exact ⟨a, ha, ha0, (h.isBehind_iff ⟨s, hs, rfl⟩).mpr hb, l, hl, h.route_of_behind hl hn hs hb, hn⟩

/-- One more entry is unlike the others when neither of its names is found. -/
theorem Wired.unlike_cons {t : Tree} (h : Wired t) (hu : Unlike t.servers) {s : TreeServer}
    (hptr : s.ptr = t.next) :
    Unlike (s :: t.servers) ↔ t.findSid s.sid = none ∧ t.findName s.name = none := by
  have hne : ∀ s' ∈ t.servers, s' ≠ s := by
    rintro s' hs' rfl
    have := h.fresh s' hs'
    omega
  have hsid : t.findSid s.sid = none ↔ ∀ s' ∈ t.servers, s'.sid ≠ s.sid := by
    simp [Tree.findSid]
  have hname : t.findName s.name = none ↔ ∀ s' ∈ t.servers, caseEq s'.name s.name = false := by
    simp [Tree.findName]
  rw [hsid, hname]
  constructor
  · intro hall
    refine ⟨fun s' hs' e => hne s' hs' ?_, fun s' hs' => ?_⟩
    · exact hall.sids s' (List.mem_cons_of_mem _ hs') s (List.mem_cons_self ..) e
    · by_contra e
      rw [Bool.not_eq_false] at e
      exact hne s' hs' (hall.names s' (List.mem_cons_of_mem _ hs') s (List.mem_cons_self ..) e)
  · rintro ⟨hs1, hs2⟩
    refine ⟨fun a ha b hb e => ?_, fun a ha b hb e => ?_⟩
    · rcases List.mem_cons.mp ha with rfl | ha' <;> rcases List.mem_cons.mp hb with rfl | hb'
      · rfl
      · exact absurd e.symm (hs1 b hb')
      · exact absurd e (hs1 a ha')
      · exact hu.sids a ha' b hb' e
    · rcases List.mem_cons.mp ha with rfl | ha' <;> rcases List.mem_cons.mp hb with rfl | hb'
      · rfl
      · rw [caseEq_comm, hs2 b hb'] at e
        exact absurd e (by simp)
      · rw [hs2 a ha'] at e
        exact absurd e (by simp)
      · exact hu.names a ha' b hb' e

/-- **A step keeps the table sound exactly when what it lets in is new as it is stored.** -/
theorem Wired.sound_step {t : Tree} (h : Wired t) (e : TreeEvent) (hs : TreeSound t) :
    TreeSound (treeStep t e) ↔ Fresh t e := by
  rw [(h.step e).sound_iff]
  cases adds_step t e with
  | one name sid s hin hsid hname hservers hptr hsname hssid =>
    rw [hservers, h.unlike_cons hs.unlike hptr, hsname, hssid]
    constructor
    · intro hnew name' sid' hin' _ _
      rw [hin] at hin'
      cases hin'
      exact hnew
    · exact fun hfresh => hfresh name sid hin hsid hname
  | none hin hservers =>
    refine iff_of_true ⟨fun a ha b hb => hs.unlike.sids a (hservers a ha) b (hservers b hb),
      fun a ha b hb => hs.unlike.names a (hservers a ha) b (hservers b hb)⟩ ?_
    intro name sid hin' h1 h2
    rcases hin name sid hin' with hfound | hfound
    · rw [h1] at hfound
      exact absurd hfound (by simp)
    · rw [h2] at hfound
      exact absurd hfound (by simp)

/-- **The table is a tree of distinct servers throughout a run exactly when whatever is let in is
new as it is stored.** A SID is checked as it is sent and then cut to three bytes, and the name to
127, so that what was new may be stored as one that is there. -/
theorem server_tree_iff (name sid network : Text) (es : List TreeEvent) :
    (∀ pre, pre <+: es → TreeSound (pre.foldl treeStep (netsyncInit name sid network))) ↔
      Runs.Throughout treeStep Fresh (netsyncInit name sid network) es := by
  have hself : ∀ s ∈ (netsyncInit name sid network).servers,
      s = ⟨0, clip 128 name, clip (sidLen + 1) sid, clip 128 network, 0, none, none⟩ :=
    fun s hs => List.mem_singleton.mp hs
  have hinit : TreeSound (netsyncInit name sid network) := by
    refine (wired_init name sid network).sound_iff.mpr ⟨fun s hs s' hs' _ => ?_, fun s hs s' hs' _ => ?_⟩
    · rw [hself s hs, hself s' hs']
    · rw [hself s hs, hself s' hs']
  exact Runs.throughout_iff (fun t e (ht : Wired t) => ht.step e)
    (fun t e ht hs => ht.sound_step e hs) es _ (wired_init name sid network) hinit

/-! ## 7. A SID of four letters -/

/-- `2BB` links, and introduces a server called `1AAX`. -/
def demoTreeRun : List TreeEvent :=
  [.dial 1 "irc.b".toList true true
      ⟨[], none, "SERVER".toList, ["irc.b".toList, "1".toList, "2BB".toList, "b".toList]⟩,
    .server 1
      ⟨[], some "2BB".toList, "SERVER".toList,
        ["irc.c".toList, "2".toList, "1AAX".toList, "c".toList]⟩]

/-- This server is `1AA`, and so it is stored twice. -/
theorem sid_stored_twice :
    ¬ ∀ es : List TreeEvent, TreeSound (es.foldl treeStep (netsyncInit "irc.a".toList "1AA".toList "net".toList)) := by
  intro h
  have hsids := (h demoTreeRun).unlike.sids
  have hrun : (demoTreeRun.foldl treeStep
      (netsyncInit "irc.a".toList "1AA".toList "net".toList)).servers =
      [⟨2, "irc.c".toList, "1AA".toList, "c".toList, 2, some 1, some 1⟩,
        ⟨1, "irc.b".toList, "2BB".toList, "b".toList, 1, some 0, some 1⟩,
        ⟨0, "irc.a".toList, "1AA".toList, "net".toList, 0, none, none⟩] := by decide
  rw [hrun] at hsids
  have heq := hsids ⟨2, "irc.c".toList, "1AA".toList, "c".toList, 2, some 1, some 1⟩ (by simp)
    ⟨0, "irc.a".toList, "1AA".toList, "net".toList, 0, none, none⟩ (by simp) rfl
  exact absurd heq (by decide)

end SekurIRCd
