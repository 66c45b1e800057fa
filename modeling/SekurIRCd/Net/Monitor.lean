/-
# MONITOR

A client lists nicks and is told whenever one of them comes online or goes offline; when it adds a
nick, or asks, it is shown how the nick stands.  Each path that gives or takes a nick tells the
watchers by itself, so that what a watcher was last told of a nick depends on the order of the
paths.

A local loser of a nick collision gives up its nick at once and is torn down later, and only then
are the watchers told that the nick went offline, which by then may be the winner's.  Services
come and go unannounced, and a client that adds its own nick is shown itself.
`monitor_tells_truth` says that the watchers believe what is so after every run without these.
-/
import SekurIRCd.Net.NickTable
import SekurIRCd.Net.WatchIndex
import SekurIRCd.Lib.Presence

namespace SekurIRCd

open CLib HashIndex Presence

/-! ## 1. The lists and the notices

A watcher's belief is the last line that it was sent about a nick. So all lines that were sent are
kept. -/

/-- A server with the MONITOR list of each client, and what each was told: a nick, and whether it
is online.  `mon_idx` is kept in step with the lists and leads from a nick to its watchers. -/
structure Monitors where
  node : Node
  monitor : Nat → List Text
  sent : Nat → List (Text × Bool)

def Monitors.start (maxNickLength : Nat) : Monitors :=
  ⟨Node.start maxNickLength, fun _ => [], fun _ => []⟩

/-- `find_registered`. -/
def findRegistered (s : Node) (nick : Text) : Option (Nat × Conn) :=
  (s.serverFindUser nick).filter fun x => x.2.registered

namespace Monitors

variable (s : Monitors)

/-- What happens to the table alone. -/
def on (f : Node → Node) : Monitors := { s with node := f s.node }

/-- `client_send` has a line for the client: one that is quitting gets none. -/
def listening (w : Nat) : Bool := (s.node.conns w).any fun c => !c.quitting

/-- A line RPL_MONONLINE or RPL_MONOFFLINE, with the nick in it. -/
def tell (w : Nat) (nick : Text) (online : Bool) : Monitors :=
  if s.listening w then { s with sent := Function.update s.sent w (s.sent w ++ [(nick, online)]) }
  else s

/-- `server_monitor_notify`, for the client `p` under its nick of the moment. -/
def serverMonitorNotify (p : Nat) (nick : Text) (online : Bool) : Monitors :=
  { s with
    sent := fun w =>
      if w ≠ p ∧ s.listening w ∧ (s.monitor w).contains (ircCasefold nickLen nick) then
        s.sent w ++ [(nick, online)]
      else s.sent w }

/-- How a nick stands, as MONITOR + and MONITOR S show it.  `mon_append` gathers the nicks into
lines; those of one command all stand as they do now. -/
def status (w : Nat) (t : Text) : Monitors :=
  match findRegistered s.node t with
  | some (_, u) => s.tell w u.nick true
  | none => s.tell w t false

/-- A nick is added to a list. -/
def watch (w : Nat) (cf : Text) : Monitors :=
  if (s.monitor w).contains cf then s
  else { s with monitor := Function.update s.monitor w (s.monitor w ++ [cf]) }

/-- MONITOR +: until the list is full. -/
def monitorAdd (w : Nat) : Monitors → List Text → Monitors
  | s, [] => s
  | s, t :: ts =>
    if (s.monitor w).length ≥ maxMonitor then s
    else monitorAdd w ((s.watch w (ircCasefold nickLen t)).status w t) ts

/-- `monitor_discard`. -/
def monitorDiscard (w : Nat) (cf : Text) : Monitors :=
  { s with monitor := Function.update s.monitor w ((s.monitor w).erase cf) }

/-- `monitor_impl`. -/
def monitorImpl (w : Nat) (params : List Text) : Monitors :=
  let sub := (clip 8 (params.getD 0 [])).map Char.toUpper
  let targets := strtok ',' (clip 600 (params.getD 1 []))
  if sub = "+".toList ∨ sub = "-".toList then
    if params.length < 2 then s
    else if sub = "-".toList then
      targets.foldl (fun s t => s.monitorDiscard w (ircCasefold nickLen t)) s
    else monitorAdd w s targets
  else if sub = "C".toList then { s with monitor := Function.update s.monitor w [] }
  else if sub = "S".toList then (s.monitor w).foldl (fun s t => s.status w t) s
  else s

/-! ## 2. What tells the watchers

The functions of `Net/NickTable` again, with the notices that each of them sends and when it sends
them. -/

/-- `cmd_nick`. -/
def cmdNick (p : Nat) (c : Conn) (newnick : Text) (barred : Bool) (now : Int) : Monitors :=
  if ircValidNick newnick s.node.maxNickLength = false then s
  else if barred then s
  else if (s.node.serverFindUser newnick).any (fun x => x.1 != p) then s
  else if c.registered = false then
    s.on fun n =>
      let n := if c.gotNick then n.hashDelFound p c else n
      n.enter p { c.called newnick with gotNick := true }
  else if c.nick = newnick then s
  else if c.casefoldNick = ircCasefold nickLen newnick then
    s.on fun n => n.write p ({ c with nick := clip nickLen newnick }.dated now)
  else
    let d := (c.called newnick).dated now
    ((s.serverMonitorNotify p c.nick false).on fun n =>
      (n.hashDel p).enter p d).serverMonitorNotify p d.nick true

/-- `cmd_send_welcome_if_ready`, with nothing pending. -/
def cmdSendWelcomeIfReady (p : Nat) (c : Conn) (uid : Text) (klined : Bool) (now : Int) :
    Monitors :=
  if c.registered || !c.gotNick || !c.gotUser then s
  else if klined then s.on fun n => n.write p { c with quitting := true }
  else
    let c := { c with
      registered := true
      uid := if c.uid = [] then uid else c.uid
      nickTs := if c.nickTs = 0 then now else c.nickTs }
    (s.on fun n => (n.write p c).sendUidLine p c).serverMonitorNotify p c.nick true

/-- `force_nick_change`. -/
def forceNickChange (p : Nat) (c : Conn) (newnick : Text) (now : Int) : Monitors :=
  if s.node.canTake p newnick then
    let d := (c.called newnick).dated now
    ((s.serverMonitorNotify p c.nick false).on fun n =>
      (n.hashDel p).enter p d).serverMonitorNotify p d.nick true
  else s

/-- `server_remove_client`. -/
def serverRemoveClient (p : Nat) (c : Conn) : Monitors :=
  let s := { s with monitor := Function.update s.monitor p [] }
  let s := if c.registered && !c.isService then s.serverMonitorNotify p c.nick false else s
  s.on fun n => SekurIRCd.serverRemoveClient n p c

/-- `evict_local_for_collision`. -/
def evictLocalForCollision (p : Nat) (c : Conn) : Monitors :=
  s.on fun n => SekurIRCd.evictLocalForCollision n p c

/-- The loser of a collision goes. -/
def loseNick (p : Nat) (c : Conn) : Monitors :=
  if c.remote then s.serverRemoveClient p c else s.evictLocalForCollision p c

/-- `resolve_collision`. -/
def resolveCollision (nick : Text) (ts : Int) : Monitors × Bool :=
  match s.node.serverFindUser nick with
  | none => (s, true)
  | some (p, old) =>
    if ts < old.nickTs then (s.loseNick p old, true)
    else if ts = old.nickTs then (s.loseNick p old, false)
    else (s, false)

/-- `handle_uid`. -/
def handleUid (nick uid : Text) (ts : Int) (svc : Bool) : Monitors :=
  if ircValidNick nick (nickLen - 1) = false ∨ uid.length ≠ uidLen ∨
      (s.node.netsyncFindUid uid).isSome then s
  else
    let r := s.resolveCollision nick ts
    if r.2 then
      let p := r.1.node.next
      let c := Conn.remoteUser nick uid ts svc
      ((r.1.on fun n => { n with next := n.next + 1 }.enter p c).serverMonitorNotify p c.nick true).on
        fun n => n.sendUidLine p c
    else r.1

/-- `handle_nick`. -/
def handleNick (p : Nat) (u : Conn) (newnick : Text) (ts : Int) : Monitors :=
  if ircValidNick newnick (nickLen - 1) = false then s
  else
    let d := (u.called newnick).dated ts
    let rename := fun s : Monitors =>
      ((s.serverMonitorNotify p u.nick false).on fun n =>
        (n.hashDelFound p u).enter p d).serverMonitorNotify p d.nick true
    match (s.node.serverFindUser newnick).filter fun x => x.1 != p with
    | some (q, clash) =>
      if ts < clash.nickTs then rename (s.loseNick q clash) else s.serverRemoveClient p u
    | none => rename s

end Monitors

/-! ## 3. Runs

The condition is on the event and the state before it: whom a change of the table would mislead,
and who asks about its own nick. -/

inductive MonitorEvent
  /-- What befalls the table of nicks. -/
  | node (e : NodeEvent)
  /-- The command MONITOR. -/
  | monitor (p : Nat) (params : List Text)

namespace Monitors

variable (s : Monitors)

/-- A command of a local client. -/
def dispatch (p : Nat) (f : Conn → Monitors) : Monitors :=
  match s.node.conns p with
  | some c => if c.quitting || c.remote || c.isService then s else f c
  | none => s

def nodeEvent : NodeEvent → Monitors
  | .nick p newnick barred now => s.dispatch p fun c => s.cmdNick p c newnick barred now
  | .ready p uid klined now =>
    match s.node.conns p with
    | some c => s.cmdSendWelcomeIfReady p c uid klined now
    | none => s
  | .sanick nick newnick now =>
    match s.node.serverFindUser nick with
    | some (p, c) =>
      if c.registered = false || c.isService || c.remote then s
      else s.forceNickChange p c newnick now
    | none => s
  | .svsnick id newnick now =>
    match svcTarget s.node id with
    | some (p, c) => if c.registered then s.forceNickChange p c newnick now else s
    | none => s
  | .uid nick uid ts svc => s.handleUid nick uid ts svc
  | .remoteNick uid newnick ts =>
    match (s.node.netsyncFindUid uid).filter fun x => x.2.remote with
    | some (p, u) => s.handleNick p u newnick ts
    | none => s
  | .remove p =>
    match s.node.conns p with
    | some c => s.serverRemoveClient p c
    | none => s
  -- the others tell no one, the NICK of a service among them
  | .connect => s.on fun n => nodeStep n .connect
  | .user p => s.on fun n => nodeStep n (.user p)
  | .service nick uid now => s.on fun n => nodeStep n (.service nick uid now)
  | .markQuit p => s.on fun n => nodeStep n (.markQuit p)
  | .linkUp => s.on fun n => nodeStep n .linkUp

end Monitors

def monitorStep (s : Monitors) : MonitorEvent → Monitors
  | .node e => s.nodeEvent e
  | .monitor p params => s.dispatch p fun c => if c.registered then s.monitorImpl p params else s

namespace Monitors

variable (s : Monitors)

/-- What a client was last told of a nick. -/
def lastNotice (w : Nat) (k : Text) : Option Bool := lastOn (ircCasefold nickLen) (s.sent w) k

/-- A registered client other than `w` holds the nick. -/
def heldByAnother (w : Nat) (k : Text) : Bool :=
  (s.node.users.lookup k).any fun q => q != w && (s.node.conns q).any Conn.registered

/-- Someone other than `p` is told of the nick. -/
def Watched (p : Nat) (k : Text) : Prop := ∃ w, w ≠ p ∧ s.listening w = true ∧ k ∈ s.monitor w

/-- The targets of MONITOR + that a list takes. -/
def taken (l : List Text) : List Text → List Text
  | [] => []
  | t :: ts =>
    if l.length ≥ maxMonitor then []
    else
      let cf := ircCasefold nickLen t
      t :: taken (if l.contains cf then l else l ++ [cf]) ts

/-- The nicks whose standing a MONITOR command shows. -/
def shown (w : Nat) (params : List Text) : List Text :=
  let sub := (clip 8 (params.getD 0 [])).map Char.toUpper
  if sub = "+".toList ∧ 2 ≤ params.length then
    taken (s.monitor w) (strtok ',' (clip 600 (params.getD 1 [])))
  else if sub = "S".toList then s.monitor w
  else []

/-- A change of the table misleads no one who is told of it. -/
def Fair : NodeEvent → Prop
  -- no loser of a collision is torn down while another has the nick, no service under its nick
  | .remove p => ∀ c, s.node.conns p = some c → c.registered = true →
      (c.isService = true → c.casefoldNick ≠ [] → ¬ s.Watched p (ircCasefold nickLen c.nick)) ∧
        (c.isService = false → c.casefoldNick = [] → ∀ w, w ≠ p → s.listening w = true →
          ircCasefold nickLen c.nick ∈ s.monitor w →
            s.heldByAnother w (ircCasefold nickLen c.nick) = false)
  | .service nick _ _ => s.node.serverFindUser nick = none →
      ¬ s.Watched s.node.next (ircCasefold nickLen nick)
  -- no service goes in a collision that leaves the nick to no one
  | .uid nick uid ts _ => ircValidNick nick (nickLen - 1) = true → uid.length = uidLen →
      s.node.netsyncFindUid uid = none → ∀ p c, s.node.serverFindUser nick = some (p, c) →
        ts = c.nickTs → c.isService = true → ¬ s.Watched p (ircCasefold nickLen nick)
  | .remoteNick uid newnick ts => ircValidNick newnick (nickLen - 1) = true →
      ∀ p u, s.node.netsyncFindUid uid = some (p, u) → u.remote = true → u.isService = true →
        ∀ q clash, s.node.serverFindUser newnick = some (q, clash) → q ≠ p → clash.nickTs ≤ ts →
          ¬ s.Watched p (ircCasefold nickLen u.nick)
  | _ => True

end Monitors

/-- The condition on an event: the table stays sound, no watcher is misled, and no client is shown
the nick that it has itself. -/
def Truthful (s : Monitors) : MonitorEvent → Prop
  | .node e => KeepsOut s.node e ∧ s.Fair e
  | .monitor p params => ∀ c, s.node.conns p = some c → c.quitting = false → c.registered = true →
      c.remote = false → c.isService = false →
        ∀ t ∈ s.shown p params, ircCasefold nickLen t ≠ c.casefoldNick

/-! ## 4. What the watchers believe

The invariant compares what each watcher was last told with what watchers are to believe, which
differs from what is so while somebody is quitting. -/

/-- A registered client under the nick, as watchers see it: a user who has lost the nick is there
until the teardown, a service is not. -/
def Node.Seems (s : Node) (q : Nat) (k : Text) : Prop :=
  ∃ c, s.conns q = some c ∧ c.registered = true ∧ ircCasefold nickLen c.nick = k ∧
    (c.casefoldNick ≠ [] ∨ c.isService = false)

/-- A registered client that has the nick, in the table of clients and not in that of nicks. -/
def Node.Holds (s : Node) (q : Nat) (k : Text) : Prop :=
  ∃ c, s.conns q = some c ∧ c.registered = true ∧ c.key = some k

/-- All watchers believe what is so, but that a nick just lost may have gone unsaid (`lost`). The
exception lives only within an event, between the loss of a nick and its new owner. -/
structure MonitorsOk (s : Monitors) (lost : Option Text) : Prop where
  node : NodeOk s.node
  remote : ∀ p c, s.node.conns p = some c → c.remote = true →
    c.registered = true ∧ c.casefoldNick ≠ [] ∧ s.monitor p = []
  gone : ∀ w, s.node.conns w = none → s.monitor w = []
  told : ∀ w, s.listening w = true → ∀ k ∈ s.monitor w,
    Believes (s.lastNotice w k) (lost = some k ∨ ∃ q, q ≠ w ∧ s.node.Seems q k)
      (∃ q, q ≠ w ∧ s.node.Holds q k)

/-- `t` is `s` after a change of the client `p`, with what the watchers of the nicks were told. No
other client has changed, and nobody was told of another nick. -/
structure Announces (s t : Monitors) (p : Nat) (ns : List (Text × Bool)) : Prop where
  conns : ∀ q, q ≠ p → t.node.conns q = s.node.conns q
  lists : ∀ w, w ≠ p → t.monitor w = s.monitor w
  own : t.sent p = s.sent p
  sent : ∀ w, w ≠ p → s.listening w = true →
    t.sent w = s.sent w ++ ns.filter fun n => (s.monitor w).contains (ircCasefold nickLen n.1)

namespace Announces

variable {s t u : Monitors} {p : Nat} {ns ms : List (Text × Bool)}

theorem listening (h : Announces s t p ns) {w : Nat} (hw : w ≠ p) :
    t.listening w = s.listening w := by
  rw [Monitors.listening, Monitors.listening, h.conns w hw]

theorem trans (h : Announces s t p ns) (h' : Announces t u p ms) : Announces s u p (ns ++ ms) where
  conns := fun q hq => (h'.conns q hq).trans (h.conns q hq)
  lists := fun w hw => (h'.lists w hw).trans (h.lists w hw)
  own := h'.own.trans h.own
  sent := fun w hw hl => by
    rw [h'.sent w hw ((h.listening hw).trans hl), h.sent w hw hl, h.lists w hw, List.filter_append,
      List.append_assoc]

/-- A change of `p` alone, of which no one is told. -/
theorem quiet {f : Node → Node} (hf : ∀ q, q ≠ p → (f s.node).conns q = s.node.conns q) :
    Announces s (s.on f) p [] :=
  ⟨hf, fun _ _ => rfl, rfl, fun _ _ _ => by simp [Monitors.on]⟩

theorem notify (s : Monitors) (p : Nat) (nick : Text) (online : Bool) :
    Announces s (s.serverMonitorNotify p nick online) p [(nick, online)] where
  conns := fun _ _ => rfl
  lists := fun _ _ => rfl
  own := by simp [Monitors.serverMonitorNotify]
  sent := fun w hw hl => by
    simp only [Monitors.serverMonitorNotify, List.filter_singleton]
    by_cases hk : ircCasefold nickLen nick ∈ s.monitor w
    · simp [hw, hl, hk]
    · simp [hk]

theorem lastNotice (h : Announces s t p ns) {w : Nat} {k : Text} (hw : w ≠ p)
    (hl : s.listening w = true) (hk : k ∈ s.monitor w) :
    t.lastNotice w k = (lastOn (ircCasefold nickLen) ns k).or (s.lastNotice w k) := by
  rw [Monitors.lastNotice, h.sent w hw hl, lastOn_append,
    lastOn_filter (p := (s.monitor w).contains) ns (List.contains_iff_mem.mpr hk),
    Monitors.lastNotice]

end Announces

/-- What is said of `k` when the client `p` changes from `s` to `t` does not mislead `w`. -/
structure SaysTruth (s t : Monitors) (p : Nat) (ns : List (Text × Bool)) (lost lost' : Option Text)
    (w : Nat) (k : Text) : Prop where
  silent : lastOn (ircCasefold nickLen) ns k = none →
    (lost = some k → lost' = some k) ∧ (s.node.Seems p k → lost' = some k ∨ t.node.Seems p k) ∧
      (t.node.Holds p k → s.node.Holds p k)
  there : lastOn (ircCasefold nickLen) ns k = some true → lost' = some k ∨ t.node.Seems p k
  away : lastOn (ircCasefold nickLen) ns k = some false → ∀ q, q ≠ w → ¬ t.node.Holds q k

/-- **A change of one client keeps the beliefs good** when what is said of it is true. -/
theorem MonitorsOk.announced {s t : Monitors} {p : Nat} {ns : List (Text × Bool)}
    {lost lost' : Option Text} (h : MonitorsOk s lost) (ha : Announces s t p ns)
    (hnode : NodeOk t.node)
    (hremote : ∀ d, t.node.conns p = some d → d.remote = true →
      d.registered = true ∧ d.casefoldNick ≠ [] ∧ t.monitor p = [])
    (hgone : t.node.conns p = none → t.monitor p = [])
    (hself : t.listening p = true → ∀ k ∈ t.monitor p,
      s.listening p = true ∧ k ∈ s.monitor p ∧ (lost = some k → lost' = some k))
    (htrue : ∀ w, w ≠ p → s.listening w = true → ∀ k ∈ s.monitor w,
      SaysTruth s t p ns lost lost' w k) : MonitorsOk t lost' := by
  have hseems : ∀ q k, q ≠ p → (t.node.Seems q k ↔ s.node.Seems q k) := fun q k hq => by
    rw [Node.Seems, Node.Seems, ha.conns q hq]
  have hholds : ∀ q k, q ≠ p → (t.node.Holds q k ↔ s.node.Holds q k) := fun q k hq => by
    rw [Node.Holds, Node.Holds, ha.conns q hq]
  refine ⟨hnode, fun q c hq hr => ?_, fun w hw => ?_, fun w hl k hk => ?_⟩
  · by_cases hqp : q = p
    · subst hqp
      exact hremote c hq hr
    · rw [ha.lists q hqp]
      exact h.remote q c ((ha.conns q hqp).symm.trans hq) hr
  · by_cases hwp : w = p
    · subst hwp
      exact hgone hw
    · rw [ha.lists w hwp]
      exact h.gone w ((ha.conns w hwp).symm.trans hw)
  · by_cases hwp : w = p
    · -- what the others are like has not changed
      subst hwp
      obtain ⟨hsl, hsk, hlost⟩ := hself hl k hk
      have hb := h.told w hsl k hsk
      rw [Monitors.lastNotice, ha.own]
      refine ⟨hb.known, fun ht => (hb.maybe ht).imp hlost ?_, fun ⟨q, hq, hh⟩ => ?_⟩
      · rintro ⟨q, hq, hs⟩
        exact ⟨q, hq, (hseems q k hq).mpr hs⟩
      · exact hb.surely ⟨q, hq, (hholds q k hq).mp hh⟩
    · rw [ha.listening hwp] at hl
      rw [ha.lists w hwp] at hk
      rw [ha.lastNotice hwp hl hk]
      have hsay := htrue w hwp hl k hk
      have hpw : p ≠ w := fun e => hwp e.symm
      refine (h.told w hl k hk).after _ (fun hn => ⟨?_, ?_⟩) (fun ht => ?_) fun hf => ?_
      · obtain ⟨hlost, hp, -⟩ := hsay.silent hn
        rintro (hl | ⟨q, hq, hs⟩)
        · exact Or.inl (hlost hl)
        · by_cases hqp : q = p
          · subst hqp
            exact (hp hs).imp_right fun hs => ⟨q, hq, hs⟩
          · exact Or.inr ⟨q, hq, (hseems q k hqp).mpr hs⟩
      · obtain ⟨-, -, hp⟩ := hsay.silent hn
        rintro ⟨q, hq, hh⟩
        by_cases hqp : q = p
        · subst hqp
          exact ⟨q, hq, hp hh⟩
        · exact ⟨q, hq, (hholds q k hqp).mp hh⟩
      · exact (hsay.there ht).imp_right fun hs => ⟨p, hpw, hs⟩
      · rintro ⟨q, hq, hh⟩
        exact hsay.away hf q hq hh

/-! ## 5. One client

A change of one client tells of one nick or of two. What is said has to be true behind it, and what
is not said has to be as it was. -/

section One

variable {s : Node} {p q : Nat} {c : Conn} {k : Text}

theorem seems_iff (hc : s.conns p = some c) : s.Seems p k ↔ c.registered = true ∧
    ircCasefold nickLen c.nick = k ∧ (c.casefoldNick ≠ [] ∨ c.isService = false) := by
  simp [Node.Seems, hc]

theorem holds_iff (hc : s.conns p = some c) :
    s.Holds p k ↔ c.registered = true ∧ c.key = some k := by
  simp [Node.Holds, hc]

theorem Node.Holds.keyOf (h : s.Holds p k) : s.keyOf p = some k := by
  obtain ⟨c, hc, -, hk⟩ := h
  rw [Node.keyOf, hc]
  exact hk

/-- Whoever has its key is the only one with it. -/
theorem NodeOk.not_holds (h : NodeOk s) (hc : s.conns p = some c) (hne : c.casefoldNick ≠ [])
    (hq : q ≠ p) : ¬ s.Holds q (ircCasefold nickLen c.nick) := by
  intro hh
  refine hq (h.alone q p _ hh.keyOf ?_)
  rw [Node.keyOf, hc, Option.bind_some, key_of_ne hne, (h.conns p c hc).keyed hne]

theorem NodeOk.seems_of_holds (h : NodeOk s) (hh : s.Holds p k) : s.Seems p k := by
  obtain ⟨c, hc, hr, hk⟩ := hh
  obtain ⟨hk, hne⟩ := key_eq_some hk
  rw [← hk] at hne
  exact ⟨c, hc, hr, ((h.conns p c hc).keyed hne).symm.trans hk, Or.inl hne⟩

end One

theorem lost_none {k : Text} {lost : Option Text} (h : (none : Option Text) = some k) :
    lost = some k := absurd h (by simp)

theorem SaysTruth.of_silent {s t : Monitors} {p w : Nat} {k : Text} {lost : Option Text}
    (hseems : s.node.Seems p k → t.node.Seems p k) (hholds : t.node.Holds p k → s.node.Holds p k) :
    SaysTruth s t p [] lost lost w k :=
  ⟨fun _ => ⟨id, fun hs => Or.inr (hseems hs), hholds⟩, fun h => absurd h (by simp),
    fun h => absurd h (by simp)⟩

section Changes

variable {s : Monitors} {p : Nat} {c d : Conn} {f : Node → Node}

theorem MonitorsOk.silent (h : MonitorsOk s none) (hc : s.node.conns p = some c)
    (hf : (f s.node).conns = Function.update s.node.conns p (some d)) (hnode : NodeOk (f s.node))
    (hremote : d.remote = c.remote) (hreg : d.registered = c.registered)
    (hkey : c.casefoldNick ≠ [] → d.casefoldNick ≠ [])
    (hquit : d.quitting = false → c.quitting = false)
    (hseems : ∀ k, s.node.Seems p k → (f s.node).Seems p k)
    (hholds : ∀ k, (f s.node).Holds p k → s.node.Holds p k) : MonitorsOk (s.on f) none := by
  have hp : (f s.node).conns p = some d := by rw [hf, Function.update_self]
  refine h.announced (.quiet fun q hq => by rw [hf, Function.update_of_ne hq]) hnode
    (fun e he hr => ?_) (fun hnone => ?_) (fun hl k hk => ⟨?_, hk, id⟩)
    fun w _ _ k _ => .of_silent (hseems k) (hholds k)
  · obtain rfl := Option.some.inj (hp.symm.trans he)
    obtain ⟨hcreg, hne, hmon⟩ := h.remote p c hc (hremote ▸ hr)
    exact ⟨hreg.trans hcreg, hkey hne, hmon⟩
  · exact absurd (hp.symm.trans hnone) (by simp)
  · simp only [Monitors.listening, Monitors.on, hp, Option.any_some, Bool.not_eq_true'] at hl
    simp [Monitors.listening, hc, hquit hl]

theorem MonitorsOk.renamed {lost : Option Text} (h : MonitorsOk s lost)
    (hc : s.node.conns p = some c) (hne : c.casefoldNick ≠ [])
    (hf : (f s.node).conns = Function.update s.node.conns p (some d)) (hnode : NodeOk (f s.node))
    (hdreg : d.registered = true) (hdne : d.casefoldNick ≠ []) (hremote : d.remote = c.remote)
    (hquit : d.quitting = c.quitting)
    (hlost : lost = none ∨ lost = some (ircCasefold nickLen d.nick) ∧ c.remote = true) :
    MonitorsOk (((s.serverMonitorNotify p c.nick false).on f).serverMonitorNotify p d.nick true)
      none := by
  have hp : (f s.node).conns p = some d := by rw [hf, Function.update_self]
  have hq : ∀ q, q ≠ p → (f s.node).conns q = s.node.conns q := fun q hq => by
    rw [hf, Function.update_of_ne hq]
  have hann := ((Announces.notify s p c.nick false).trans
    (Announces.quiet (f := f) hq)).trans (Announces.notify _ p d.nick true)
  rw [List.append_nil] at hann
  refine h.announced hann hnode (fun e he hr => ?_) (fun hnone => ?_) (fun hl k hk => ?_)
    fun w hw hl k hk => ?_
  · obtain rfl := Option.some.inj (hp.symm.trans he)
    exact ⟨hdreg, hdne, (h.remote p c hc (hremote ▸ hr)).2.2⟩
  · exact absurd (hp.symm.trans hnone) (by simp)
  · change (f s.node).conns p |>.any _ at hl
    simp only [hp, Option.any_some, Bool.not_eq_true', hquit] at hl
    refine ⟨by simp [Monitors.listening, hc, hl], hk, fun hk' => ?_⟩
    rcases hlost with hn | ⟨-, hr⟩
    · exact absurd (hn.symm.trans hk') (by simp)
    · -- a user of another server watches no one
      have hmon : s.monitor p = [] := (h.remote p c hc hr).2.2
      exact absurd hk (by
        change k ∉ s.monitor p
        simp [hmon])
  · have hnew : (f s.node).Seems p (ircCasefold nickLen d.nick) :=
      (seems_iff hp).mpr ⟨hdreg, rfl, Or.inl hdne⟩
    have hlast : lastOn (ircCasefold nickLen) ([(c.nick, false)] ++ [(d.nick, true)]) k =
        if ircCasefold nickLen d.nick = k then some true
        else if ircCasefold nickLen c.nick = k then some false else none := by
      rw [lastOn_append, lastOn_singleton, lastOn_singleton]
      split <;> rfl
    have hkey : ∀ q, (f s.node).Holds q (ircCasefold nickLen c.nick) →
        ircCasefold nickLen d.nick = ircCasefold nickLen c.nick := by
      intro q hh
      by_cases hqp : q = p
      · subst hqp
        obtain ⟨-, hk, -⟩ := (seems_iff hp).mp (hnode.seems_of_holds hh)
        exact hk
      · have hs : s.node.Holds q (ircCasefold nickLen c.nick) := by
          rwa [Node.Holds, hq q hqp] at hh
        exact absurd hs (h.node.not_holds hc hne hqp)
    refine ⟨fun hn => ?_, fun ht => ?_, fun ha => ?_⟩
    · rw [hlast] at hn
      split at hn
      next => exact absurd hn (by simp)
      next hdk =>
        split at hn
        next => exact absurd hn (by simp)
        next hck =>
          refine ⟨fun hk' => ?_, fun hs => ?_, fun hh => ?_⟩
          · rcases hlost with hnone | ⟨hsome, -⟩
            · exact absurd (hnone.symm.trans hk') (by simp)
            · exact absurd (Option.some.inj (hsome.symm.trans hk')) hdk
          · exact absurd ((seems_iff hc).mp hs).2.1 hck
          · exact absurd ((seems_iff hp).mp (hnode.seems_of_holds hh)).2.1 hdk
    · rw [hlast] at ht
      split at ht
      next hdk => exact Or.inr (hdk ▸ hnew)
      next =>
        split at ht <;> exact absurd ht (by simp)
    · rw [hlast] at ha
      split at ha
      next => exact absurd ha (by simp)
      next hdk =>
        split at ha
        next hck =>
          intro q _ hh
          subst hck
          exact hdk (hkey q hh)
        next => exact absurd ha (by simp)

/-- A client that was not registered, or not there, comes online under its nick. -/
theorem MonitorsOk.came {lost : Option Text} (h : MonitorsOk s lost)
    (hf : (f s.node).conns = Function.update s.node.conns p (some d)) (hnode : NodeOk (f s.node))
    (hreg : d.registered = true) (hne : d.casefoldNick ≠ [])
    (hlost : lost = none ∨ lost = some (ircCasefold nickLen d.nick))
    (hold : ∀ c, s.node.conns p = some c → c.registered = false ∧ d.remote = c.remote ∧
      d.quitting = c.quitting ∧ lost = none) :
    MonitorsOk ((s.on f).serverMonitorNotify p d.nick true) none := by
  have hp : (f s.node).conns p = some d := by rw [hf, Function.update_self]
  have hann := (Announces.quiet (s := s) (f := f) fun q hq => by
    rw [hf, Function.update_of_ne hq]).trans (Announces.notify _ p d.nick true)
  rw [List.nil_append] at hann
  have hnot : ∀ k, ¬ s.node.Seems p k ∧ ¬ s.node.Holds p k := by
    refine fun k => ⟨fun ⟨c, hc, hr, _⟩ => ?_, fun ⟨c, hc, hr, _⟩ => ?_⟩
    · exact absurd (hr.symm.trans (hold c hc).1) (by simp)
    · exact absurd (hr.symm.trans (hold c hc).1) (by simp)
  refine h.announced hann hnode (fun e he hr => ⟨?_, ?_, ?_⟩) (fun hnone => ?_)
    (fun hl k hk => ?_) fun w hw hl k hk => ?_
  · obtain rfl := Option.some.inj (hp.symm.trans he)
    exact hreg
  · obtain rfl := Option.some.inj (hp.symm.trans he)
    exact hne
  · obtain rfl := Option.some.inj (hp.symm.trans he)
    cases hc : s.node.conns p with
    | none => exact h.gone p hc
    | some c => exact (h.remote p c hc ((hold c hc).2.1 ▸ hr)).2.2
  · exact absurd (hp.symm.trans hnone) (by simp)
  · cases hc : s.node.conns p with
    | none =>
      have hk : k ∈ s.monitor p := hk
      rw [h.gone p hc] at hk
      exact absurd hk List.not_mem_nil
    | some c =>
      obtain ⟨-, -, hquit, hnone⟩ := hold c hc
      change ((f s.node).conns p).any (fun c => !c.quitting) = true at hl
      simp only [hp, Option.any_some, hquit] at hl
      exact ⟨by simpa [Monitors.listening, hc] using hl, hk,
        fun hk' => absurd (hnone.symm.trans hk') (by simp)⟩
  · refine ⟨fun hn => ?_, fun ht => ?_, fun ha => ?_⟩
    · rw [lastOn_singleton] at hn
      split at hn
      next => exact absurd hn (by simp)
      next hdk =>
        refine ⟨fun hk' => ?_, fun hs => absurd hs (hnot k).1, fun hh => ?_⟩
        · rcases hlost with hnone | hsome
          · exact absurd (hnone.symm.trans hk') (by simp)
          · exact absurd (Option.some.inj (hsome.symm.trans hk')) hdk
        · exact absurd ((seems_iff hp).mp (hnode.seems_of_holds hh)).2.1 hdk
    · rw [lastOn_singleton] at ht
      split at ht
      next hdk => exact Or.inr ((seems_iff hp).mpr ⟨hreg, hdk, Or.inl hne⟩)
      next => exact absurd ht (by simp)
    · rw [lastOn_singleton] at ha
      split at ha <;> exact absurd ha (by simp)

theorem MonitorsOk.noted {g : Node → Node} (h : MonitorsOk s none)
    (hg : (g s.node).conns = s.node.conns) (hnode : NodeOk (g s.node)) :
    MonitorsOk (s.on g) none := by
  refine ⟨hnode, fun q c hq => h.remote q c (hg ▸ hq), fun w hw => h.gone w (hg ▸ hw),
    fun w hl k hk => ?_⟩
  have hl : s.listening w = true := by
    rw [Monitors.listening] at hl ⊢
    change ((g s.node).conns w).any _ = true at hl
    rwa [hg] at hl
  have hb := h.told w hl k hk
  refine ⟨hb.known, fun ht => ?_, fun ⟨q, hq, hh⟩ => hb.surely ⟨q, hq, ?_⟩⟩
  · refine (hb.maybe ht).imp_right fun ⟨q, hq, hs⟩ => ⟨q, hq, ?_⟩
    change (g s.node).Seems q k
    rwa [Node.Seems, hg]
  · change (g s.node).Holds q k at hh
    rwa [Node.Holds, hg] at hh

theorem serverRemoveClient_conns (n : Node) (p : Nat) (c : Conn) :
    (serverRemoveClient n p c).conns = Function.update n.conns p none := by
  obtain ⟨hconns, -⟩ := hashDelFound_frame n p c
  unfold serverRemoveClient
  split
  · simp only [hconns]
  · rfl

theorem evictLocalForCollision_conns (n : Node) (p : Nat) (c : Conn) :
    (evictLocalForCollision n p c).conns =
      Function.update n.conns p (some { c with casefoldNick := [], quitting := true }) := by
  obtain ⟨hconns, -⟩ := hashDelFound_frame n p c
  simp only [evictLocalForCollision, Node.write, hconns]

/-- What a client's removal tells the watchers. -/
theorem removed_announces (s : Monitors) (p : Nat) (c : Conn) :
    Announces s (s.serverRemoveClient p c) p
      (if c.registered && !c.isService then [(c.nick, false)] else []) := by
  have hlist : Announces s { s with monitor := Function.update s.monitor p [] } p [] :=
    ⟨fun _ _ => rfl, fun w hw => Function.update_of_ne hw .., rfl, fun _ _ _ => by simp⟩
  have hlast : ∀ u : Monitors, Announces u (u.on fun n => serverRemoveClient n p c) p [] :=
    fun u => Announces.quiet fun q hq => by
      rw [serverRemoveClient_conns, Function.update_of_ne hq]
  simp only [Monitors.serverRemoveClient]
  split
  next =>
    have hann := (hlist.trans (Announces.notify _ p c.nick false)).trans (hlast _)
    rwa [List.nil_append, List.append_nil] at hann
  next => exact hlist.trans (hlast _)

/-- Someone who holds a nick is found under it. -/
theorem NodeOk.heldByAnother_of (h : NodeOk s.node) {q w : Nat} {k : Text} (hq : q ≠ w)
    (hh : s.node.Holds q k) : s.heldByAnother w k = true := by
  have hfound := h.lookup_key hh.keyOf
  obtain ⟨c, hc, hr, -⟩ := hh
  rw [Monitors.heldByAnother, hfound]
  simp [hq, hc, hr]

/-- A client goes.  Its nick may stay behind, as lost. -/
theorem MonitorsOk.removed {lost : Option Text} (h : MonitorsOk s none)
    (hc : s.node.conns p = some c)
    (hsvc : c.registered = true → c.isService = true → c.casefoldNick ≠ [] →
      lost = some (ircCasefold nickLen c.nick) ∨ ¬ s.Watched p (ircCasefold nickLen c.nick))
    (hlate : c.registered = true → c.isService = false → c.casefoldNick = [] →
      ∀ w, w ≠ p → s.listening w = true → ircCasefold nickLen c.nick ∈ s.monitor w →
        s.heldByAnother w (ircCasefold nickLen c.nick) = false) :
    MonitorsOk (s.serverRemoveClient p c) lost := by
  have hmon : (s.serverRemoveClient p c).monitor p = [] := by
    simp only [Monitors.serverRemoveClient]
    split <;> exact Function.update_self ..
  have hnode : (s.serverRemoveClient p c).node = serverRemoveClient s.node p c := by
    simp only [Monitors.serverRemoveClient]
    split <;> rfl
  have hp : (s.serverRemoveClient p c).node.conns p = none := by
    rw [hnode, serverRemoveClient_conns, Function.update_self]
  refine h.announced (removed_announces s p c) (hnode ▸ serverRemoveClient_ok h.node hc)
    (fun e he => absurd (hp.symm.trans he) (by simp)) (fun _ => hmon) (fun _ k hk => ?_)
    fun w hw hl k hk => ?_
  · rw [hmon] at hk
    exact absurd hk List.not_mem_nil
  · refine ⟨fun hn => ⟨lost_none, fun hs => Or.inl ?_, fun ⟨e, he, _⟩ => ?_⟩, fun ht => ?_,
      fun ha q hq hh => ?_⟩
    · obtain ⟨hr, rfl, hkept⟩ := (seems_iff hc).mp hs
      cases hsv : c.isService with
      | false => simp [hr, hsv] at hn
      | true =>
        have hne : c.casefoldNick ≠ [] := hkept.resolve_right (by simp [hsv])
        exact (hsvc hr hsv hne).resolve_right (not_not.mpr ⟨w, hw, hl, hk⟩)
    · exact absurd (hp.symm.trans he) (by simp)
    · split at ht <;> simp at ht
    · split at ha
      next hsaid =>
        obtain ⟨hr, hsv⟩ := Bool.and_eq_true_iff.mp hsaid
        rw [Bool.not_eq_true'] at hsv
        rw [lastOn_singleton] at ha
        split at ha
        next hck =>
          subst hck
          by_cases hqp : q = p
          · obtain ⟨e, he, -⟩ := hh
            rw [hqp] at he
            exact absurd (hp.symm.trans he) (by simp)
          · rw [Node.Holds, (removed_announces s p c).conns q hqp] at hh
            by_cases hne : c.casefoldNick = []
            · have hheld := h.node.heldByAnother_of (s := s) hq hh
              rw [hlate hr hsv hne w hw hl hk] at hheld
              exact absurd hheld (by simp)
            · exact h.node.not_holds hc hne hqp hh
        next => exact absurd ha (by simp)
      next => exact absurd ha (by simp)

/-- A client that has its nick loses a collision. -/
theorem MonitorsOk.lose {lost : Option Text} (h : MonitorsOk s none)
    (hc : s.node.conns p = some c) (hne : c.casefoldNick ≠ [])
    (hsvc : c.isService = true → lost = some (ircCasefold nickLen c.nick) ∨
      ¬ s.Watched p (ircCasefold nickLen c.nick)) : MonitorsOk (s.loseNick p c) lost := by
  unfold Monitors.loseNick
  split
  next => exact h.removed hc (fun _ hsv _ => hsvc hsv) fun _ _ hnil => absurd hnil hne
  next hlocal =>
    have hp : (evictLocalForCollision s.node p c).conns p =
        some { c with casefoldNick := [], quitting := true } := by
      rw [evictLocalForCollision_conns, Function.update_self]
    refine h.announced (.quiet fun q hq => by
        rw [evictLocalForCollision_conns, Function.update_of_ne hq])
      (evictLocalForCollision_ok h.node hc) (fun e he hr => ?_) (fun hnone => ?_)
      (fun hl => ?_) fun w hw hl k hk => ?_
    · obtain rfl := Option.some.inj (hp.symm.trans he)
      exact absurd hr hlocal
    · exact absurd (hp.symm.trans hnone) (by simp)
    · change ((evictLocalForCollision s.node p c).conns p).any (fun c => !c.quitting) = true at hl
      simp [hp] at hl
    · refine ⟨fun _ => ⟨lost_none, fun hs => ?_, fun hh => ?_⟩, fun ht => absurd ht (by simp),
        fun ha => absurd ha (by simp)⟩
      · obtain ⟨hr, rfl, -⟩ := (seems_iff hc).mp hs
        cases hsv : c.isService with
        | false => exact Or.inr ((seems_iff hp).mpr ⟨hr, rfl, Or.inr hsv⟩)
        | true => exact Or.inl ((hsvc hsv).resolve_right (not_not.mpr ⟨w, hw, hl, hk⟩))
      · exact absurd ((holds_iff hp).mp hh).2 (by simp [Conn.key])

end Changes

/-! ## 6. The command -/

namespace Monitors

variable (s : Monitors) (w : Nat)

@[simp] theorem tell_node (nick : Text) (online : Bool) : (s.tell w nick online).node = s.node := by
  unfold tell
  split <;> rfl

@[simp] theorem tell_monitor (nick : Text) (online : Bool) :
    (s.tell w nick online).monitor = s.monitor := by
  unfold tell
  split <;> rfl

@[simp] theorem status_node (t : Text) : (s.status w t).node = s.node := by
  unfold status
  split <;> exact tell_node ..

@[simp] theorem status_monitor (t : Text) : (s.status w t).monitor = s.monitor := by
  unfold status
  split <;> exact tell_monitor ..

/-- The lists with another one for `w`. -/
def withList (l : List Text) : Monitors := { s with monitor := Function.update s.monitor w l }

@[simp] theorem withList_monitor (l : List Text) : (s.withList w l).monitor w = l :=
  Function.update_self ..

theorem withList_other {v : Nat} (l : List Text) (hv : v ≠ w) :
    (s.withList w l).monitor v = s.monitor v := Function.update_of_ne hv ..

@[simp] theorem withList_self : s.withList w (s.monitor w) = s := by
  rw [withList, Function.update_eq_self]

theorem watch_eq (cf : Text) : s.watch w cf =
    s.withList w (if (s.monitor w).contains cf then s.monitor w else s.monitor w ++ [cf]) := by
  rw [watch]
  split
  · exact (s.withList_self w).symm
  · rfl

end Monitors

section Command

variable {s : Monitors} {w : Nat}

/-- What MONITOR shows of a nick is how it stands. -/
theorem status_sent (h : NodeOk s.node) (hl : s.listening w = true) (t : Text) :
    ∃ nick, ircCasefold nickLen nick = ircCasefold nickLen t ∧ (s.status w t).sent =
      Function.update s.sent w (s.sent w ++ [(nick, (findRegistered s.node t).isSome)]) := by
  unfold Monitors.status
  split
  next q u hfind =>
    obtain ⟨-, hkey, hq⟩ := h.of_serverFindUser (Option.filter_eq_some_iff.mp hfind).1
    have hu := (h.of_serverFindUser (Option.filter_eq_some_iff.mp hfind).1).1
    refine ⟨u.nick, ?_, by rw [Monitors.tell, if_pos hl, hfind]; rfl⟩
    rw [← (h.conns q u hu).keyed fun hnil => ?_, hkey]
    rw [Node.keyOf, hu, Option.bind_some, Conn.key, if_pos hnil] at hq
    exact absurd hq (by simp)
  next hnone => exact ⟨t, rfl, by rw [Monitors.tell, if_pos hl, hnone]; rfl⟩

/-- A client whose nick is free of its own list is not found there. -/
theorem findRegistered_seems (h : NodeOk s.node) {t : Text}
    (hown : ∀ c, s.node.conns w = some c → ircCasefold nickLen t ≠ c.casefoldNick)
    (hfound : (findRegistered s.node t).isSome = true) :
    ∃ q, q ≠ w ∧ s.node.Seems q (ircCasefold nickLen t) := by
  obtain ⟨⟨q, u⟩, hfind⟩ := Option.isSome_iff_exists.mp hfound
  obtain ⟨hfind, hreg⟩ := Option.filter_eq_some_iff.mp hfind
  obtain ⟨hu, hkey, hq⟩ := h.of_serverFindUser hfind
  refine ⟨q, fun hqw => hown u (hqw ▸ hu) hkey.symm, h.seems_of_holds ⟨u, hu, hreg, ?_⟩⟩
  rw [Node.keyOf, hu, Option.bind_some] at hq
  exact hq

theorem findRegistered_of_holds (h : NodeOk s.node) {t : Text} {q : Nat}
    (hh : s.node.Holds q (ircCasefold nickLen t)) : (findRegistered s.node t).isSome = true := by
  have hfound := h.lookup_key hh.keyOf
  obtain ⟨c, hc, hr, -⟩ := hh
  rw [findRegistered, Node.serverFindUser, hfound, Option.bind_some, Node.at?, hc]
  simp [hr]

/-- A nick is shown to a client, which may have just put it on its list. -/
theorem MonitorsOk.shown (h : MonitorsOk s none) (hl : s.listening w = true)
    (hlocal : ∀ c, s.node.conns w = some c → c.remote = false) {t : Text}
    (hown : ∀ c, s.node.conns w = some c → ircCasefold nickLen t ≠ c.casefoldNick)
    {l : List Text} (hsub : ∀ k ∈ l, k ∈ s.monitor w ∨ k = ircCasefold nickLen t) :
    MonitorsOk ((s.withList w l).status w t) none := by
  obtain ⟨nick, hnick, hsent⟩ := status_sent (s := s.withList w l) h.node hl t
  have hlast : ∀ v k, ((s.withList w l).status w t).lastNotice v k =
      if v = w ∧ ircCasefold nickLen t = k then some (findRegistered s.node t).isSome
      else s.lastNotice v k := by
    intro v k
    rw [Monitors.lastNotice, hsent]
    by_cases hv : v = w
    · rw [hv, Function.update_self, lastOn_append, lastOn_singleton, hnick]
      by_cases hk : ircCasefold nickLen t = k
      · simp [hk, Monitors.withList]
      · simp [hk, Monitors.withList, Monitors.lastNotice]
    · rw [Function.update_of_ne hv, if_neg fun hn => hv hn.1]
      rfl
  refine ⟨by rw [Monitors.status_node]; exact h.node, fun q c hq hr => ?_, fun v hv => ?_,
    fun v hv k hk => ?_⟩
  · rw [Monitors.status_node] at hq
    rw [Monitors.status_monitor]
    have hqw : q ≠ w := fun e => by
      rw [hlocal c (e ▸ hq)] at hr
      exact absurd hr (by simp)
    obtain ⟨hreg, hne, hmon⟩ := h.remote q c hq hr
    exact ⟨hreg, hne, (s.withList_other w l hqw).trans hmon⟩
  · rw [Monitors.status_node] at hv
    rw [Monitors.status_monitor]
    have hvw : v ≠ w := fun e => by
      have hv : s.node.conns w = none := e ▸ hv
      simp [Monitors.listening, hv] at hl
    exact (s.withList_other w l hvw).trans (h.gone v hv)
  · rw [Monitors.status_node, hlast]
    rw [Monitors.listening, Monitors.status_node] at hv
    rw [Monitors.status_monitor] at hk
    by_cases hthis : v = w ∧ ircCasefold nickLen t = k
    · obtain ⟨rfl, rfl⟩ := hthis
      rw [if_pos ⟨rfl, rfl⟩]
      refine ⟨by simp, fun hf => Or.inr ?_, fun ⟨q, _, hh⟩ => ?_⟩
      · exact findRegistered_seems h.node hown (Option.some.inj hf)
      · exact congrArg some (findRegistered_of_holds h.node hh)
    · rw [if_neg hthis]
      refine h.told v hv k ?_
      by_cases hvw : v = w
      · subst hvw
        rw [Monitors.withList_monitor] at hk
        exact (hsub k hk).resolve_right fun e => hthis ⟨rfl, e.symm⟩
      · rwa [s.withList_other w l hvw] at hk

theorem MonitorsOk.fewer (h : MonitorsOk s none) {l : List Text} (hsub : l ⊆ s.monitor w) :
    MonitorsOk (s.withList w l) none := by
  have hlist : ∀ v, (s.withList w l).monitor v ⊆ s.monitor v := by
    intro v
    by_cases hv : v = w
    · rw [hv, Monitors.withList_monitor]
      exact hsub
    · rw [s.withList_other w l hv]
      exact List.Subset.refl _
  refine ⟨h.node, fun q c hq hr => ?_, fun v hv => ?_,
    fun v hv k hk => h.told v hv k (hlist v hk)⟩
  · obtain ⟨hreg, hne, hmon⟩ := h.remote q c hq hr
    exact ⟨hreg, hne, List.eq_nil_of_subset_nil (hmon ▸ hlist q)⟩
  · exact List.eq_nil_of_subset_nil (h.gone v hv ▸ hlist v)

theorem monitorAdd_told (hl : s.listening w = true)
    (hlocal : ∀ c, s.node.conns w = some c → c.remote = false) (ts : List Text) :
    ∀ u : Monitors, u.node = s.node → MonitorsOk u none →
      (∀ c, s.node.conns w = some c → ∀ t ∈ Monitors.taken (u.monitor w) ts,
        ircCasefold nickLen t ≠ c.casefoldNick) → MonitorsOk (Monitors.monitorAdd w u ts) none := by
  induction ts with
  | nil => exact fun u _ hu _ => hu
  | cons t ts ih =>
    intro u hnode hu hown
    rw [Monitors.monitorAdd]
    split
    next => exact hu
    next hroom =>
      rw [Monitors.taken, if_neg hroom] at hown
      have hul : u.listening w = true := by rwa [Monitors.listening, hnode]
      rw [Monitors.watch_eq]
      refine ih _ (by simp [Monitors.withList, hnode])
        (hu.shown hul (hnode ▸ hlocal) (fun c hc => ?_) fun k hk => ?_) fun c hc t' ht' => ?_
      · exact hown c (hnode ▸ hc) t List.mem_cons_self
      · split at hk
        next => exact Or.inl hk
        next => exact (List.mem_append.mp hk).imp_right List.mem_singleton.mp
      · rw [Monitors.status_monitor, Monitors.withList_monitor] at ht'
        exact hown c hc t' (List.mem_cons_of_mem t ht')

theorem monitorStatus_told (hl : s.listening w = true)
    (hlocal : ∀ c, s.node.conns w = some c → c.remote = false) (ts : List Text)
    (hown : ∀ c, s.node.conns w = some c → ∀ t ∈ ts, ircCasefold nickLen t ≠ c.casefoldNick) :
    ∀ u : Monitors, u.node = s.node → MonitorsOk u none →
      MonitorsOk (ts.foldl (fun s t => s.status w t) u) none := by
  induction ts with
  | nil => exact fun u _ hu => hu
  | cons t ts ih =>
    intro u hnode hu
    have hul : u.listening w = true := by rwa [Monitors.listening, hnode]
    rw [List.foldl_cons]
    refine ih (fun c hc t' ht' => hown c hc t' (List.mem_cons_of_mem t ht')) _
      (by rw [Monitors.status_node, hnode]) ?_
    have hshown := hu.shown (l := u.monitor w) hul (hnode ▸ hlocal)
      (fun c hc => hown c (hnode ▸ hc) t List.mem_cons_self) fun k hk => Or.inl hk
    rwa [Monitors.withList_self] at hshown

theorem monitorDiscard_told (ts : List Text) : ∀ u : Monitors, MonitorsOk u none →
    MonitorsOk (ts.foldl (fun s t => s.monitorDiscard w (ircCasefold nickLen t)) u) none := by
  induction ts with
  | nil => exact fun u hu => hu
  | cons t ts ih => exact fun u hu => ih _ (hu.fewer fun k hk => List.mem_of_mem_erase hk)

/-- The command keeps the beliefs good when it shows no client its own nick. -/
theorem monitorImpl_told (h : MonitorsOk s none) (hl : s.listening w = true)
    (hlocal : ∀ c, s.node.conns w = some c → c.remote = false) {params : List Text}
    (hown : ∀ c, s.node.conns w = some c → ∀ t ∈ s.shown w params,
      ircCasefold nickLen t ≠ c.casefoldNick) : MonitorsOk (s.monitorImpl w params) none := by
  simp only [Monitors.shown] at hown
  simp only [Monitors.monitorImpl]
  generalize hsub : (clip 8 (params.getD 0 [])).map Char.toUpper = sub at hown ⊢
  split
  next hsign =>
    split
    next => exact h
    next hlong =>
      split
      next => exact monitorDiscard_told _ s h
      next hminus =>
        rw [if_pos ⟨hsign.resolve_right hminus, by omega⟩] at hown
        exact monitorAdd_told hl hlocal _ s rfl h hown
  next hsign =>
    rw [if_neg fun hplus => hsign (Or.inl hplus.1)] at hown
    split
    next => exact h.fewer (l := []) (List.nil_subset _)
    next =>
      split
      next hs =>
        rw [if_pos hs] at hown
        exact monitorStatus_told hl hlocal _ hown s rfl h
      next => exact h

end Command

/-! ## 7. The changes of the table -/

section Table

variable {s : Monitors} {p : Nat} {c : Conn}

theorem loseNick_node (s : Monitors) (p : Nat) (c : Conn) :
    (s.loseNick p c).node = loseNick s.node p c := by
  unfold Monitors.loseNick loseNick
  split
  · simp only [Monitors.serverRemoveClient]
    split <;> rfl
  · rfl

theorem resolveCollision_node (s : Monitors) (nick : Text) (ts : Int) :
    (s.resolveCollision nick ts).1.node = (resolveCollision s.node nick ts).1 ∧
      (s.resolveCollision nick ts).2 = (resolveCollision s.node nick ts).2 := by
  unfold Monitors.resolveCollision resolveCollision
  cases s.node.serverFindUser nick with
  | none => exact ⟨rfl, rfl⟩
  | some x =>
    simp only
    split
    · exact ⟨loseNick_node .., rfl⟩
    · split
      · exact ⟨loseNick_node .., rfl⟩
      · exact ⟨rfl, rfl⟩

theorem cmdNick_told (h : MonitorsOk s none) (hc : s.node.conns p = some c)
    (hquit : c.quitting = false) (newnick : Text) (barred : Bool) (now : Int) :
    MonitorsOk (s.cmdNick p c newnick barred now) none := by
  have hok := cmdNick_ok h.node hc hquit newnick barred now
  unfold cmdNick at hok
  unfold Monitors.cmdNick
  split
  next => exact h
  next hvalid =>
    rw [if_neg hvalid] at hok
    rw [Bool.not_eq_false] at hvalid
    have hfold := casefold_ne_nil_of_valid hvalid
    split
    next => exact h
    next hbarred =>
      rw [if_neg hbarred] at hok
      split
      next => exact h
      next htaken =>
        rw [if_neg htaken] at hok
        split
        next hreg =>
          rw [if_pos hreg] at hok
          have hconns : (if c.gotNick then s.node.hashDelFound p c else s.node).conns =
              s.node.conns := by
            split
            · exact (hashDelFound_frame ..).1
            · rfl
          have hf : ∀ d, ((if c.gotNick then s.node.hashDelFound p c else s.node).enter p d).conns =
              Function.update s.node.conns p (some d) := fun d => by
            rw [← hconns]
            rfl
          refine h.silent hc (hf _) hok rfl rfl (fun _ => hfold) id (fun k hs => ?_) fun k hh => ?_
          · exact absurd ((seems_iff hc).mp hs).1 (by simp [hreg])
          · have hp := congrFun (hf { c.called newnick with gotNick := true }) p
            rw [Function.update_self] at hp
            exact absurd ((holds_iff hp).mp hh).1 (by simp [Conn.called, hreg])
        next hreg =>
          rw [if_neg hreg] at hok
          have hgot : c.gotNick = true := (h.node.conns p c hc).got (Or.inl (by simpa using hreg))
          have hne : c.casefoldNick ≠ [] := (h.node.conns p c hc).held hquit hgot
          split
          next => exact h
          next hother =>
            rw [if_neg hother] at hok
            split
            next hsame =>
              -- the nick is another, its casefolded form the same
              rw [if_pos hsame] at hok
              have hp : (s.node.write p ({ c with nick := clip nickLen newnick }.dated now)).conns p =
                  some ({ c with nick := clip nickLen newnick }.dated now) := Function.update_self ..
              refine h.silent hc rfl hok rfl rfl id id (fun k hs => ?_) fun k hh => ?_
              · obtain ⟨hr, hk, -⟩ := (seems_iff hc).mp hs
                refine (seems_iff hp).mpr ⟨hr, ?_, Or.inl hne⟩
                rw [← hk, ← (h.node.conns p c hc).keyed hne, hsame, Conn.dated, ircCasefold,
                  clip_clip, ircCasefold]
              · exact (holds_iff hc).mpr ((holds_iff hp).mp hh)
            next hsame =>
              rw [if_neg hsame] at hok
              rw [Bool.not_eq_false] at hreg
              exact h.renamed hc hne rfl hok hreg hfold rfl rfl (Or.inl rfl)

theorem forceNickChange_told (h : MonitorsOk s none) (hc : s.node.conns p = some c)
    (hreg : c.registered = true) (newnick : Text) (now : Int)
    (hne : s.node.canTake p newnick = true → c.casefoldNick ≠ []) :
    MonitorsOk (s.forceNickChange p c newnick now) none := by
  have hok := forceNickChange_ok h.node hc newnick now hne
  unfold forceNickChange at hok
  unfold Monitors.forceNickChange
  split
  next hcan =>
    rw [if_pos hcan] at hok
    have hvalid := (Bool.and_eq_true_iff.mp hcan).1
    exact h.renamed hc (hne hcan) rfl hok hreg (casefold_ne_nil_of_valid hvalid) rfl rfl
      (Or.inl rfl)
  next => exact h

theorem cmdSendWelcomeIfReady_told (h : MonitorsOk s none) (hc : s.node.conns p = some c)
    (uid : Text) (klined : Bool) (now : Int)
    (hin : c.registered = false → c.gotNick = true → c.gotUser = true → klined = false →
      c.casefoldNick ≠ []) : MonitorsOk (s.cmdSendWelcomeIfReady p c uid klined now) none := by
  have hok := cmdSendWelcomeIfReady_ok h.node hc uid klined now hin
  unfold cmdSendWelcomeIfReady at hok
  unfold Monitors.cmdSendWelcomeIfReady
  split
  next => exact h
  next hready =>
    rw [if_neg hready] at hok
    simp only [Bool.or_eq_true, Bool.not_eq_true', not_or, Bool.not_eq_true,
      Bool.not_eq_false] at hready
    split
    next hkline =>
      rw [if_pos hkline] at hok
      have hp : (s.node.write p { c with quitting := true }).conns p =
          some { c with quitting := true } := Function.update_self ..
      refine h.silent hc rfl hok rfl rfl id (fun hq => absurd hq (by simp)) (fun k hs => ?_)
        fun k hh => ?_
      · exact (seems_iff hp).mpr ((seems_iff hc).mp hs)
      · exact (holds_iff hc).mpr ((holds_iff hp).mp hh)
    next hkline =>
      rw [if_neg hkline] at hok
      have hne := hin hready.1.1 hready.1.2 hready.2 (by simpa using hkline)
      refine h.came rfl hok rfl hne (Or.inl rfl) fun e he => ?_
      obtain rfl := Option.some.inj (hc.symm.trans he)
      exact ⟨hready.1.1, rfl, rfl, rfl⟩

/-- A collision leaves at most the nick itself unsaid, and nothing when no one takes it. -/
theorem resolveCollision_told (h : MonitorsOk s none) (nick : Text) (ts : Int)
    (htie : ∀ p c, s.node.serverFindUser nick = some (p, c) → ts = c.nickTs → c.isService = true →
      ¬ s.Watched p (ircCasefold nickLen nick)) :
    ((s.resolveCollision nick ts).2 = false → MonitorsOk (s.resolveCollision nick ts).1 none) ∧
      ∃ lost, (lost = none ∨ lost = some (ircCasefold nickLen nick)) ∧
        MonitorsOk (s.resolveCollision nick ts).1 lost := by
  unfold Monitors.resolveCollision
  split
  next => exact ⟨fun _ => h, none, Or.inl rfl, h⟩
  next p old hfind =>
    obtain ⟨hc, hfold, hkey⟩ := h.node.of_serverFindUser hfind
    rw [Node.keyOf, hc, Option.bind_some] at hkey
    have hne : old.casefoldNick ≠ [] := hfold ▸ (key_eq_some hkey).2
    have hnick : ircCasefold nickLen old.nick = ircCasefold nickLen nick :=
      ((h.node.conns p old hc).keyed hne).symm.trans hfold
    split
    next =>
      refine ⟨fun hf => absurd hf (by simp), _, Or.inr rfl, h.lose hc hne fun _ => Or.inl ?_⟩
      rw [hnick]
    next =>
      split
      next heq =>
        have hlose : MonitorsOk (s.loseNick p old) none :=
          h.lose hc hne fun hsv => Or.inr (hnick ▸ htie p old hfind heq hsv)
        exact ⟨fun _ => hlose, none, Or.inl rfl, hlose⟩
      next => exact ⟨fun _ => h, none, Or.inl rfl, h⟩

theorem handleUid_told (h : MonitorsOk s none) (nick uid : Text) (ts : Int) (svc : Bool)
    (hfair : s.Fair (.uid nick uid ts svc)) : MonitorsOk (s.handleUid nick uid ts svc) none := by
  unfold Monitors.handleUid
  split
  next => exact h
  next hline =>
    rw [not_or, not_or, Bool.not_eq_false, not_not, Option.not_isSome_iff_eq_none] at hline
    obtain ⟨hvalid, hlen, hnew⟩ := hline
    obtain ⟨hnone, lost, hlost, hr⟩ :=
      resolveCollision_told h nick ts (hfair hvalid hlen hnew)
    have hfold := casefold_ne_nil_of_valid hvalid
    simp only
    split
    next hwins =>
      obtain ⟨hnode, hproceed⟩ := resolveCollision_node s nick ts
      have hfree := (resolveCollision_ok h.node nick ts).2 (hproceed.symm.trans hwins)
      rw [← hnode] at hfree
      have hnick : ircCasefold nickLen (Conn.remoteUser nick uid ts svc).nick =
          ircCasefold nickLen nick := by
        rw [Conn.remoteUser, Conn.called, ircCasefold, clip_clip, ircCasefold]
      have hin := newcomer_ok (c := ⟨[], [], clip 10 uid, ts, true, true, true, true, svc, false⟩)
        hr.node hfold rfl hfree
      have hplace := hr.node.next_free
      generalize (s.resolveCollision nick ts).1 = r at hr hfree hin hplace ⊢
      have hen := hr.node.allocated.entered (c := Conn.remoteUser nick uid ts svc)
        (called_ok hfold rfl) hfold (Nat.lt_succ_self _) fun q _ => hfree q
      have hcame := hr.came (p := r.node.next) (d := Conn.remoteUser nick uid ts svc)
        (f := fun n => { n with next := n.next + 1 }.enter r.node.next
          (Conn.remoteUser nick uid ts svc)) rfl hen rfl hfold (hnick.symm ▸ hlost)
        fun e he => absurd (hplace.symm.trans he) (by simp)
      exact hcame.noted rfl hin
    next hfails => exact hnone (by simpa using hfails)

theorem handleNick_told (h : MonitorsOk s none) {uid : Text}
    (hfind : s.node.netsyncFindUid uid = some (p, c)) (hremote : c.remote = true) (newnick : Text)
    (ts : Int) (hfair : s.Fair (.remoteNick uid newnick ts)) :
    MonitorsOk (s.handleNick p c newnick ts) none := by
  have hc := of_netsyncFindUid hfind
  obtain ⟨hreg, hne, -⟩ := h.remote p c hc hremote
  have hgot := (h.node.conns p c hc).got (Or.inr hremote)
  have hok := handleNick_ok h.node hc hgot newnick ts
  unfold handleNick at hok
  unfold Monitors.handleNick
  split
  next => exact h
  next hvalid =>
    rw [if_neg hvalid] at hok
    rw [Bool.not_eq_false] at hvalid
    have hfold := casefold_ne_nil_of_valid hvalid
    have hnick : ircCasefold nickLen ((c.called newnick).dated ts).nick =
        ircCasefold nickLen newnick := by
      rw [Conn.dated, Conn.called, ircCasefold, clip_clip, ircCasefold]
    have hf : ∀ n : Node, ((n.hashDelFound p c).enter p ((c.called newnick).dated ts)).conns =
        Function.update n.conns p (some ((c.called newnick).dated ts)) := fun n => by
      rw [← (hashDelFound_frame n p c).1]
      rfl
    simp only at hok ⊢
    split
    next q clash hclash =>
      rw [hclash] at hok
      simp only at hok
      obtain ⟨hfound, hqp⟩ := Option.filter_eq_some_iff.mp hclash
      have hqp : q ≠ p := by simpa using hqp
      obtain ⟨hq, hqfold, hkey⟩ := h.node.of_serverFindUser hfound
      rw [Node.keyOf, hq, Option.bind_some] at hkey
      have hqne : clash.casefoldNick ≠ [] := hqfold ▸ (key_eq_some hkey).2
      have hqnick : ircCasefold nickLen clash.nick = ircCasefold nickLen newnick :=
        ((h.node.conns q clash hq).keyed hqne).symm.trans hqfold
      split
      next holder =>
        rw [if_pos holder] at hok
        have hlose : MonitorsOk (s.loseNick q clash) (some (ircCasefold nickLen newnick)) :=
          h.lose hq hqne fun _ => Or.inl (by rw [hqnick])
        have hc' : (s.loseNick q clash).node.conns p = some c := by
          rw [loseNick_node, loseNick_others _ _ hqp.symm]
          exact hc
        refine hlose.renamed hc' hne (hf _) (by rw [loseNick_node]; exact hok) hreg hfold rfl rfl
          (Or.inr ⟨?_, hremote⟩)
        rw [hnick]
      next hyounger =>
        refine h.removed hc (fun _ hsv _ => Or.inr ?_) fun _ _ hnil => absurd hnil hne
        exact hfair hvalid p c hfind hremote hsv q clash hfound hqp (by omega)
    next hnone =>
      rw [hnone] at hok
      exact h.renamed hc hne (hf _) hok hreg hfold rfl rfl (Or.inl rfl)

end Table

/-! ## 8. Runs keep the beliefs good -/

/-- `cmd_nick` makes the same choice with and without those who watch. -/
theorem cmdNick_node (s : Monitors) (p : Nat) (c : Conn) (newnick : Text) (barred : Bool)
    (now : Int) :
    (s.cmdNick p c newnick barred now).node = SekurIRCd.cmdNick s.node p c newnick barred now := by
  unfold Monitors.cmdNick SekurIRCd.cmdNick
  iterate 6
    rw [apply_ite Monitors.node]
    refine ite_congr rfl (fun _ => rfl) fun _ => ?_
  rfl

/-- The table is changed as if no one were watching. -/
theorem nodeEvent_node (s : Monitors) (e : NodeEvent) : (s.nodeEvent e).node = nodeStep s.node e := by
  cases e with
  | nick p newnick barred now =>
    simp only [Monitors.nodeEvent, nodeStep, Monitors.dispatch, Node.dispatch]
    cases s.node.conns p with
    | none => rfl
    | some c =>
      dsimp only
      rw [apply_ite Monitors.node]
      exact ite_congr rfl (fun _ => rfl) fun _ => cmdNick_node s p c newnick barred now
  | ready p uid klined now =>
    simp only [Monitors.nodeEvent, nodeStep]
    cases s.node.conns p with
    | none => rfl
    | some c =>
      simp only [Monitors.cmdSendWelcomeIfReady, cmdSendWelcomeIfReady]
      split_ifs <;> rfl
  | sanick nick newnick now =>
    simp only [Monitors.nodeEvent, nodeStep]
    cases s.node.serverFindUser nick with
    | none => rfl
    | some x =>
      simp only [Monitors.forceNickChange, forceNickChange]
      split_ifs <;> rfl
  | svsnick id newnick now =>
    simp only [Monitors.nodeEvent, nodeStep]
    cases svcTarget s.node id with
    | none => rfl
    | some x =>
      simp only [Monitors.forceNickChange, forceNickChange]
      split_ifs <;> rfl
  | uid nick uid ts svc =>
    obtain ⟨hnode, hproceed⟩ := resolveCollision_node s nick ts
    simp only [Monitors.nodeEvent, nodeStep, Monitors.handleUid, Node.handleUid, hproceed,
      ← hnode]
    split_ifs <;> rfl
  | remoteNick uid newnick ts =>
    simp only [Monitors.nodeEvent, nodeStep]
    cases (s.node.netsyncFindUid uid).filter fun x => x.2.remote with
    | none => rfl
    | some x =>
      simp only [Monitors.handleNick, handleNick, Monitors.serverRemoveClient]
      cases (s.node.serverFindUser newnick).filter fun y => y.1 != x.1 with
      | none => split_ifs <;> rfl
      | some y =>
        simp only [← loseNick_node]
        split_ifs <;> rfl
  | remove p =>
    simp only [Monitors.nodeEvent, nodeStep]
    cases s.node.conns p with
    | none => rfl
    | some c =>
      simp only [Monitors.serverRemoveClient]
      split_ifs <;> rfl
  | connect => rfl
  | user p => rfl
  | service nick uid now => rfl
  | markQuit p => rfl
  | linkUp => rfl

theorem monitorAdd_node (w : Nat) (ts : List Text) :
    ∀ s : Monitors, (Monitors.monitorAdd w s ts).node = s.node := by
  induction ts with
  | nil => exact fun _ => rfl
  | cons t ts ih =>
    intro s
    rw [Monitors.monitorAdd]
    split
    · rfl
    · rw [ih, Monitors.status_node, Monitors.watch_eq]
      rfl

theorem monitorImpl_node (s : Monitors) (w : Nat) (params : List Text) :
    (s.monitorImpl w params).node = s.node := by
  have hfold : ∀ (f : Monitors → Text → Monitors), (∀ u t, (f u t).node = u.node) →
      ∀ (ts : List Text) (u : Monitors), (ts.foldl f u).node = u.node := by
    intro f hf ts
    induction ts with
    | nil => exact fun _ => rfl
    | cons t ts ih => exact fun u => (ih _).trans (hf u t)
  simp only [Monitors.monitorImpl]
  split_ifs
  · rfl
  · exact hfold (fun u t => u.monitorDiscard w (ircCasefold nickLen t)) (fun _ _ => rfl) _ s
  · exact monitorAdd_node w _ s
  · rfl
  · exact hfold _ (fun u t => u.status_node w t) _ s
  · rfl

theorem monitorAdd_monitor (w : Nat) (ts : List Text) :
    ∀ s : Monitors, (Monitors.monitorAdd w s ts).monitor w = monitorListAdd (s.monitor w) ts := by
  induction ts with
  | nil => exact fun _ => rfl
  | cons t ts ih =>
    intro s
    rw [Monitors.monitorAdd, monitorListAdd]
    split
    · rfl
    · rw [ih, Monitors.status_monitor, Monitors.watch_eq, Monitors.withList_monitor]

/-- **MONITOR edits the list of the client as it should**; what it shows changes no list. -/
theorem monitorImpl_list (s : Monitors) (w : Nat) (params : List Text) :
    (s.monitorImpl w params).monitor w = monitorList (s.monitor w) params := by
  have hdiscard : ∀ (ts : List Text) (u : Monitors),
      (ts.foldl (fun s t => s.monitorDiscard w (ircCasefold nickLen t)) u).monitor w =
        ts.foldl (fun l t => l.erase (ircCasefold nickLen t)) (u.monitor w) := by
    intro ts
    induction ts with
    | nil => exact fun _ => rfl
    | cons t ts ih =>
      intro u
      have hfront : (u.monitorDiscard w (ircCasefold nickLen t)).monitor w =
          (u.monitor w).erase (ircCasefold nickLen t) := Function.update_self ..
      rw [List.foldl_cons, ih, hfront, List.foldl_cons]
  have hstatus : ∀ (ts : List Text) (u : Monitors),
      (ts.foldl (fun s t => s.status w t) u).monitor = u.monitor := by
    intro ts
    induction ts with
    | nil => exact fun _ => rfl
    | cons t ts ih => exact fun u => (ih _).trans (u.status_monitor w t)
  simp only [Monitors.monitorImpl, monitorList]
  split
  · split
    · rfl
    · split
      · exact hdiscard _ s
      · exact monitorAdd_monitor w _ s
  · split
    · exact Function.update_self ..
    · split
      · rw [hstatus]
      · rfl

/-- What an event does to the table of nicks. -/
def MonitorEvent.table : MonitorEvent → List NodeEvent
  | .node e => [e]
  | .monitor .. => []

/-- **The table of nicks runs as it does without MONITOR.** -/
theorem monitor_run_node (es : List MonitorEvent) : ∀ s : Monitors,
    (es.foldl monitorStep s).node = (es.flatMap MonitorEvent.table).foldl nodeStep s.node := by
  induction es with
  | nil => exact fun _ => rfl
  | cons e es ih =>
    intro s
    rw [List.foldl_cons, ih, List.flatMap_cons, List.foldl_append]
    congr 1
    cases e with
    | node e => exact nodeEvent_node s e
    | monitor p params =>
      simp only [monitorStep, Monitors.dispatch, MonitorEvent.table]
      split
      · split_ifs
        · rfl
        · exact monitorImpl_node ..
        · rfl
      · rfl

theorem sendBurst_conns (s : Node) : (sendBurst s).conns = s.conns := by
  have hall : ∀ (xs : List (Nat × Conn)) (t : Node),
      (xs.foldl (fun s x => if x.2.uid ≠ [] then s.sendUidLine x.1 x.2 else s) t).conns =
        t.conns := by
    intro xs
    induction xs with
    | nil => exact fun _ => rfl
    | cons x xs ih =>
      intro t
      rw [List.foldl_cons, ih]
      split <;> rfl
  exact hall _ s

theorem monitors_start_ok (n : Nat) : MonitorsOk (Monitors.start n) none where
  node := start_ok n
  remote := fun _ _ h => absurd h (by simp [Monitors.start, Node.start])
  gone := fun _ _ => rfl
  told := fun _ _ _ hk => absurd hk List.not_mem_nil

/-- **A change of the table that misleads no one keeps the beliefs good.** -/
theorem nodeEvent_told (s : Monitors) (e : NodeEvent) (h : MonitorsOk s none)
    (hkeep : KeepsOut s.node e) (hfair : s.Fair e) : MonitorsOk (s.nodeEvent e) none := by
  have hok := nodeStep_ok s.node e h.node hkeep
  cases e with
  | connect =>
    simp only [Monitors.nodeEvent]
    have hfree := h.node.next_free
    have hp : (nodeStep s.node .connect).conns s.node.next =
        some ⟨[], [], [], 0, false, false, false, false, false, false⟩ := Function.update_self ..
    refine h.announced (p := s.node.next) (.quiet fun q hq => Function.update_of_ne hq ..) hok
      (fun d hd hr => ?_) (fun hnone => absurd (hp.symm.trans hnone) (by simp)) (fun _ k hk => ?_)
      fun w _ _ k _ => .of_silent (fun ⟨c, hc, _⟩ => ?_) fun hh => ?_
    · obtain rfl := Option.some.inj (hp.symm.trans hd)
      exact absurd hr (by simp)
    · have hk : k ∈ s.monitor s.node.next := hk
      rw [h.gone _ hfree] at hk
      exact absurd hk List.not_mem_nil
    · exact absurd (hfree.symm.trans hc) (by simp)
    · exact absurd ((holds_iff hp).mp hh).1 (by simp)
  | nick p newnick barred now =>
    simp only [Monitors.nodeEvent, Monitors.dispatch]
    split
    next c hc =>
      split
      next => exact h
      next hgo =>
        simp only [Bool.or_eq_true, not_or, Bool.not_eq_true] at hgo
        exact cmdNick_told h hc hgo.1.1 newnick barred now
    next => exact h
  | user p =>
    simp only [Monitors.nodeEvent]
    cases hc : s.node.conns p with
    | none => exact h.noted (by simp [nodeStep, Node.dispatch, hc]) hok
    | some c =>
      by_cases hgo : (c.quitting || c.remote || c.isService) = true ∨ c.registered = true
      · refine h.noted ?_ hok
        rcases hgo with hgo | hgo <;> simp [nodeStep, Node.dispatch, hc, hgo]
      · have hf : (nodeStep s.node (.user p)).conns =
            Function.update s.node.conns p (some { c with gotUser := true }) := by
          rw [not_or] at hgo
          simp [nodeStep, Node.dispatch, hc, hgo.1, hgo.2, Node.write]
        have hp := congrFun hf p
        rw [Function.update_self] at hp
        refine h.silent hc hf hok rfl rfl id id (fun k hs => ?_) fun k hh => ?_
        · exact (seems_iff hp).mpr ((seems_iff hc).mp hs)
        · exact (holds_iff hc).mpr ((holds_iff hp).mp hh)
  | ready p uid klined now =>
    simp only [Monitors.nodeEvent]
    split
    next c hc => exact cmdSendWelcomeIfReady_told h hc uid klined now (hkeep c hc)
    next => exact h
  | sanick nick newnick now =>
    simp only [Monitors.nodeEvent]
    split
    next p c hfind =>
      obtain ⟨hc, -, hkey⟩ := h.node.of_serverFindUser hfind
      split
      next => exact h
      next hgo =>
        simp only [Bool.or_eq_true, not_or, decide_eq_true_eq, Bool.not_eq_false] at hgo
        refine forceNickChange_told h hc hgo.1.1 newnick now fun _ hnil => ?_
        rw [Node.keyOf, hc, Option.bind_some, Conn.key, if_pos hnil] at hkey
        exact absurd hkey (by simp)
    next => exact h
  | svsnick id newnick now =>
    simp only [Monitors.nodeEvent]
    split
    next p c hid =>
      split
      next hreg =>
        exact forceNickChange_told h (of_svcTarget h.node hid) hreg newnick now
          (hkeep p c hid hreg)
      next => exact h
    next => exact h
  | uid nick uid ts svc => exact handleUid_told h nick uid ts svc hfair
  | remoteNick uid newnick ts =>
    simp only [Monitors.nodeEvent]
    split
    next p u hfind =>
      obtain ⟨hfind, hremote⟩ := Option.filter_eq_some_iff.mp hfind
      exact handleNick_told h hfind hremote newnick ts hfair
    next => exact h
  | service nick uid now =>
    simp only [Monitors.nodeEvent]
    cases hfind : s.node.serverFindUser nick with
    | some x => exact h.noted (by simp [nodeStep, svcNick, hfind]) hok
    | none =>
      have hfree := h.node.next_free
      have hf : (nodeStep s.node (.service nick uid now)).conns = Function.update s.node.conns
          s.node.next (some (Conn.called ⟨[], [], uid, now, true, true, true, false, true, false⟩
            nick)) := by
        simp [nodeStep, svcNick, hfind, Node.enter, Node.write, Node.serverAddUser,
          Node.sendUidLine]
      have hp := congrFun hf s.node.next
      rw [Function.update_self] at hp
      refine h.announced (p := s.node.next) (.quiet fun q hq => by
          rw [hf, Function.update_of_ne hq]) hok (fun d hd hr => ?_)
        (fun hnone => absurd (hp.symm.trans hnone) (by simp)) (fun _ k hk => ?_)
        fun w hw hl k hk => .of_silent (fun ⟨c, hc, _⟩ => ?_) fun hh => ?_
      · obtain rfl := Option.some.inj (hp.symm.trans hd)
        exact absurd hr (by simp [Conn.called])
      · have hk : k ∈ s.monitor s.node.next := hk
        rw [h.gone _ hfree] at hk
        exact absurd hk List.not_mem_nil
      · exact absurd (hfree.symm.trans hc) (by simp)
      · -- no one watches the nick
        have hkey : ircCasefold nickLen nick = k := (key_eq_some ((holds_iff hp).mp hh).2).1
        exact absurd ⟨w, hw, hl, hkey ▸ hk⟩ (hfair hfind)
  | markQuit p =>
    simp only [Monitors.nodeEvent]
    cases hc : s.node.conns p with
    | none => exact h.noted (by simp [nodeStep, hc]) hok
    | some c =>
      have hf : (nodeStep s.node (.markQuit p)).conns =
          Function.update s.node.conns p (some { c with quitting := true }) := by
        simp [nodeStep, hc, Node.write]
      have hp := congrFun hf p
      rw [Function.update_self] at hp
      refine h.silent hc hf hok rfl rfl id (fun hq => absurd hq (by simp)) (fun k hs => ?_)
        fun k hh => ?_
      · exact (seems_iff hp).mpr ((seems_iff hc).mp hs)
      · exact (holds_iff hc).mpr ((holds_iff hp).mp hh)
  | remove p =>
    simp only [Monitors.nodeEvent]
    split
    next c hc =>
      exact h.removed hc (fun hr hsv hne => Or.inr ((hfair c hc hr).1 hsv hne))
        fun hr hsv hnil => (hfair c hc hr).2 hsv hnil
    next => exact h
  | linkUp => exact h.noted (sendBurst_conns s.node) hok

/-- **An event under the condition keeps the beliefs good.** -/
theorem monitorStep_told (s : Monitors) (e : MonitorEvent) (h : MonitorsOk s none)
    (he : Truthful s e) : MonitorsOk (monitorStep s e) none := by
  cases e with
  | node e => exact nodeEvent_told s e h he.1 he.2
  | monitor p params =>
    simp only [monitorStep, Monitors.dispatch]
    split
    next c hc =>
      split
      next => exact h
      next hgo =>
        simp only [Bool.or_eq_true, not_or, Bool.not_eq_true] at hgo
        obtain ⟨⟨hquit, hremote⟩, hservice⟩ := hgo
        split
        next hreg =>
          refine monitorImpl_told h (by simp [Monitors.listening, hc, hquit]) (fun d hd => ?_)
            fun d hd => ?_
          · obtain rfl := Option.some.inj (hc.symm.trans hd)
            exact hremote
          · obtain rfl := Option.some.inj (hc.symm.trans hd)
            exact he c hc hquit hreg hremote hservice
        next => exact h
    next => exact h

/-- When no one is quitting, whoever watchers see under a nick has it. -/
theorem NodeOk.holds_of_seems {s : Node} (h : NodeOk s)
    (hquit : ∀ q c, s.conns q = some c → c.quitting = false) {q : Nat} {k : Text}
    (hs : s.Seems q k) : s.Holds q k := by
  obtain ⟨c, hc, hr, hk, -⟩ := hs
  have hok := h.conns q c hc
  have hne := hok.held (hquit q c hc) (hok.got (Or.inl hr))
  exact ⟨c, hc, hr, by rw [key_of_ne hne, hok.keyed hne, hk]⟩

/-- **MONITOR tells the truth**: after every run under the condition, once no client is quitting,
what a client was last told of a nick on its list is whether another registered client has it. The
notices are compared with the table of nicks, which the same steps change. -/
theorem monitor_tells_truth (n : Nat) (es : List MonitorEvent)
    (h : Runs.Throughout monitorStep Truthful (Monitors.start n) es)
    (hquit : ∀ q c, (es.foldl monitorStep (Monitors.start n)).node.conns q = some c →
      c.quitting = false)
    (w : Nat) (k : Text) (hk : k ∈ (es.foldl monitorStep (Monitors.start n)).monitor w) :
    (es.foldl monitorStep (Monitors.start n)).lastNotice w k =
      some ((es.foldl monitorStep (Monitors.start n)).heldByAnother w k) := by
  have hok := Runs.invariant_of_step monitorStep_told es _ (monitors_start_ok n) h
  generalize es.foldl monitorStep (Monitors.start n) = s at hok hquit hk ⊢
  have hl : s.listening w = true := by
    cases hc : s.node.conns w with
    | none =>
      rw [hok.gone w hc] at hk
      exact absurd hk List.not_mem_nil
    | some c => simp [Monitors.listening, hc, hquit w c hc]
  have hb := hok.told w hl k hk
  have hexact := hb.exact fun hm => by
    obtain ⟨q, hq, hs⟩ := hm.resolve_left (by simp)
    exact ⟨q, hq, hok.node.holds_of_seems hquit hs⟩
  cases hheld : s.heldByAnother w k with
  | true =>
    refine hexact.mpr ?_
    simp only [Monitors.heldByAnother, Option.any_eq_true, Bool.and_eq_true, bne_iff_ne] at hheld
    obtain ⟨q, hfound, hqw, c, hc, hr⟩ := hheld
    have hkey := hok.node.users.lookup_some hfound
    rw [Node.keyOf, hc, Option.bind_some] at hkey
    exact ⟨q, hqw, c, hc, hr, hkey⟩
  | false =>
    cases hlast : s.lastNotice w k with
    | none => exact absurd hlast hb.known
    | some b =>
      cases b with
      | false => rfl
      | true =>
        obtain ⟨q, hq, hh⟩ := hexact.mp hlast
        rw [hok.node.heldByAnother_of hq hh] at hheld
        exact absurd hheld (by simp)

/-- A client connects and registers. -/
def joins (p : Nat) (nick uid : String) : List MonitorEvent :=
  [.node .connect, .node (.nick p nick.toList false 100), .node (.user p),
    .node (.ready p uid.toList false 100)]

/-- Bob waits for Alice, and she comes. -/
def demoWatch : List MonitorEvent :=
  joins 0 "bob" "001AAAAAA" ++ [.monitor 0 ["+".toList, "Alice".toList]] ++
    joins 1 "alice" "001AAAAAB"

theorem monitor_tells_truth_demo :
    (demoWatch.foldl monitorStep (Monitors.start 30)).lastNotice 0 "alice".toList =
      some ((demoWatch.foldl monitorStep (Monitors.start 30)).heldByAnother 0 "alice".toList) := by
  refine monitor_tells_truth 30 demoWatch ⟨⟨trivial, trivial⟩, ⟨trivial, trivial⟩,
    ⟨trivial, trivial⟩, ⟨?_, trivial⟩, ?_, ⟨trivial, trivial⟩, ⟨trivial, trivial⟩,
    ⟨trivial, trivial⟩, ⟨?_, trivial⟩, trivial⟩ (fun q c hc => ?_) 0 _ (by decide +kernel)
  · intro c hc _ _ _ _
    obtain rfl := Option.some.inj hc
    decide
  · intro c hc _ _ _ _
    obtain rfl := Option.some.inj hc
    decide +kernel
  · intro c hc _ _ _ _
    obtain rfl := Option.some.inj hc
    decide
  · match q with
    | 0 => exact (Option.some.inj hc) ▸ rfl
    | 1 => exact (Option.some.inj hc) ▸ rfl
    | q + 2 => exact absurd (show (none : Option Conn) = some c from hc) (by simp)

/-- A user of another server who had Alice's nick before her evicts her, and her teardown is the
last that Bob hears of the nick. -/
theorem evicted_misleads : ¬ ∀ es : List MonitorEvent,
    (∀ q c, (es.foldl monitorStep (Monitors.start 30)).node.conns q = some c →
      c.quitting = false) →
    ∀ w k, k ∈ (es.foldl monitorStep (Monitors.start 30)).monitor w →
      (es.foldl monitorStep (Monitors.start 30)).lastNotice w k =
        some ((es.foldl monitorStep (Monitors.start 30)).heldByAnother w k) := by
  intro h
  have hrun := h (demoWatch ++ [.node (.uid "alice".toList "002AAAAAA".toList 50 false),
    .node (.remove 1)]) (fun q c hc => ?_) 0 "alice".toList (by decide +kernel)
  · exact absurd hrun (by decide +kernel)
  · match q with
    | 0 => exact (Option.some.inj hc) ▸ rfl
    | 1 => exact absurd (show (none : Option Conn) = some c from hc) (by simp)
    | 2 => exact (Option.some.inj hc) ▸ rfl
    | q + 3 => exact absurd (show (none : Option Conn) = some c from hc) (by simp)

end SekurIRCd
