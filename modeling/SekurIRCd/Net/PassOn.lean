/-
# Lines that are passed on

WALLOPS and GLOBOPS go to every server (`flood`: to every link but the one a line came along), and
a question to one server (RQUERY: WHOIS, VERSION and the like) and its answers (PUSH) go to one
server each (`routeTo`: along the link the table names for it).  Every server builds the line anew,
and none keeps a record of what it has passed on: that nothing is lost, doubled or goes in circles
is a matter of the links forming a tree and of the tables agreeing with it (`Steady`).

`wallops_reach_all` and `answers_return` say so for any number of servers, any tree and any
interleaving of senders and links: the lines are those of `Relay.treeRoutes`, step by step
(`Sim.step`).

What a command of another server replies is a parameter, one list of lines for each asker and
question.  A link is taken to stay up, and its queue to have room.
-/
import SekurIRCd.Lib.Relay
import SekurIRCd.Net.Lines

namespace SekurIRCd

open CLib Relay

/-! ## 1. One server

A server knows its neighbours as links and all servers with the link that leads to them. `flood`
sends to all links but one, `route_to` to one. -/

/-- `server_t`, as far as such lines read it.  A link is known by the SID of its peer; `route`
holds that of each entry of the server table, `wallops` the UIDs of the local users with `+w`. -/
structure RelayServer where
  srv : Server
  links : List Text
  route : List (Text × Text)
  wallops : List Text

/-- What is sent to whom: to a link's peer or to a user. -/
abbrev Sendings := List (Text × Text)

/-- `flood`. -/
def flood (s : RelayServer) (except : Option Text) (line : Text) : Sendings :=
  (s.links.filter fun l => some l != except).map fun l => (l, line)

/-- `route_to`. -/
def routeTo (s : RelayServer) (dest line : Text) : Sendings :=
  ((s.route.lookup dest).filter fun l => s.links.contains l).toList.map fun l => (l, line)

/-- The two verbs of `handle_wallops`. -/
def wallopsVerb (globops : Bool) : Text := if globops then "GLOBOPS".toList else "WALLOPS".toList

/-- The line for the local users that want it. -/
def wallopsLocal (s : RelayServer) (cl : Client) (globops : Bool) (text : Text) : Sendings :=
  let line := (ircBuild 600 [] (some (clientSource cl)) (wallopsVerb globops) [] (some text)).text
  (s.srv.users.clients.filter fun u =>
    !u.remote && if globops then u.oper else s.wallops.contains u.uid).map fun u => (u.uid, line)

/-- `netsync_wallops`. -/
def netsyncWallops (s : RelayServer) (cl : Client) (globops : Bool) (text : Text) : Sendings :=
  if cl.uid = [] then []
  else flood s none (ircBuild 600 [] (some cl.uid) (wallopsVerb globops) [] (some text)).text

/-- `handle_wallops`: what the users are sent, and the links. -/
def handleWallops (s : RelayServer) (peer : Text) (msg : IrcMessage) : Sendings × Sendings :=
  match srcUser s.srv peer msg.pfx, msg.params.getLast? with
  | some u, some text =>
    let globops := caseEq msg.command "GLOBOPS".toList
    (wallopsLocal s u globops text, flood s (some peer)
      (ircBuild 600 [] (some u.uid) (wallopsVerb globops) [] (some text)).text)
  | _, _ => ([], [])

/-- `netsync_push`. -/
def netsyncPush (s : RelayServer) (target : Client) (raw : Text) : Sendings :=
  if target.remote = false then []
  else routeTo s target.nserver
    (ircBuild 900 [] (some s.srv.sid) "PUSH".toList [target.uid] (some raw)).text

/-- `handle_push`: what a user is sent, and the links. -/
def handlePush (s : RelayServer) (msg : IrcMessage) : Sendings × Sendings :=
  match msg.params with
  | uid :: p :: ps =>
    match netsyncFindUid s.srv.users.clients uid with
    | some target =>
      let raw := (p :: ps).getLastD []
      if target.remote = false then ([(target.uid, raw)], [])
      else
        ([], routeTo s target.nserver
          (ircBuild 900 [] msg.pfx "PUSH".toList [uid] (some raw)).text)
    | none => ([], [])
  | _ => ([], [])

/-- The commands that `handle_rquery` runs for a user elsewhere. -/
def rqueryCommands : List Text :=
  ["WHOIS".toList, "VERSION".toList, "TIME".toList, "ADMIN".toList, "MOTD".toList, "INFO".toList]

/-- What a command replies to a user elsewhere: the lines of `client_reply`. -/
abbrev Replies := Client → Text → List Text → List Text

/-- `handle_rquery`. -/
def handleRquery (replies : Replies) (s : RelayServer) (peer : Text) (msg : IrcMessage) :
    Sendings :=
  match srcUser s.srv peer msg.pfx, msg.params with
  | some u, dest :: verb :: args =>
    match netsyncFindSid s.srv dest with
    | none => []
    | some d =>
      if d.sid ≠ s.srv.sid then
        routeTo s d.sid (ircBuild 600 [] (some u.uid) "RQUERY".toList msg.params none).text
      else
        match rqueryCommands.find? fun name => caseEq verb name with
        | some name =>
          if name = "WHOIS".toList ∧ args.length ≠ 1 then []
          else (replies u name args).flatMap (netsyncPush s u)
        | none => []
  | _, _ => []

/-- `netsync_rquery`. -/
def netsyncRquery (s : RelayServer) (cl : Client) (dest verb : Text) (args : List Text) :
    Sendings :=
  if cl.uid = [] ∨ dest = s.srv.sid then []
  else
    routeTo s dest
      (ircBuild 600 [] (some cl.uid) "RQUERY".toList (dest :: verb :: args) none).text

/-- What handling a line leads to. -/
structure PassHandled where
  shown : Sendings
  answered : Sendings
  out : Sendings

/-- `netsync_handle`, for these lines. -/
def handlePassed (replies : Replies) (s : RelayServer) (peer line : Text) : PassHandled :=
  match ircParseLine line with
  | none => ⟨[], [], []⟩
  | some msg =>
    if msg.command = "PUSH".toList then
      let r := handlePush s msg
      ⟨[], r.1, r.2⟩
    else if msg.command = "WALLOPS".toList ∨ msg.command = "GLOBOPS".toList then
      let r := handleWallops s peer msg
      ⟨r.1, [], r.2⟩
    else if msg.command = "RQUERY".toList then ⟨[], [], handleRquery replies s peer msg⟩
    else ⟨[], [], []⟩

/-! ## 2. The network -/

/-- The lines on their way from each server to each other, and what the users of each have been
sent: WALLOPS and GLOBOPS, and answers. -/
structure RelayNet (V : Type*) where
  wire : V → V → List Text
  shown : V → Sendings
  answered : V → Sendings

variable {V : Type*}

/-- A local user sends a WALLOPS or a GLOBOPS (`cmd_wallops`, `cmd_globops`) or asks another
server; or the oldest line on a link arrives. -/
inductive RelayEvent (V : Type*)
  | wallops (v : V) (cl : Client) (globops : Bool) (text : Text)
  | query (v : V) (cl : Client) (dest verb : Text) (args : List Text)
  | arrive (u v : V)

variable (net : V → RelayServer) (replies : V → Replies)

namespace RelayNet

def start : RelayNet V := ⟨fun _ _ => [], fun _ => [], fun _ => []⟩

/-- Nothing is on its way. -/
def Quiet (n : RelayNet V) : Prop := ∀ u v, n.wire u v = []

end RelayNet

section Runs

variable [DecidableEq V]

namespace RelayNet

/-- `v` sends lines to the peers they are for. -/
def send (n : RelayNet V) (sid : V → Text) (v : V) (out : Sendings) : RelayNet V :=
  { n with wire := fun a b =>
      if a = v then n.wire a b ++ (out.filter fun x => x.1 = sid b).map Prod.snd else n.wire a b }

/-- The users of `v` are sent lines. -/
def tell (n : RelayNet V) (v : V) (shown answered : Sendings) : RelayNet V :=
  { n with
    shown := fun a => if a = v then n.shown a ++ shown else n.shown a
    answered := fun a => if a = v then n.answered a ++ answered else n.answered a }

end RelayNet

def relayStep (n : RelayNet V) : RelayEvent V → RelayNet V
  | .wallops v cl globops text =>
    (n.tell v (wallopsLocal (net v) cl globops text) []).send (fun w => (net w).srv.sid) v
      (netsyncWallops (net v) cl globops text)
  | .query v cl dest verb args =>
    n.send (fun w => (net w).srv.sid) v (netsyncRquery (net v) cl dest verb args)
  | .arrive u v =>
    match n.wire u v with
    | [] => n
    | line :: rest =>
      let r := handlePassed (replies v) (net v) (net u).srv.sid line
      let n := { n with wire := fun a b => if a = u ∧ b = v then rest else n.wire a b }
      (n.tell v r.shown r.answered).send (fun w => (net w).srv.sid) v r.out

def relayRun (es : List (RelayEvent V)) : RelayNet V :=
  es.foldl (relayStep net replies) RelayNet.start

end Runs

/-! ## 3. Tables that agree with the tree

That the tables agree with the tree is a condition on the start. None of the lines
changes a table. -/

/-- Every server knows every server and every user, and each link as the way to what lies behind
it. This is what linking leaves, and it stays so as long as nobody comes or goes. -/
structure Steady (G : SimpleGraph V) (home : Text → V) : Prop where
  sid_shape : ∀ v, SidShape (net v).srv.sid
  sid_inj : ∀ v w, (net v).srv.sid = (net w).srv.sid → v = w
  links_nodup : ∀ v, (net v).links.Nodup
  links : ∀ v s, s ∈ (net v).links ↔ ∃ w, G.Adj v w ∧ s = (net w).srv.sid
  found : ∀ v w, ∃ s, netsyncFindSid (net v).srv (net w).srv.sid = some s ∧ s.sid = (net w).srv.sid
  route : ∀ v w x, (net v).route.lookup (net w).srv.sid = some (net x).srv.sid ↔
    G.Adj v x ∧ G.dist x w + 1 = G.dist v w
  behind : ∀ v w x, G.Adj v x →
    (netsyncIsBehind (net v).srv (net w).srv.sid (net x).srv.sid = true ↔
    G.dist x w + 1 = G.dist v w)
  uid_shape : ∀ v, ∀ u ∈ (net v).srv.users.clients, u.uid ≠ [] → UidShape u.uid
  known : ∀ v w, ∀ u ∈ (net v).srv.users.clients, u.uid ≠ [] →
    ∃ u' ∈ (net w).srv.users.clients, u'.uid = u.uid
  nserver : ∀ v, ∀ u ∈ (net v).srv.users.clients, u.uid ≠ [] →
    u.nserver = (net (home u.uid)).srv.sid
  remote : ∀ v, ∀ u ∈ (net v).srv.users.clients, u.uid ≠ [] → (u.remote = true ↔ home u.uid ≠ v)

/-- What the senders of the model do: a local user sends; a question is one that the server asks,
to another server, and fits a line. -/
def RelayEvent.Sound : RelayEvent V → Prop
  | .wallops v cl _ _ => cl ∈ (net v).srv.users.clients ∧ cl.uid ≠ [] ∧ cl.remote = false
  | .query v cl dest verb args => cl ∈ (net v).srv.users.clients ∧ cl.uid ≠ [] ∧ cl.remote = false ∧
      (∃ w, w ≠ v ∧ dest = (net w).srv.sid) ∧ verb ∈ rqueryCommands ∧
      (verb = "WHOIS".toList → args.length = 1) ∧ args.length ≤ 1 ∧ (∀ a ∈ args, Plain a) ∧
      (ircLine cl.uid "RQUERY".toList (dest :: verb :: args)).length < 600
  | .arrive _ _ => True

/-! ## 4. The lines

A server that passes a line on parses it and builds it again. What it builds is the
line that came. -/

/-- What is left of trailing text in a line of `outsz` bytes. -/
def sentText (outsz : Nat) (pfx command : Text) (params : List Text) (t : Text) : Text :=
  (ircEscape 1024 t).take (outsz - 1 - (ircLine pfx command params ++ [' ', ':']).length)

theorem build_sentText {outsz : Nat} {pfx command : Text} {params : List Text}
    (hc : ircEscape 1024 command ≠ []) (h : (ircLine pfx command params).length + 2 < outsz)
    (t : Text) : (ircBuild outsz [] (some pfx) command params (some t)).text =
      ircLineTrailing pfx command params (sentText outsz pfx command params t) := by
  have hb : ircBuild outsz [] (some pfx) command params none = ⟨ircLine pfx command params, true⟩ :=
    ircBuild_of_fits hc (by omega)
  have hsplit : ircBuild outsz [] (some pfx) command params (some t) =
      appendTrailing outsz t (ircBuild outsz [] (some pfx) command params none) := rfl
  rw [hsplit, hb, appendTrailing,
    appendStr_of_fits (s := [' ', ':']) (t := ircLine pfx command params)
      (by simp only [List.length_cons, List.length_nil]; omega)]
  simp only [if_true, ircLineTrailing, sentText, ircEscape_take]
  simp

/-- What is left stays: the next server sends it on as it is. -/
theorem sentText_sentText (outsz : Nat) (pfx command : Text) (params : List Text) (t : Text) :
    sentText outsz pfx command params (sentText outsz pfx command params t) =
      sentText outsz pfx command params t := by
  rw [sentText, sentText, ircEscape_take, List.take_take, Nat.min_self]

/-- A line that is passed on, and between which servers. `o` is where it comes from, and `d` the
one it is for, if it is for one. -/
inductive Passing (V : Type*)
  | wallops (o : V) (globops : Bool) (uid text : Text)
  | rquery (o d : V) (uid verb : Text) (args : List Text)
  | push (o d : V) (uid raw : Text)

namespace Passing

/-- Whom it is for, and whether it is an answer. -/
def audience : Passing V → Audience V × Bool
  | .wallops o .. => (.all o, false)
  | .rquery o d .. => (.one o d, false)
  | .push o d .. => (.one o d, true)

/-- The line. -/
def line : Passing V → Text
  | .wallops _ globops uid text =>
    (ircBuild 600 [] (some uid) (wallopsVerb globops) [] (some text)).text
  | .rquery _ d uid verb args =>
    (ircBuild 600 [] (some uid) "RQUERY".toList ((net d).srv.sid :: verb :: args) none).text
  | .push o _ uid raw =>
    (ircBuild 900 [] (some (net o).srv.sid) "PUSH".toList [uid] (some raw)).text

/-- It names a user of the server it comes from or goes to, and a question is well formed. -/
def Good (home : Text → V) : Passing V → Prop
  | .wallops o _ uid _ => home uid = o ∧ UidShape uid ∧ ∃ u ∈ (net o).srv.users.clients, u.uid = uid
  | .rquery o d uid verb args => home uid = o ∧ o ≠ d ∧ UidShape uid ∧
      (∃ u ∈ (net o).srv.users.clients, u.uid = uid) ∧ verb ∈ rqueryCommands ∧
      (verb = "WHOIS".toList → args.length = 1) ∧ args.length ≤ 1 ∧ (∀ a ∈ args, Plain a) ∧
      (ircLine uid "RQUERY".toList ((net d).srv.sid :: verb :: args)).length < 600
  | .push o d uid _ => home uid = d ∧ o ≠ d ∧ UidShape uid ∧
      ∃ u ∈ (net o).srv.users.clients, u.uid = uid

end Passing

variable {net replies}

theorem wallopsVerb_command (globops : Bool) : Command (wallopsVerb globops) := by
  cases globops <;> decide

theorem rquery_words {verb : Text} (h : verb ∈ rqueryCommands) : Plain verb := by
  have hall : ∀ verb ∈ rqueryCommands, Plain verb := by decide
  exact hall verb h

/-- The room in a line with a UID or a SID for a source and at most a UID for a parameter. -/
theorem passing_room {pfx command : Text} (params : List Text) (hs : Source pfx)
    (hp : pfx.length ≤ 9) (hc : Command command) (hl : command.length ≤ 7)
    (hparams : ∀ p ∈ params, UidShape p) (hn : params.length ≤ 1) :
    (ircLine pfx command params).length + 2 < 600 := by
  have hplain : ∀ p ∈ params, Plain p := fun p h => (hparams p h).plain
  rw [sent_length hs hc hplain]
  match params, hparams, hn with
  | [], _, _ =>
    simp only [List.flatMap_nil, List.length_nil]
    omega
  | [p], hparams, _ =>
    have hlen := (hparams p (by simp)).length
    simp only [uidLen] at hlen
    simp only [List.flatMap_cons, List.flatMap_nil, List.append_nil, List.length_cons]
    omega

theorem SidShape.short {sid : Text} (h : SidShape sid) : sid.length ≤ 9 := by
  have hlen := h.length
  simp only [sidLen] at hlen
  omega

theorem UidShape.short {uid : Text} (h : UidShape uid) : uid.length ≤ 9 := by
  have hlen := h.length
  simp only [uidLen] at hlen
  omega

theorem SidShape.plain {sid : Text} (h : SidShape sid) : Plain sid := by
  have hlen := h.length
  have hs := h.source
  refine ⟨?_, ?_, hs.no_space, hs.no_cr, hs.no_lf, by simp only [sidLen] at hlen; omega⟩
  · rintro rfl
    exact absurd hlen (by decide)
  · rintro c hc rfl
    have hal := h.alnum ':' (List.mem_of_mem_head? hc)
    exact absurd hal (by decide)

theorem parse_wallops {uid : Text} (hu : UidShape uid) (globops : Bool) (text : Text) :
    ircParseLine (ircBuild 600 [] (some uid) (wallopsVerb globops) [] (some text)).text =
      some { tags := [], pfx := some uid, command := wallopsVerb globops
             params := [sentText 600 uid (wallopsVerb globops) [] text] } := by
  have hc := wallopsVerb_command globops
  have hl : (wallopsVerb globops).length ≤ 7 := by cases globops <;> decide
  have hroom := passing_room [] hu.source hu.short hc hl (by simp) (by simp)
  rw [build_sentText (by rw [hc.escape]; exact hc.ne_nil) hroom,
    ircParseLine_ircLineTrailing hu.source hc (by decide), sentText, ircEscape_take]
  rfl

theorem parse_push {sid uid : Text} (hs : SidShape sid) (hu : UidShape uid) (raw : Text) :
    ircParseLine (ircBuild 900 [] (some sid) "PUSH".toList [uid] (some raw)).text =
      some { tags := [], pfx := some sid, command := "PUSH".toList
             params := [uid, sentText 900 sid "PUSH".toList [uid] raw] } := by
  have hc : Command "PUSH".toList := by decide
  have hroom := passing_room [uid] hs.source hs.short hc (by decide) (by simpa using hu)
    (by simp)
  rw [build_sentText (by rw [hc.escape]; exact hc.ne_nil) (by omega),
    ircParseLine_ircLineTrailing hs.source hc (by simp [ircMaxParams]), sentText, ircEscape_take,
    map_mid_of_plain (by simpa using hu.plain)]
  rfl

theorem parse_rquery {uid sid verb : Text} {args : List Text} (hu : UidShape uid)
    (hs : SidShape sid)
    (hv : verb ∈ rqueryCommands) (ha : args.length ≤ 1) (hplain : ∀ a ∈ args, Plain a)
    (hfit : (ircLine uid "RQUERY".toList (sid :: verb :: args)).length < 600) :
    ircParseLine (ircBuild 600 [] (some uid) "RQUERY".toList (sid :: verb :: args) none).text =
      some { tags := [], pfx := some uid, command := "RQUERY".toList
             params := sid :: verb :: args } := by
  have hc : Command "RQUERY".toList := by decide
  have hp : ∀ p ∈ sid :: verb :: args, Plain p := by
    intro p hp
    rcases List.mem_cons.mp hp with rfl | hp
    · exact hs.plain
    · rcases List.mem_cons.mp hp with rfl | hp
      · exact rquery_words hv
      · exact hplain p hp
  rw [ircBuild_of_fits (by rw [hc.escape]; exact hc.ne_nil) hfit,
    ircParseLine_ircLine hu.source hc (by simp only [List.length_cons, ircMaxParams]; omega),
    map_mid_of_plain hp]

/-! ## 5. To whom a server sends

With tables that agree, `flood` and `route_to` are the neighbours in the tree and the next one on
the path. -/

/-- What of a server's sendings is for the server `b`. -/
def toPeer (net : V → RelayServer) (b : V) (out : Sendings) : List Text :=
  (out.filter fun x => x.1 = (net b).srv.sid).map Prod.snd

section Steady

variable {G : SimpleGraph V} (hG : G.IsTree) {home : Text → V} (h : Steady net G home)

include h

/-- A user that one server knows is found by every server. -/
theorem Steady.find {o : V} {uid : Text} (hu : ∃ u ∈ (net o).srv.users.clients, u.uid = uid)
    (hne : uid ≠ []) (v : V) : ∃ u ∈ (net v).srv.users.clients, u.uid = uid ∧
      netsyncFindUid (net v).srv.users.clients uid = some u := by
  obtain ⟨u, hu, rfl⟩ := hu
  obtain ⟨u', hu', huid⟩ := h.known o v u hu hne
  refine ⟨u', hu', huid, ?_⟩
  rw [← huid]
  exact (net v).srv.users.find_uid hu' (by rw [huid]; exact hne)

open Classical in
/-- `flood` sends to every neighbour but one. -/
theorem Steady.toPeer_flood (v b : V) (except : Option Text) (line : Text) :
    toPeer net b (flood (net v) except line) =
      if G.Adj v b ∧ except ≠ some (net b).srv.sid then [line] else [] := by
  have hmem : (net b).srv.sid ∈ (net v).links ↔ G.Adj v b := by
    rw [h.links]
    refine ⟨?_, fun hadj => ⟨b, hadj, rfl⟩⟩
    rintro ⟨w, hadj, hw⟩
    rwa [h.sid_inj b w hw]
  have hflood : toPeer net b (flood (net v) except line) =
      ((net v).links.filter fun l => l = (net b).srv.sid ∧ some l ≠ except).map fun _ => line := by
    simp only [toPeer, flood, List.filter_map, List.map_map, List.filter_filter]
    congr 1
    refine List.filter_congr fun l _ => ?_
    simp [bne, beq_eq_decide]
  rw [hflood]
  split
  next hc =>
    have hone : ((net v).links.filter fun l => l = (net b).srv.sid ∧ some l ≠ except) =
        [(net b).srv.sid] := by
      have hsame : ((net v).links.filter fun l => l = (net b).srv.sid ∧ some l ≠ except) =
          (net v).links.filter (· == (net b).srv.sid) := by
        refine List.filter_congr fun l _ => ?_
        by_cases hl : l = (net b).srv.sid
        · simp [hl, hc.2.symm]
        · simp [hl]
      rw [hsame, List.filter_beq, List.count_eq_one_of_mem (h.links_nodup v) (hmem.mpr hc.1),
        List.replicate_one]
    rw [hone]
    rfl
  next hc =>
    have hnone : ((net v).links.filter fun l => l = (net b).srv.sid ∧ some l ≠ except) = [] := by
      rw [List.filter_eq_nil_iff]
      intro l hl hp
      obtain ⟨rfl, hne⟩ := of_decide_eq_true hp
      exact hc ⟨hmem.mp hl, fun e => hne e.symm⟩
    rw [hnone]
    rfl

include hG in
open Classical in
/-- `route_to` sends to the neighbour nearest to the destination. -/
theorem Steady.toPeer_routeTo {v w : V} (hne : v ≠ w) (b : V) (line : Text) :
    toPeer net b (routeTo (net v) (net w).srv.sid line) =
      if G.Adj v b ∧ G.dist b w + 1 = G.dist v w then [line] else [] := by
  obtain ⟨x, hadj, hx⟩ := exists_nearer hG hne
  have hlook := (h.route v w x).mpr ⟨hadj, hx⟩
  have hlink : (net v).links.contains (net x).srv.sid = true :=
    List.contains_iff_mem.mpr ((h.links v _).mpr ⟨x, hadj, rfl⟩)
  have hout : routeTo (net v) (net w).srv.sid line = [((net x).srv.sid, line)] := by
    rw [routeTo, hlook, Option.filter_some, if_pos hlink]
    rfl
  have honly : G.Adj v b ∧ G.dist b w + 1 = G.dist v w ↔ b = x := by
    constructor
    · rintro ⟨hb, hd⟩
      refine nearer_unique hG (o := w) hb.symm hadj.symm ?_ ?_
      · rw [G.dist_comm (u := w), G.dist_comm (u := w), hd]
      · rw [G.dist_comm (u := w), G.dist_comm (u := w), hx]
    · rintro rfl
      exact ⟨hadj, hx⟩
  rw [hout]
  by_cases hb : b = x
  · rw [if_pos (honly.mpr hb), hb]
    simp [toPeer]
  · rw [if_neg fun hc => hb (honly.mp hc)]
    have hsid : (net x).srv.sid ≠ (net b).srv.sid := fun e => hb (h.sid_inj x b e).symm
    simp [toPeer, hsid]

/-- A line of a user arrives along the link toward the user: the server takes it for theirs. -/
theorem Steady.srcUser {o v x : V} {uid : Text} (hu : ∃ u ∈ (net o).srv.users.clients, u.uid = uid)
    (hne : uid ≠ []) (hadj : G.Adj v x) (hd : G.dist x (home uid) + 1 = G.dist v (home uid)) :
    ∃ u ∈ (net v).srv.users.clients, u.uid = uid ∧
      netsyncFindUid (net v).srv.users.clients uid = some u ∧
      srcUser (net v).srv (net x).srv.sid (some uid) = some u := by
  obtain ⟨u, hmem, huid, hfind⟩ := h.find hu hne v
  have hune : u.uid ≠ [] := by rw [huid]; exact hne
  have hremote : u.remote = true := by
    rw [h.remote v u hmem hune, huid]
    rintro rfl
    rw [SimpleGraph.dist_self] at hd
    omega
  have hbehind : netsyncIsBehind (net v).srv u.nserver (net x).srv.sid = true := by
    rw [h.nserver v u hmem hune, huid]
    exact (h.behind v (home uid) x hadj).mpr hd
  refine ⟨u, hmem, huid, hfind, ?_⟩
  rw [SekurIRCd.srcUser, Option.bind_some, hfind, Option.filter_some, hremote, hbehind]
  rfl

end Steady

/-! ## 6. The network carries messages along the tree

The messages of `Lib.Relay` are carried by these lines: for each wire and each log of the one there
is one of the other. -/

/-- What a server's users are sent of a WALLOPS or a GLOBOPS. -/
def shows [DecidableEq V] (net : V → RelayServer) (v : V) : Passing V → Sendings
  | .wallops o globops uid text =>
    match netsyncFindUid (net v).srv.users.clients uid with
    | some u => wallopsLocal (net v) u globops
        (if o = v then text else sentText 600 uid (wallopsVerb globops) [] text)
    | none => []
  | _ => []

/-- What a server's users are sent of an answer. -/
def answersTo [DecidableEq V] (net : V → RelayServer) (v : V) : Passing V → Sendings
  | .push o d uid raw =>
    if d = v then [(uid, sentText 900 (net o).srv.sid "PUSH".toList [uid] raw)] else []
  | _ => []

section Carried

variable [DecidableEq V] {G : SimpleGraph V} (hG : G.IsTree) {home : Text → V}

/-- The routes of the lines. -/
def passRoutes : Routes V (Audience V × Bool) := (treeRoutes hG).comap Prod.fst

variable (net home) in
/-- The network's wires and users, as seen from the messages. On each wire are the lines of the
messages on it, in their order, and what users were shown is what the messages passed
showed them. -/
structure Carried (m : Net V (Passing V)) (n : RelayNet V) : Prop where
  wire : ∀ u v, n.wire u v = (m.wire u v).map (Passing.line net)
  good : ∀ u v, ∀ x ∈ m.wire u v, x.Good net home
  shown : ∀ v, n.shown v = (m.passed v).flatMap (shows net v)
  answered : ∀ v, n.answered v = (m.passed v).flatMap (answersTo net v)

theorem carried_start : Carried net home (Net.start : Net V (Passing V)) RelayNet.start :=
  ⟨fun _ _ => rfl, fun _ _ _ hx => absurd hx List.not_mem_nil, fun _ => rfl, fun _ => rfl⟩

open Classical in
/-- A server that handles a message tells its users and the servers next to it. -/
theorem Carried.pass {m : Net V (Passing V)} {n : RelayNet V} (h : Carried net home m n) {v : V}
    {x : Passing V} (hgood : x.Good net home) (out : Sendings)
    (hout : ∀ b, toPeer net b out =
      if (passRoutes hG).next x.audience v b then [x.line net] else []) :
    Carried net home (m.pass (passRoutes hG) Passing.audience v x)
      ((n.tell v (shows net v x) (answersTo net v x)).send (fun w => (net w).srv.sid) v out) := by
  constructor
  · intro a b
    by_cases ha : a = v
    · subst ha
      have hsent : ((n.tell a (shows net a x) (answersTo net a x)).send
          (fun w => (net w).srv.sid) a out).wire a b = n.wire a b ++ toPeer net b out := if_pos rfl
      rw [hsent, hout, h.wire]
      by_cases hb : (passRoutes hG).next x.audience a b
      · rw [if_pos hb, Net.wire_pass_next hb, List.map_append, List.map_singleton]
      · rw [if_neg hb, Net.wire_pass_other fun e => hb e.2, List.append_nil]
    · have hsent : ((n.tell v (shows net v x) (answersTo net v x)).send
          (fun w => (net w).srv.sid) v out).wire a b = n.wire a b := if_neg ha
      rw [hsent, h.wire, Net.wire_pass_other fun e => ha e.1]
  · intro a b y hy
    by_cases hb : a = v ∧ (passRoutes hG).next x.audience v b
    · obtain ⟨rfl, hb⟩ := hb
      rw [Net.wire_pass_next hb] at hy
      rcases List.mem_append.mp hy with hy | hy
      · exact h.good a b y hy
      · rw [List.mem_singleton.mp hy]
        exact hgood
    · rw [Net.wire_pass_other hb] at hy
      exact h.good a b y hy
  · intro a
    by_cases ha : a = v
    · subst ha
      have htold : ((n.tell a (shows net a x) (answersTo net a x)).send
          (fun w => (net w).srv.sid) a out).shown a = n.shown a ++ shows net a x := if_pos rfl
      rw [htold, h.shown, Net.passed_pass_self, List.flatMap_append, List.flatMap_singleton]
    · have htold : ((n.tell v (shows net v x) (answersTo net v x)).send
          (fun w => (net w).srv.sid) v out).shown a = n.shown a := if_neg ha
      rw [htold, h.shown, Net.passed_pass_other ha]
  · intro a
    by_cases ha : a = v
    · subst ha
      have htold : ((n.tell a (shows net a x) (answersTo net a x)).send
          (fun w => (net w).srv.sid) a out).answered a = n.answered a ++ answersTo net a x :=
        if_pos rfl
      rw [htold, h.answered, Net.passed_pass_self, List.flatMap_append, List.flatMap_singleton]
    · have htold : ((n.tell v (shows net v x) (answersTo net v x)).send
          (fun w => (net w).srv.sid) v out).answered a = n.answered a := if_neg ha
      rw [htold, h.answered, Net.passed_pass_other ha]

theorem Carried.take {m : Net V (Passing V)} {n : RelayNet V} (h : Carried net home m n) {u v : V}
    {x : Passing V} {rest : List (Passing V)} (hw : m.wire u v = x :: rest) :
    Carried net home (m.setWire u v rest) { n with
      wire := fun a b => if a = u ∧ b = v then rest.map (Passing.line net) else n.wire a b } := by
  refine ⟨fun a b => ?_, fun a b y hy => ?_, h.shown, h.answered⟩
  · by_cases hab : a = u ∧ b = v
    · obtain ⟨rfl, rfl⟩ := hab
      rw [Net.wire_setWire_self]
      exact if_pos ⟨rfl, rfl⟩
    · rw [Net.wire_setWire_other rest hab, ← h.wire]
      exact if_neg hab
  · by_cases hab : a = u ∧ b = v
    · obtain ⟨rfl, rfl⟩ := hab
      rw [Net.wire_setWire_self] at hy
      exact h.good a b y (hw ▸ List.mem_cons_of_mem _ hy)
    · rw [Net.wire_setWire_other rest hab] at hy
      exact h.good a b y hy

end Carried

/-! ## 7. Handling one line -/

section Handle

variable [DecidableEq V] {G : SimpleGraph V} (hG : G.IsTree) {home : Text → V}
  (h : Steady net G home)

theorem wallopsVerb_eq (globops : Bool) : caseEq (wallopsVerb globops) "GLOBOPS".toList = globops ∧
    wallopsVerb globops ≠ "PUSH".toList ∧
    (wallopsVerb globops = "WALLOPS".toList ∨ wallopsVerb globops = "GLOBOPS".toList) := by
  cases globops <;> decide

/-- The line that is built again is the line that came. -/
theorem build_wallops_again {uid : Text} (hu : UidShape uid) (globops : Bool) (text : Text) :
    (ircBuild 600 [] (some uid) (wallopsVerb globops) []
        (some (sentText 600 uid (wallopsVerb globops) [] text))).text =
      (ircBuild 600 [] (some uid) (wallopsVerb globops) [] (some text)).text := by
  have hc := wallopsVerb_command globops
  have hl : (wallopsVerb globops).length ≤ 7 := by cases globops <;> decide
  have hne : ircEscape 1024 (wallopsVerb globops) ≠ [] := by rw [hc.escape]; exact hc.ne_nil
  have hroom := passing_room [] hu.source hu.short hc hl (by simp) (by simp)
  rw [build_sentText hne hroom, build_sentText hne hroom, sentText_sentText]

theorem build_push_again {sid uid : Text} (hs : SidShape sid) (hu : UidShape uid) (raw : Text) :
    (ircBuild 900 [] (some sid) "PUSH".toList [uid]
        (some (sentText 900 sid "PUSH".toList [uid] raw))).text =
      (ircBuild 900 [] (some sid) "PUSH".toList [uid] (some raw)).text := by
  have hc : Command "PUSH".toList := by decide
  have hne : ircEscape 1024 "PUSH".toList ≠ [] := by rw [hc.escape]; exact hc.ne_nil
  have hroom := passing_room [uid] hs.source hs.short hc (by decide) (by simpa using hu)
    (by simp)
  rw [build_sentText hne (by omega), build_sentText hne (by omega), sentText_sentText]

theorem handlePassed_rquery {r : Replies} {s : RelayServer} {peer line : Text} {msg : IrcMessage}
    (hparse : ircParseLine line = some msg) (hcmd : msg.command = "RQUERY".toList) :
    handlePassed r s peer line = ⟨[], [], handleRquery r s peer msg⟩ := by
  have hpush : "RQUERY".toList ≠ "PUSH".toList := by decide
  have hwallops : ¬ ("RQUERY".toList = "WALLOPS".toList ∨
    "RQUERY".toList = "GLOBOPS".toList) := by decide
  simp only [handlePassed, hparse]
  rw [hcmd, if_neg hpush, if_neg hwallops, if_pos rfl]

theorem find_rqueryCommand {verb : Text} (hv : verb ∈ rqueryCommands) :
    (rqueryCommands.find? fun name => caseEq verb name) = some verb := by
  have hall : ∀ verb ∈ rqueryCommands,
      (rqueryCommands.find? fun name => caseEq verb name) = some verb := by decide +kernel
  exact hall verb hv

include h

variable (replies) in
open Classical in
include hG in
/-- A WALLOPS or a GLOBOPS from another server. -/
theorem handle_wallops_line {u v o : V} {globops : Bool} {uid text : Text}
    (hgood : (Passing.wallops o globops uid text).Good net home)
    (hn : (passRoutes hG).next (.all o, false) u v) :
    ∃ out, handlePassed (replies v) (net v) (net u).srv.sid
          ((Passing.wallops o globops uid text).line net) =
        ⟨shows net v (.wallops o globops uid text), [], out⟩ ∧
      ∀ b, toPeer net b out = if (passRoutes hG).next (.all o, false) v b then
        [(Passing.wallops o globops uid text).line net] else [] := by
  obtain ⟨hhome, hshape, hknown⟩ := hgood
  obtain ⟨hadj, hd⟩ := hn
  obtain ⟨w, -, hwuid, hfind, hsrc⟩ := h.srcUser hknown hshape.ne_nil hadj.symm (by
    rw [hhome, G.dist_comm (v := o), G.dist_comm (v := o), hd])
  obtain ⟨hcase, hpush, hverb⟩ := wallopsVerb_eq globops
  have hov : o ≠ v := by
    rintro rfl
    rw [SimpleGraph.dist_self] at hd
    omega
  refine ⟨flood (net v) (some (net u).srv.sid) ((Passing.wallops o globops uid text).line net), ?_,
    fun b => ?_⟩
  · rw [handlePassed, Passing.line, parse_wallops hshape]
    simp only [if_neg hpush, if_pos hverb, handleWallops, hsrc,
      List.getLast?_singleton, hcase, hwuid,
      build_wallops_again hshape, shows, hfind, if_neg hov]
  · have honward : (passRoutes hG).next (.all o, false) v b ↔ G.Adj v b ∧ b ≠ u :=
      all_onward hG ⟨hadj, hd⟩
    rw [h.toPeer_flood]
    refine if_congr ?_ rfl rfl
    rw [honward]
    refine and_congr_right fun _ => not_congr ⟨fun e => ?_, fun e => by rw [e]⟩
    exact (h.sid_inj u b (Option.some.inj e)).symm

variable (replies) in
open Classical in
include hG in
theorem handle_push_line {u v o d : V} {uid raw : Text}
    (hgood : (Passing.push o d uid raw).Good net home)
    (hn : (passRoutes hG).next (.one o d, true) u v) :
    ∃ out, handlePassed (replies v) (net v) (net u).srv.sid ((Passing.push o d uid raw).line net) =
        ⟨[], answersTo net v (.push o d uid raw), out⟩ ∧
      ∀ b, toPeer net b out = if (passRoutes hG).next (.one o d, true) v b then
        [(Passing.push o d uid raw).line net] else [] := by
  obtain ⟨hhome, -, hshape, hknown⟩ := hgood
  obtain ⟨t, ht, htuid, hfind⟩ := h.find hknown hshape.ne_nil v
  have htne : t.uid ≠ [] := by rw [htuid]; exact hshape.ne_nil
  have honward : ∀ b, (passRoutes hG).next (.one o d, true) v b ↔
      G.Adj v b ∧ G.dist b d + 1 = G.dist v d := fun b => one_onward hG hn
  have hremote : t.remote = true ↔ d ≠ v := by rw [h.remote v t ht htne, htuid, hhome]
  by_cases hdv : d = v
  · have hlocal : t.remote = false := by
      rw [← Bool.not_eq_true, hremote]
      exact fun e => e hdv
    refine ⟨[], ?_, fun b => ?_⟩
    · rw [handlePassed, Passing.line, parse_push (h.sid_shape o) hshape]
      simp only [if_true, handlePush, hfind, hlocal, htuid, answersTo, if_pos hdv,
        List.getLastD_cons, List.getLastD_nil]
    · rw [if_neg]
      · rfl
      · rw [honward, hdv, SimpleGraph.dist_self]
        omega
  · have hfar : ¬ t.remote = false := by
      rw [Bool.not_eq_false, hremote]
      exact hdv
    refine ⟨routeTo (net v) (net d).srv.sid ((Passing.push o d uid raw).line net), ?_, fun b => ?_⟩
    · rw [handlePassed, Passing.line, parse_push (h.sid_shape o) hshape]
      simp only [if_true, handlePush, hfind, if_neg hfar, answersTo, if_neg hdv,
        List.getLastD_cons, List.getLastD_nil, build_push_again (h.sid_shape o) hshape,
        h.nserver v t ht htne, htuid, hhome]
    · rw [h.toPeer_routeTo hG (Ne.symm hdv)]
      exact if_congr (honward b).symm rfl rfl

variable (replies) in
omit [DecidableEq V] in
open Classical in
include hG in
theorem handle_rquery_line {u v o d : V} {uid verb : Text} {args : List Text}
    (hgood : (Passing.rquery o d uid verb args).Good net home)
    (hn : (passRoutes hG).next (.one o d, false) u v) (hdv : v ≠ d) :
    ∃ out, handlePassed (replies v) (net v) (net u).srv.sid
          ((Passing.rquery o d uid verb args).line net) = ⟨[], [], out⟩ ∧
      ∀ b, toPeer net b out = if (passRoutes hG).next (.one o d, false) v b then
        [(Passing.rquery o d uid verb args).line net] else [] := by
  obtain ⟨hhome, -, hshape, hknown, hverb, -, hargs, hplain, hfit⟩ := hgood
  have haway := (between_step hG hn.1 hn.2.1 hn.2.2).1
  obtain ⟨w, -, hwuid, -, hsrc⟩ := h.srcUser hknown hshape.ne_nil hn.1.symm (by
    rw [hhome, G.dist_comm (v := o), G.dist_comm (v := o), haway])
  obtain ⟨s, hs, hsid⟩ := h.found v d
  have hne : ¬ (net d).srv.sid = (net v).srv.sid := fun e => hdv (h.sid_inj d v e).symm
  have honward : ∀ b, (passRoutes hG).next (.one o d, false) v b ↔
      G.Adj v b ∧ G.dist b d + 1 = G.dist v d := fun b => one_onward hG hn
  refine ⟨routeTo (net v) (net d).srv.sid ((Passing.rquery o d uid verb args).line net), ?_,
    fun b => ?_⟩
  · rw [Passing.line,
      handlePassed_rquery (parse_rquery hshape (h.sid_shape d) hverb hargs hplain hfit) rfl]
    simp only [handleRquery, hsrc, hs, ne_eq, hne, not_false_eq_true, if_true, hsid, hwuid]
  · rw [h.toPeer_routeTo hG hdv]
    exact if_congr (honward b).symm rfl rfl

variable (replies) in
omit [DecidableEq V] in
include hG in
theorem handle_rquery_here {u o d : V} {uid verb : Text} {args : List Text}
    (hgood : (Passing.rquery o d uid verb args).Good net home)
    (hn : (passRoutes hG).next (.one o d, false) u d) :
    ∃ w ∈ (net d).srv.users.clients, w.uid = uid ∧
      netsyncFindUid (net d).srv.users.clients uid = some w ∧
      handlePassed (replies d) (net d) (net u).srv.sid
        ((Passing.rquery o d uid verb args).line net) =
        ⟨[], [], (replies d w verb args).flatMap (netsyncPush (net d) w)⟩ := by
  obtain ⟨hhome, -, hshape, hknown, hverb, hwhois, hargs, hplain, hfit⟩ := hgood
  have haway := (between_step hG hn.1 hn.2.1 hn.2.2).1
  obtain ⟨w, hw, hwuid, hfind, hsrc⟩ := h.srcUser hknown hshape.ne_nil hn.1.symm (by
    rw [hhome, G.dist_comm (v := o), G.dist_comm (v := o), haway])
  obtain ⟨s, hs, hsid⟩ := h.found d d
  have hone : ¬ (verb = "WHOIS".toList ∧ args.length ≠ 1) := fun e => e.2 (hwhois e.1)
  refine ⟨w, hw, hwuid, hfind, ?_⟩
  rw [Passing.line,
    handlePassed_rquery (parse_rquery hshape (h.sid_shape d) hverb hargs hplain hfit) rfl]
  simp only [handleRquery, hsrc, hs, hsid, ne_eq, not_true_eq_false, if_false,
    find_rqueryCommand hverb, hone]

end Handle

/-! ## 8. Every run -/

section Runs

variable [DecidableEq V] {G : SimpleGraph V} (hG : G.IsTree) {home : Text → V}

/-- The WALLOPS and GLOBOPS of the server `o`: verb, source and text. -/
def wallopsOf (o : V) : Passing V → Option (Bool × Text × Text)
  | .wallops o' globops uid text => if o' = o then some (globops, uid, text) else none
  | _ => none

/-- The questions of `o` to `d`: user, command and parameters. -/
def queryOf (o d : V) : Passing V → Option (Text × Text × List Text)
  | .rquery o' d' uid verb args => if o' = o ∧ d' = d then some (uid, verb, args) else none
  | _ => none

theorem queryOf_other {o o' d d' : V} (h : ¬ (o = o' ∧ d = d')) (uid verb : Text)
    (args : List Text) : queryOf o' d' (.rquery o d uid verb args) = none := if_neg h

theorem queryOf_self (o d : V) (uid verb : Text) (args : List Text) :
    queryOf o d (.rquery o d uid verb args) = some (uid, verb, args) := if_pos ⟨rfl, rfl⟩

/-- The answers of `d` to `o`: user and line. -/
def pushOf (d o : V) : Passing V → Option (Text × Text)
  | .push d' o' uid raw => if d' = d ∧ o' = o then some (uid, raw) else none
  | _ => none

namespace RelayEvent

/-- What a user of `o` has sent to everyone. -/
def wallopsOf (o : V) : RelayEvent V → Option (Bool × Text × Text)
  | .wallops v cl globops text => if v = o then some (globops, cl.uid, text) else none
  | _ => none

variable (net) in
/-- What a user of `o` has asked `d`. -/
def queryOf (o d : V) : RelayEvent V → Option (Text × Text × List Text)
  | .query v cl dest verb args =>
    if v = o ∧ dest = (net d).srv.sid then some (cl.uid, verb, args) else none
  | _ => none

end RelayEvent

variable (net replies) in
/-- What `d` answers to a question. -/
def pushesOf (d : V) (q : Text × Text × List Text) : List (Text × Text) :=
  match netsyncFindUid (net d).srv.users.clients q.1 with
  | some u => (replies d u q.2.1 q.2.2).map fun raw => (q.1, raw)
  | none => []

variable (net replies home) in
/-- The messages follow the events: what each server has started is what its users have sent and
asked, and what it has answered. -/
structure Relays (es : List (RelayEvent V)) (m : Net V (Passing V)) (n : RelayNet V) : Prop where
  steps : Steps (passRoutes hG) Passing.audience Net.start m
  carried : Carried net home m n
  wallops : ∀ o, (m.passed o).filterMap (wallopsOf o) = es.filterMap (RelayEvent.wallopsOf o)
  asked : ∀ o d, (m.passed o).filterMap (queryOf o d) = es.filterMap (RelayEvent.queryOf net o d)
  answers : ∀ o d, (m.passed d).filterMap (pushOf d o) =
    ((m.passed d).filterMap (queryOf o d)).flatMap (pushesOf net replies d)

theorem relays_start : Relays net replies hG home [] Net.start RelayNet.start :=
  ⟨.refl, carried_start, fun _ => rfl, fun _ _ => rfl, fun _ _ => rfl⟩

omit [DecidableEq V] in
theorem filterMap_snoc {α β : Type*} (f : α → Option β) (xs : List α) (x : α) :
    (xs ++ [x]).filterMap f = xs.filterMap f ++ (f x).toList := by
  rw [List.filterMap_append, List.filterMap_cons, List.filterMap_nil]
  cases f x <;> rfl

namespace RelayNet

theorem tell_nil (n : RelayNet V) (v : V) : n.tell v [] [] = n := by
  simp only [tell, List.append_nil, ite_self]

theorem send_nil (n : RelayNet V) (sid : V → Text) (v : V) : n.send sid v [] = n := by
  simp only [send, List.filter_nil, List.map_nil, List.append_nil, ite_self]

theorem send_append (n : RelayNet V) (sid : V → Text) (v : V) (out out' : Sendings) :
    n.send sid v (out ++ out') = (n.send sid v out).send sid v out' := by
  simp only [send, RelayNet.mk.injEq, and_true]
  funext a b
  by_cases ha : a = v
  · simp only [if_pos ha, List.filter_append, List.map_append, List.append_assoc]
  · simp only [if_neg ha]

end RelayNet

variable {es : List (RelayEvent V)} {m : Net V (Passing V)} {n : RelayNet V}

/-- **What a step must show**: the lines `xs` that `v` handles in it are those the event sends, and
each question that ends at `v` is followed by its answers. -/
theorem Relays.grow (hf : Relays net replies hG home es m n) {m' : Net V (Passing V)}
    {n' : RelayNet V} {v : V} (xs : List (Passing V)) {e : RelayEvent V}
    (hsteps : Steps (passRoutes hG) Passing.audience m m') (hcar : Carried net home m' n')
    (hpassed : ∀ a, m'.passed a = m.passed a ++ if a = v then xs else [])
    (hw : ∀ o, (if o = v then xs else []).filterMap (wallopsOf o) = (e.wallopsOf o).toList)
    (hq : ∀ o d, (if o = v then xs else []).filterMap (queryOf o d) = (e.queryOf net o d).toList)
    (ha : ∀ o, xs.filterMap (pushOf v o) =
      (xs.filterMap (queryOf o v)).flatMap (pushesOf net replies v)) :
    Relays net replies hG home (es ++ [e]) m' n' := by
  refine ⟨hf.steps.trans hsteps, hcar, ?_, ?_, ?_⟩
  · intro o
    rw [hpassed, List.filterMap_append, hf.wallops, hw, filterMap_snoc]
  · intro o d
    rw [hpassed, List.filterMap_append, hf.asked, hq, filterMap_snoc]
  · intro o d
    rw [hpassed, List.filterMap_append, List.filterMap_append, List.flatMap_append, hf.answers]
    congr 1
    by_cases hd : d = v
    · rw [if_pos hd, hd, ha]
    · rw [if_neg hd]
      rfl

theorem passed_pass {R : Routes V (Audience V × Bool)} {m : Net V (Passing V)} (v a : V)
    (x : Passing V) : (m.pass R Passing.audience v x).passed a =
      m.passed a ++ if a = v then [x] else [] := by
  by_cases ha : a = v
  · rw [if_pos ha, ha, Net.passed_pass_self]
  · rw [if_neg ha, Net.passed_pass_other ha, List.append_nil]

section Steady

variable (h : Steady net G home)

include h

omit [DecidableEq V] in
theorem Steady.home_local {v : V} {cl : Client} (hmem : cl ∈ (net v).srv.users.clients)
    (hne : cl.uid ≠ []) (hlocal : cl.remote = false) : home cl.uid = v := by
  by_contra hn
  have hr := (h.remote v cl hmem hne).mpr hn
  rw [hlocal] at hr
  cases hr

theorem Relays.wallops_event (hf : Relays net replies hG home es m n) {v : V} {cl : Client}
    {globops : Bool} {text : Text} (he : (RelayEvent.wallops v cl globops text).Sound net) :
    ∃ m', Relays net replies hG home (es ++ [.wallops v cl globops text]) m'
      (relayStep net replies n (.wallops v cl globops text)) := by
  classical
  obtain ⟨hmem, hne, hlocal⟩ := he
  have hgood : (Passing.wallops v globops cl.uid text).Good net home :=
    ⟨h.home_local hmem hne hlocal, h.uid_shape v cl hmem hne, cl, hmem, rfl⟩
  have hcar := hf.carried.pass hG hgood (v := v)
    (netsyncWallops (net v) cl globops text) fun b => by
      have hsource : (passRoutes hG).next (.all v, false) v b ↔ G.Adj v b := all_from_source hG
      rw [netsyncWallops, if_neg hne, h.toPeer_flood, Passing.audience]
      refine if_congr ?_ rfl rfl
      rw [hsource]
      exact ⟨fun e => e.1, fun e => ⟨e, fun e' => by cases e'⟩⟩
  have hshows : shows net v (.wallops v globops cl.uid text) =
      wallopsLocal (net v) cl globops text := by
    rw [shows, (net v).srv.users.find_uid hmem hne]
    exact congrArg (wallopsLocal (net v) cl globops) (if_pos rfl)
  rw [hshows] at hcar
  refine ⟨_, hf.grow hG [.wallops v globops cl.uid text]
    (.single (.start m (.wallops v globops cl.uid text))) hcar
      (fun a => passed_pass v a _) ?_ ?_ ?_⟩
  · intro o
    by_cases ho : o = v
    · subst ho
      simp [wallopsOf, RelayEvent.wallopsOf]
    · simp [ho, Ne.symm ho, RelayEvent.wallopsOf]
  · intro o d
    by_cases ho : o = v
    · simp [ho, queryOf, RelayEvent.queryOf]
    · simp [ho, RelayEvent.queryOf]
  · intro o
    rfl

theorem Relays.query_event (hf : Relays net replies hG home es m n) {v : V} {cl : Client}
    {dest verb : Text} {args : List Text} (he : (RelayEvent.query v cl dest verb args).Sound net) :
    ∃ m', Relays net replies hG home (es ++ [.query v cl dest verb args]) m'
      (relayStep net replies n (.query v cl dest verb args)) := by
  classical
  obtain ⟨hmem, hne, hlocal, ⟨w, hw, rfl⟩, hverb, hwhois, hargs, hplain, hfit⟩ := he
  have hgood : (Passing.rquery v w cl.uid verb args).Good net home :=
    ⟨h.home_local hmem hne hlocal, Ne.symm hw, h.uid_shape v cl hmem hne, ⟨cl, hmem, rfl⟩, hverb,
      hwhois, hargs, hplain, hfit⟩
  have hother : (net w).srv.sid ≠ (net v).srv.sid := fun e => hw (h.sid_inj w v e)
  have hcar := hf.carried.pass hG hgood (v := v)
    (netsyncRquery (net v) cl (net w).srv.sid verb args) fun b => by
      have hsource : (passRoutes hG).next (.one v w, false) v b ↔
          G.Adj v b ∧ G.dist b w + 1 = G.dist v w := one_from_source hG
      rw [netsyncRquery, if_neg (by tauto), h.toPeer_routeTo hG (Ne.symm hw), Passing.audience]
      exact if_congr hsource.symm rfl rfl
  have hnothing : n.tell v (shows net v (.rquery v w cl.uid verb args))
      (answersTo net v (.rquery v w cl.uid verb args)) = n := n.tell_nil v
  rw [hnothing] at hcar
  refine ⟨_, hf.grow hG [.rquery v w cl.uid verb args]
    (.single (.start m (.rquery v w cl.uid verb args))) hcar
      (fun a => passed_pass v a _) ?_ ?_ ?_⟩
  · intro o
    by_cases ho : o = v
    · simp [ho, wallopsOf, RelayEvent.wallopsOf]
    · simp [ho, RelayEvent.wallopsOf]
  · intro o d
    have hd : (net w).srv.sid = (net d).srv.sid ↔ w = d := ⟨h.sid_inj w d, fun e => by rw [e]⟩
    by_cases ho : o = v
    · subst ho
      by_cases hwd : w = d
      · simp [queryOf, RelayEvent.queryOf, hwd]
      · simp [queryOf, RelayEvent.queryOf, hwd, hd]
    · simp [ho, Ne.symm ho, RelayEvent.queryOf]
  · intro o
    simp [pushOf, queryOf, hw]

/-- The server that is asked sends its answers, one after the other. -/
theorem Carried.answer (hcar : Carried net home m n) {o d : V} (hne : o ≠ d) {w : Client}
    (hw : w ∈ (net d).srv.users.clients) (huid : UidShape w.uid) (hhome : home w.uid = o)
    (raws : List Text) : ∃ m', Steps (passRoutes hG) Passing.audience m m' ∧
      Carried net home m' (n.send (fun w => (net w).srv.sid) d
        (raws.flatMap (netsyncPush (net d) w))) ∧
      ∀ a, m'.passed a = m.passed a ++
        if a = d then raws.map fun raw => Passing.push d o w.uid raw else [] := by
  classical
  have hremote : ¬ w.remote = false := by
    rw [Bool.not_eq_false, h.remote d w hw huid.ne_nil, hhome]
    exact hne
  induction raws generalizing m n with
  | nil =>
    refine ⟨m, .refl, ?_, fun a => ?_⟩
    · rw [List.flatMap_nil, RelayNet.send_nil]
      exact hcar
    · rw [List.map_nil, ite_self, List.append_nil]
  | cons raw raws ih =>
    have hgood : (Passing.push d o w.uid raw).Good net home :=
      ⟨hhome, Ne.symm hne, huid, w, hw, rfl⟩
    have hstep := hcar.pass hG hgood (v := d) (netsyncPush (net d) w raw) fun b => by
      have hsource : (passRoutes hG).next (.one d o, true) d b ↔
          G.Adj d b ∧ G.dist b o + 1 = G.dist d o := one_from_source hG
      rw [netsyncPush, if_neg hremote, h.nserver d w hw huid.ne_nil, hhome,
        h.toPeer_routeTo hG (Ne.symm hne), Passing.audience]
      exact if_congr hsource.symm rfl rfl
    have hnothing : n.tell d (shows net d (.push d o w.uid raw))
        (answersTo net d (.push d o w.uid raw)) = n := by
      rw [answersTo, if_neg hne]
      exact n.tell_nil d
    rw [hnothing] at hstep
    obtain ⟨m', hsteps, hcar', hpassed⟩ := ih hstep
    refine ⟨m', .head (.start m (.push d o w.uid raw)) hsteps, ?_, fun a => ?_⟩
    · rw [List.flatMap_cons, RelayNet.send_append]
      exact hcar'
    · rw [hpassed, show
        (m.pass (passRoutes hG) Passing.audience d (.push d o w.uid raw)).passed a = _
        from passed_pass d a _, List.append_assoc]
      by_cases ha : a = d
      · simp [ha]
      · simp [ha]

omit h in
/-- On an arrival nothing new is sent or asked. -/
theorem Relays.arrived (hf : Relays net replies hG home es m n) {u v : V} {m' : Net V (Passing V)}
    {n' : RelayNet V} (xs : List (Passing V)) (hsteps : Steps (passRoutes hG) Passing.audience m m')
    (hcar : Carried net home m' n')
    (hpassed : ∀ a, m'.passed a = m.passed a ++ if a = v then xs else [])
    (hw : xs.filterMap (wallopsOf v) = []) (hq : ∀ d, xs.filterMap (queryOf v d) = [])
    (ha : ∀ o, xs.filterMap (pushOf v o) =
      (xs.filterMap (queryOf o v)).flatMap (pushesOf net replies v)) :
    Relays net replies hG home (es ++ [.arrive u v]) m' n' := by
  refine hf.grow hG xs hsteps hcar hpassed (fun o => ?_) (fun o d => ?_) ha
  · by_cases ho : o = v
    · rw [if_pos ho, ho, hw]
      rfl
    · rw [if_neg ho]
      rfl
  · by_cases ho : o = v
    · rw [if_pos ho, ho, hq]
      rfl
    · rw [if_neg ho]
      rfl

omit [DecidableEq V] h in
theorem filterMap_pushes {β : Type*} {f : Passing V → Option β} {d o : V} {uid : Text}
    {raws : List Text} (hf : ∀ raw, f (.push d o uid raw) = none) :
    (raws.map fun raw => Passing.push d o uid raw).filterMap f = [] := by
  rw [List.filterMap_map, List.filterMap_eq_nil_iff]
  exact fun raw _ => hf raw

omit h in
/-- A question and its answers, as they stand in the logs. -/
theorem pushes_log {d o : V} {w : Client}
    (hfind : netsyncFindUid (net d).srv.users.clients w.uid = some w) (o' : V) (verb : Text)
    (args : List Text) :
    (Passing.rquery o d w.uid verb args ::
        (replies d w verb args).map fun raw => .push d o w.uid raw).filterMap (pushOf d o') =
      ((Passing.rquery o d w.uid verb args ::
          (replies d w verb args).map fun raw => .push d o w.uid raw).filterMap
        (queryOf o' d)).flatMap (pushesOf net replies d) := by
  by_cases ho : o = o'
  · have hall : pushOf d o ∘ (fun raw => Passing.push d o w.uid raw) =
        fun raw => some (w.uid, raw) := by
      funext raw
      exact if_pos ⟨rfl, rfl⟩
    rw [← ho, List.filterMap_cons_none rfl, List.filterMap_map, hall, List.filterMap_eq_map',
      List.filterMap_cons_some (queryOf_self o d w.uid verb args), filterMap_pushes fun _ => rfl,
      List.flatMap_singleton, pushesOf, hfind]
  · rw [List.filterMap_cons_none rfl,
      List.filterMap_cons_none (queryOf_other (fun e => ho e.1) _ _ _),
      filterMap_pushes fun _ => if_neg fun e => ho e.2, filterMap_pushes fun _ => rfl]
    rfl

omit h in
/-- The first line on a link is taken off it and handled. -/
theorem relayStep_arrive {u v : V} {x : Passing V} {rest : List (Passing V)}
    (hwire : n.wire u v = (x :: rest).map (Passing.line net)) :
    relayStep net replies n (.arrive u v) =
      (({ n with wire := fun a b => if a = u ∧ b = v then rest.map (Passing.line net)
          else n.wire a b }).tell v
        (handlePassed (replies v) (net v) (net u).srv.sid (x.line net)).shown
        (handlePassed (replies v) (net v) (net u).srv.sid (x.line net)).answered).send
        (fun w => (net w).srv.sid) v
        (handlePassed (replies v) (net v) (net u).srv.sid (x.line net)).out := by
  rw [relayStep, hwire]
  rfl

/-- A question that arrives where it is to be answered: its answers are sent in the same step. -/
theorem Relays.query_arrived (hf : Relays net replies hG home es m n) {u v o : V} {uid verb : Text}
    {args : List Text} {rest : List (Passing V)}
    (hw : m.wire u v = .rquery o v uid verb args :: rest) (hov : o ≠ v) :
    ∃ m', Relays net replies hG home (es ++ [.arrive u v]) m'
      (relayStep net replies n (.arrive u v)) := by
  classical
  have hgood := hf.carried.good u v _ (hw ▸ List.mem_cons_self)
  have hn := (flows_start.steps hf.steps).next_of_wire hw
  obtain ⟨w, hmem, rfl, hfind, hout⟩ := handle_rquery_here replies hG h hgood hn
  have hstop : ∀ b, ¬ (passRoutes hG).next (.one o v, false) v b := by
    rintro b ⟨-, -, hd⟩
    rw [SimpleGraph.dist_self] at hd
    omega
  have hend := (hf.carried.take hw).pass hG hgood (v := v) [] fun b => (if_neg (hstop b)).symm
  have hquiet : ∀ n : RelayNet V, n.tell v (shows net v (.rquery o v w.uid verb args))
      (answersTo net v (.rquery o v w.uid verb args)) = n := fun n => n.tell_nil v
  rw [hquiet, RelayNet.send_nil] at hend
  obtain ⟨m', hsteps, hcar, hpassed⟩ := hend.answer hG h hgood.2.1 hmem hgood.2.2.1 hgood.1
    (replies v w verb args)
  rw [relayStep_arrive ((hf.carried.wire u v).trans (congrArg _ hw)), hout]
  refine ⟨m', hf.arrived hG (.rquery o v w.uid verb args ::
    (replies v w verb args).map fun raw => .push v o w.uid raw)
    (.head (.arrive hw) hsteps) ?_ ?_ ?_ ?_ ?_⟩
  · rw [RelayNet.tell_nil]
    exact hcar
  · intro a
    rw [hpassed, passed_pass, List.append_assoc]
    by_cases ha : a = v
    · simp [ha]
    · simp [ha]
  · rw [List.filterMap_cons_none rfl, filterMap_pushes fun _ => rfl]
  · intro d'
    rw [List.filterMap_cons_none (queryOf_other (fun e => hov e.1) _ _ _),
      filterMap_pushes fun _ => rfl]
  · exact fun o' => pushes_log hfind o' verb args

theorem Relays.arrive_event (hf : Relays net replies hG home es m n) (u v : V) :
    ∃ m', Relays net replies hG home (es ++ [.arrive u v]) m'
      (relayStep net replies n (.arrive u v)) := by
  classical
  have hwire := hf.carried.wire u v
  cases hw : m.wire u v with
  | nil =>
    rw [hw] at hwire
    have hstep : relayStep net replies n (.arrive u v) = n := by
      rw [relayStep, hwire]
      rfl
    rw [hstep]
    exact ⟨m, hf.arrived hG [] .refl hf.carried (fun a => by simp) rfl (fun _ => rfl)
      fun _ => rfl⟩
  | cons x rest =>
    rw [hw] at hwire
    have hstep : relayStep net replies n (.arrive u v) = _ := relayStep_arrive hwire
    have hgood := hf.carried.good u v x (hw ▸ List.mem_cons_self)
    have hn := (flows_start.steps hf.steps).next_of_wire hw
    have htaken := hf.carried.take hw
    have harrive : Step (passRoutes hG) Passing.audience m _ := .arrive hw
    -- no message arrives where it started
    have hsource : (passRoutes hG).source x.audience ≠ v := by
      intro e
      rw [← e] at hn
      exact (passRoutes hG).no_pred hn
    cases x with
    | wallops o globops uid text =>
      obtain ⟨out, hout, hpeer⟩ := handle_wallops_line replies hG h hgood hn
      rw [hstep, hout]
      exact ⟨_, hf.arrived hG [_] (.single harrive) (htaken.pass hG hgood out hpeer)
        (fun a => passed_pass v a _) (List.filterMap_cons_none (if_neg hsource)) (fun _ => rfl)
        fun _ => rfl⟩
    | push o d uid raw =>
      obtain ⟨out, hout, hpeer⟩ := handle_push_line replies hG h hgood hn
      rw [hstep, hout]
      exact ⟨_, hf.arrived hG [_] (.single harrive) (htaken.pass hG hgood out hpeer)
        (fun a => passed_pass v a _) rfl (fun _ => rfl)
        fun _ => List.filterMap_cons_none (if_neg fun e => hsource e.1)⟩
    | rquery o d uid verb args =>
      have hov : o ≠ v := hsource
      by_cases hdv : v = d
      · subst hdv
        exact hf.query_arrived hG h hw hov
      · obtain ⟨out, hout, hpeer⟩ := handle_rquery_line replies hG h hgood hn hdv
        rw [hstep, hout]
        have hnone : ∀ d', [Passing.rquery o d uid verb args].filterMap (queryOf v d') = [] :=
          fun _ => List.filterMap_cons_none (queryOf_other (fun e => hov e.1) _ _ _)
        have helsewhere : ∀ o', [Passing.rquery o d uid verb args].filterMap (queryOf o' v) = [] :=
          fun _ => List.filterMap_cons_none (queryOf_other (fun e => hdv e.2.symm) _ _ _)
        refine ⟨_, hf.arrived hG [_] (.single harrive) (htaken.pass hG hgood out hpeer)
          (fun a => passed_pass v a _) rfl hnone fun o' => ?_⟩
        rw [helsewhere]
        rfl

/-- **The step lemma.** -/
theorem Relays.step (hf : Relays net replies hG home es m n) {e : RelayEvent V} (he : e.Sound net) :
    ∃ m', Relays net replies hG home (es ++ [e]) m' (relayStep net replies n e) := by
  cases e with
  | wallops v cl globops text => exact hf.wallops_event hG h he
  | query v cl dest verb args => exact hf.query_event hG h he
  | arrive u v => exact hf.arrive_event hG h u v

variable (replies) in
/-- **The run lemma.** -/
theorem relays_run (hes : ∀ e ∈ es, e.Sound net) :
    ∃ m, Relays net replies hG home es m (relayRun net replies es) := by
  induction es using List.reverseRecOn with
  | nil => exact ⟨_, relays_start hG⟩
  | append_singleton es e ih =>
    obtain ⟨m, hf⟩ := ih fun e he => hes e (List.mem_append_left _ he)
    have hrun : relayRun net replies (es ++ [e]) =
        relayStep net replies (relayRun net replies es) e :=
      List.foldl_concat ..
    rw [hrun]
    exact hf.step hG h (hes e (by simp))

end Steady

omit [DecidableEq V] in
theorem filterMap_ofClass {β : Type*} {f : Passing V → Option β} {k : Audience V × Bool}
    (hf : ∀ x, x.audience ≠ k → f x = none) (ms : List (Passing V)) :
    (ofClass Passing.audience k ms).filterMap f = ms.filterMap f := by
  rw [ofClass, List.filterMap_filter]
  congr 1
  funext x
  by_cases hx : x.audience = k
  · simp [hx]
  · simp [hx, hf x hx]

/-- What a server has handled of one class is what its source has started, in the same order and
none twice, and all of it when nothing is on its way. -/
theorem Relays.log (hf : Relays net replies hG home es m n) {β : Type*} {f : Passing V → Option β}
    {k : Audience V × Bool} (hk : ∀ x, x.audience ≠ k → f x = none) {v : V}
    (hv : (passRoutes hG).Reaches k v) :
    (m.passed v).filterMap f <+: (m.passed ((passRoutes hG).source k)).filterMap f ∧
      (n.Quiet → (m.passed v).filterMap f = (m.passed ((passRoutes hG).source k)).filterMap f) := by
  have hflows : Flows (passRoutes hG) Passing.audience m := flows_start.steps hf.steps
  constructor
  · have hp := (hflows.prefix_source hv).filterMap f
    rwa [filterMap_ofClass hk, filterMap_ofClass hk] at hp
  · intro hq
    have hquiet : m.Quiet := by
      intro a b
      have hab := hq a b
      rw [hf.carried.wire a b] at hab
      exact List.map_eq_nil_iff.mp hab
    have he := congrArg (List.filterMap f) (hflows.eq_source hquiet hv)
    rwa [filterMap_ofClass hk, filterMap_ofClass hk] at he

/-- **Everyone is told once, in order**: in any interleaving, what the users of a server are sent
of the WALLOPS and GLOBOPS of another is the beginning of what that one's users have sent, and all
of it when nothing is on its way. -/
theorem wallops_reach_all (hG : G.IsTree) (h : Steady net G home) (hes : ∀ e ∈ es, e.Sound net) :
    ∃ seen : V → List (Passing V), ∀ v,
      (relayRun net replies es).shown v = (seen v).flatMap (shows net v) ∧
      ∀ o, (seen v).filterMap (wallopsOf o) <+: es.filterMap (RelayEvent.wallopsOf o) ∧
        ((relayRun net replies es).Quiet →
          (seen v).filterMap (wallopsOf o) = es.filterMap (RelayEvent.wallopsOf o)) := by
  obtain ⟨m, hf⟩ := relays_run replies hG h hes
  refine ⟨m.passed, fun v => ⟨hf.carried.shown v, fun o => ?_⟩⟩
  have hclass : ∀ x : Passing V, x.audience ≠ (.all o, false) → wallopsOf o x = none := by
    rintro (⟨o', globops, uid, text⟩ | _ | _) hx
    · exact if_neg fun e => hx (by rw [e]; rfl)
    · rfl
    · rfl
  have hlog := hf.log hG hclass (v := v) (reaches_all hG o v)
  rw [← hf.wallops o]
  exact hlog

omit [DecidableEq V] in
variable (G) in
/-- The path of the tree from `o` to `d` crosses the link from `u` to `v`. -/
def OnPath (o d u v : V) : Prop :=
  G.Adj u v ∧ G.dist o u + G.dist u d = G.dist o d ∧ G.dist v d + 1 = G.dist u d

variable (G) in
/-- Lines that go from `o` to `d` alone: along the path what a server has handled is what the next
one has handled and what is on its way to it, and on no other link is there any. -/
def Travels (got : V → List (Passing V)) (sent : V → V → List (Passing V)) {β : Type*}
    (f : Passing V → Option β) (o d : V) : Prop :=
  (∀ u v, OnPath G o d u v →
    (got v).filterMap f ++ (sent u v).filterMap f = (got u).filterMap f) ∧
  ∀ u v, ¬ OnPath G o d u v → (sent u v).filterMap f = []

theorem queryOf_class {o d : V} (x : Passing V) (hx : x.audience ≠ (.one o d, false)) :
    queryOf o d x = none := by
  rcases x with _ | ⟨o', d', uid, verb, args⟩ | _
  · rfl
  · exact queryOf_other (fun e => hx (by rw [e.1, e.2]; rfl)) uid verb args
  · rfl

theorem pushOf_class {d o : V} (x : Passing V) (hx : x.audience ≠ (.one d o, true)) :
    pushOf d o x = none := by
  rcases x with _ | _ | ⟨d', o', uid, raw⟩
  · rfl
  · rfl
  · exact if_neg fun e => hx (by rw [e.1, e.2]; rfl)

/-- The messages of one class for one server travel along the path to it. -/
theorem Relays.travels (hf : Relays net replies hG home es m n) {o d : V} {answer : Bool}
    {β : Type*} {f : Passing V → Option β}
    (hk : ∀ x : Passing V, x.audience ≠ (.one o d, answer) → f x = none) :
    Travels G m.passed m.wire f o d := by
  have hflows : Flows (passRoutes hG) Passing.audience m := flows_start.steps hf.steps
  constructor
  · intro u v huv
    have hnext : (passRoutes hG).next (.one o d, answer) u v := huv
    have halong := congrArg (List.filterMap f) (hflows.along hnext)
    rwa [List.filterMap_append, filterMap_ofClass hk, filterMap_ofClass hk,
      filterMap_ofClass hk] at halong
  · intro u v huv
    have hnext : ¬ (passRoutes hG).next (.one o d, answer) u v := huv
    have hoff := congrArg (List.filterMap f) (hflows.off hnext)
    rwa [filterMap_ofClass hk] at hoff

/-- **Every question goes to one server and every answer comes back once, in order.**  In any
interleaving there is, for what is on each wire and for what each server has handled, a list of
messages whose lines it is, such that

* the questions of `o` to `d` are on no wire but those of the path from `o` to `d`, and along the
  path every server has handled what the next one has handled and what is on its way there; the
  same holds of the answers of `d` to `o` and the path from `d` to `o`;
* what the users of `o` are sent of the answers of `d` is the beginning of what `d` answers to the
  questions of `o`, one question after the other, and all of it when nothing is on its way. -/
theorem answers_return (hG : G.IsTree) (h : Steady net G home) (hes : ∀ e ∈ es, e.Sound net) :
    ∃ (got : V → List (Passing V)) (sent : V → V → List (Passing V)),
      (∀ u v, (relayRun net replies es).wire u v = (sent u v).map (Passing.line net) ∧
        ∀ x ∈ sent u v, x.Good net home) ∧
      (∀ o d, Travels G got sent (queryOf o d) o d ∧ Travels G got sent (pushOf d o) d o) ∧
      ∀ o, (relayRun net replies es).answered o = (got o).flatMap (answersTo net o) ∧
        ∀ d, (got o).filterMap (queryOf o d) = es.filterMap (RelayEvent.queryOf net o d) ∧
          (got o).filterMap (pushOf d o) <+:
            (es.filterMap (RelayEvent.queryOf net o d)).flatMap (pushesOf net replies d) ∧
          ((relayRun net replies es).Quiet → (got o).filterMap (pushOf d o) =
            (es.filterMap (RelayEvent.queryOf net o d)).flatMap (pushesOf net replies d)) := by
  obtain ⟨m, hf⟩ := relays_run replies hG h hes
  refine ⟨m.passed, m.wire, fun u v => ⟨hf.carried.wire u v, hf.carried.good u v⟩, fun o d => ?_,
    fun o => ⟨hf.carried.answered o, fun d => ?_⟩⟩
  · exact ⟨hf.travels hG queryOf_class, hf.travels hG pushOf_class⟩
  -- the questions on the way there, and the answers on the way back
  have hthere := hf.log hG queryOf_class (v := d) (reaches_one hG o d)
  have hback := hf.log hG pushOf_class (v := o) (reaches_one hG d o)
  have hanswers : (m.passed ((passRoutes hG).source (.one d o, true))).filterMap (pushOf d o) =
      ((m.passed d).filterMap (queryOf o d)).flatMap (pushesOf net replies d) := hf.answers o d
  have hasked : (m.passed ((passRoutes hG).source (.one o d, false))).filterMap (queryOf o d) =
      es.filterMap (RelayEvent.queryOf net o d) := hf.asked o d
  rw [hanswers] at hback
  rw [hasked] at hthere
  refine ⟨hf.asked o d, hback.1.trans (hthere.1.flatMap _), fun hq => ?_⟩
  rw [hback.2 hq, hthere.2 hq]

end Runs

/-! ## 9. Two servers -/

/-- Alice, on the server `1AA`. -/
def demoAsker (remote : Bool) : Client :=
  ⟨"alice".toList, "alice".toList, "al".toList, "host.a".toList, "1AA000001".toList, "1AA".toList,
    remote, false, true, true⟩

theorem demoAsker_ok (remote : Bool) : UsersOk [demoAsker remote] := by
  cases remote <;> decide

def demoSid (v : Bool) : Text := if v then "2BB".toList else "1AA".toList

/-- `1AA` (`false`) and `2BB` (`true`), linked to each other. -/
def demoPair (v : Bool) : RelayServer where
  srv :=
    { sid := demoSid v, name := "irc".toList
      servers := [⟨demoSid v, "irc".toList, none⟩, ⟨demoSid !v, "irc".toList, some (demoSid v)⟩]
      users := ⟨[demoAsker v], demoAsker_ok v⟩
      defaultModes := [] }
  links := [demoSid !v]
  route := [(demoSid !v, demoSid !v)]
  wallops := ["1AA000001".toList]

theorem demoPair_tree : (⊤ : SimpleGraph Bool).IsTree := by
  rw [SimpleGraph.isTree_iff_connected_and_card]
  refine ⟨SimpleGraph.connected_top, ?_⟩
  rw [Nat.card_eq_fintype_card, Nat.card_eq_fintype_card, ← SimpleGraph.edgeFinset_card,
    SimpleGraph.card_edgeFinset_top_eq_card_choose_two]
  rfl

theorem demoPair_steady : Steady demoPair (⊤ : SimpleGraph Bool) fun _ => false where
  sid_shape := by decide
  sid_inj := by decide
  links_nodup := by decide
  links v s := by
    cases v <;> simp [demoPair, SimpleGraph.top_adj]
  found v w := by
    cases v <;> cases w <;> exact ⟨_, rfl, rfl⟩
  route v w x := by
    rw [SimpleGraph.dist_top, SimpleGraph.dist_top, SimpleGraph.top_adj]
    revert v w x
    decide
  behind v w x hx := by
    rw [SimpleGraph.dist_top, SimpleGraph.dist_top]
    rw [SimpleGraph.top_adj] at hx
    revert v w x
    decide
  uid_shape := by decide
  known := by decide
  nserver := by decide
  remote := by decide

/-- Every command replies with one line. -/
def demoReplies (_ : Bool) : Replies := fun u _ _ => [":irc 351 ".toList ++ u.nick]

/-- Alice tells everyone, and asks `2BB` for its version. -/
def demoTalk : List (RelayEvent Bool) :=
  [.wallops false (demoAsker false) false "hi".toList,
    .query false (demoAsker false) "2BB".toList "VERSION".toList [], .arrive false true,
    .arrive false true, .arrive true false]

theorem demoTalk_sound : ∀ e ∈ demoTalk, e.Sound demoPair := by
  intro e he
  simp only [demoTalk, List.mem_cons, List.not_mem_nil, or_false] at he
  rcases he with rfl | rfl | rfl | rfl | rfl
  · exact ⟨by decide, by decide, rfl⟩
  · exact ⟨by decide, by decide, rfl, ⟨true, by decide, rfl⟩, by decide, by decide, by decide,
      by decide, by decide⟩
  · trivial
  · trivial
  · trivial

example : (relayRun demoPair demoReplies demoTalk).answered false =
    [("1AA000001".toList, ":irc 351 alice".toList)] := by decide +kernel

theorem wallops_reach_all_pair : ∃ seen : Bool → List (Passing Bool), ∀ v,
    (relayRun demoPair demoReplies demoTalk).shown v = (seen v).flatMap (shows demoPair v) ∧
    ∀ o, (seen v).filterMap (wallopsOf o) <+: demoTalk.filterMap (RelayEvent.wallopsOf o) ∧
      ((relayRun demoPair demoReplies demoTalk).Quiet →
        (seen v).filterMap (wallopsOf o) = demoTalk.filterMap (RelayEvent.wallopsOf o)) :=
  wallops_reach_all demoPair_tree demoPair_steady demoTalk_sound

theorem answers_return_pair :
    ∃ (got : Bool → List (Passing Bool)) (sent : Bool → Bool → List (Passing Bool)),
      (∀ u v, (relayRun demoPair demoReplies demoTalk).wire u v =
          (sent u v).map (Passing.line demoPair) ∧
        ∀ x ∈ sent u v, x.Good demoPair fun _ => false) ∧
      (∀ o d, Travels (⊤ : SimpleGraph Bool) got sent (queryOf o d) o d ∧
        Travels (⊤ : SimpleGraph Bool) got sent (pushOf d o) d o) ∧
      ∀ o, (relayRun demoPair demoReplies demoTalk).answered o =
          (got o).flatMap (answersTo demoPair o) ∧
        ∀ d, (got o).filterMap (queryOf o d) =
            demoTalk.filterMap (RelayEvent.queryOf demoPair o d) ∧
          (got o).filterMap (pushOf d o) <+: (demoTalk.filterMap
            (RelayEvent.queryOf demoPair o d)).flatMap (pushesOf demoPair demoReplies d) ∧
          ((relayRun demoPair demoReplies demoTalk).Quiet → (got o).filterMap (pushOf d o) =
            (demoTalk.filterMap (RelayEvent.queryOf demoPair o d)).flatMap
              (pushesOf demoPair demoReplies d)) :=
  answers_return demoPair_tree demoPair_steady demoTalk_sound

end SekurIRCd
