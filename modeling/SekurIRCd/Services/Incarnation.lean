/-
# A registered channel recreated unwatched

ChanServ stores the timestamp of each registered channel as it last vetted it.  A channel that
comes back with a newer one was recreated by whoever got there first: ChanServ then has the ircd
reset it and takes back the ranks that its access list does not cover.

`judge_incarnation` stores the new timestamp before the reset has left the process, and a new link
session throws the send buffer away.  If the link fails in between, the channel comes back with the
timestamp that is stored, and nobody looks at it again (`takeover_forgotten`).  The takeover is
undone in every run in which the link holds until that has been written
(`takeovers_undone`).

What the hub sends is in `HubBurst`: the lines about one channel stay together, as the hub sends
them.  `past`, `owed`, `found` and `vetted` write down what happened; the code does not have them.
-/
import SekurIRCd.Lib.Runs
import SekurIRCd.Services.Sweep

namespace SekurIRCd

open CLib SendBuffer

/-! ## 1. ChanServ

A verdict is about a channel and a timestamp, and is kept until the next one. Members are vetted
under it as their lines come. -/

/-- A member as the hub describes it. -/
structure MemberLine where
  nick : Text
  user : Text
  host : Text
  account : Text
  ident : Bool
  ranks : Text
deriving DecidableEq

/-- A registered channel.  `akick` and `access` are the matches in its two lists: the ban for a
member, and the best level. -/
structure IncRec where
  name : Text
  ts : Int
  guard : Bool
  topiclock : Bool
  secureops : Bool
  restricted : Bool
  topic : Text
  founder : Text
  mlock : ChanRec
  akick : MemberLine → Option Text
  access : MemberLine → Text

/-- `g_inc`: the last verdict. -/
structure Verdict where
  chan : Text
  ts : Int
  takeover : Bool
deriving DecidableEq

def Verdict.none : Verdict := ⟨[], 0, false⟩

/-- ChanServ's state.  The store is by casefolded name; `identified` and `granted` hold casefolded
channels and nicks. -/
structure ChanServ where
  store : Text → Option IncRec
  inc : Verdict
  identified : List (Text × Text)
  granted : List (Text × Text)

/-- `irc_casefold` of a channel name. -/
def chanFold (chan : Text) : Text := ircCasefold 128 chan

/-- The key of a nick on a channel in the two tables. -/
def sessionKey (chan nick : Text) : Text × Text := (chanFold chan, ircCasefold 64 nick)

/-- A mark in a table of 256, which drops the oldest if it is full. -/
def markSession (tab : List (Text × Text)) (k : Text × Text) : List (Text × Text) :=
  if k ∈ tab then tab else (if 256 ≤ tab.length then tab.tail else tab) ++ [k]

/-- `access_level_rank`; `none` is its `-1`. -/
def accessLevelRank : Text → Option Nat
  | ['v'] => some 0
  | ['h'] => some 1
  | ['o'] => some 2
  | ['a'] => some 3
  | ['q'] => some 4
  | _ => none

namespace ChanServ

variable (own : ServicesCfg) (founderMode : Char)

/-- `store_get`. -/
def storeGet (cs : ChanServ) (chan : Text) : Option IncRec := cs.store (chanFold chan)

def wireSvcmembers (chan : Text) : Text :=
  (ircBuild 300 [] none "SVCMEMBERS".toList [chan] none).text

def wireSvcreset (chan : Text) : Text :=
  (ircBuild 300 [] none "SVCRESET".toList [chan] none).text

def wireKick (chan target reason : Text) : Text :=
  (ircBuild 500 [] (some own.source) "KICK".toList [chan, target] (some reason)).text

/-- What `judge_incarnation` decides of a channel with this record. -/
def takeoverOf (rec : IncRec) (ts : Int) (hint : Bool) : Bool :=
  if 0 < rec.ts then decide (rec.ts < ts) else hint

/-- What `judge_incarnation` queues on a takeover. -/
def takeoverLines (chan : Text) (rec : IncRec) (restore : Bool) : List Text :=
  wireSvcreset chan :: (if restore then applyMlock own rec.mlock chan else []) ++
    (if rec.topiclock = true ∧ rec.topic ≠ [] then [wireTopic own chan rec.topic] else [])

/-- The verdict at hand is about this incarnation. -/
def judged (cs : ChanServ) (chan : Text) (ts : Int) : Bool :=
  decide (0 < ts ∧ cs.inc.ts = ts ∧ cs.inc.chan = chanFold chan)

/-- `judge_incarnation`. The timestamp is stored in the record before the reset is queued. -/
def judgeIncarnation (cs : ChanServ) (chan : Text) (rec : IncRec) (ts : Int)
    (hint restore : Bool) : Bool × ChanServ × List Text :=
  if cs.judged chan ts then (cs.inc.takeover, cs, [])
  else
    let takeover := takeoverOf rec ts hint
    let store := if 0 < ts ∧ ts ≠ rec.ts then
      Function.update cs.store (chanFold chan) (some { rec with ts := ts }) else cs.store
    (takeover, { cs with store := store, inc := ⟨chanFold chan, ts, takeover⟩ },
      if takeover then takeoverLines own chan rec restore else [])

/-- `is_takeover`. -/
def isTakeover (cs : ChanServ) (chan : Text) : Bool :=
  cs.inc.takeover && decide (cs.inc.chan = chanFold chan)

/-- The ranks that a member must give back, at most 19 of them. -/
def unbacked (m : MemberLine) (allowed : Option Nat) (secure granted : Bool) : Text :=
  (m.ranks.filter fun c =>
    match accessLevelRank [c] with
    | none => false
    | some r =>
      decide (∀ a ∈ allowed, a < r) && (if c = 'v' then granted else secure || granted)).take 19

/-- `enforce_member`: what a member may hold. -/
def enforceMember (cs : ChanServ) (chan : Text) (m : MemberLine) (takeover : Bool) :
    ChanServ × List Text :=
  match cs.storeGet chan with
  | none => (cs, [])
  | some rec =>
    if caseEq m.nick own.nick then (cs, [])
    else match rec.akick m with
    | some ban =>
      (cs, [wireMode own chan "+b".toList (some ban),
        wireKick own chan m.nick "Banned from this channel (AKICK)".toList])
    | none =>
      let key := sessionKey chan m.nick
      if rec.founder ≠ [] ∧ m.account ≠ [] ∧ m.account.head? ≠ some '*' ∧
          caseEq rec.founder m.account = true then
        ({ cs with
            identified := markSession cs.identified key
            granted := markSession cs.granted key },
          if founderMode ∈ m.ranks then [] else [wireMode own chan ['+', founderMode] (some m.nick)])
      else if key ∈ cs.identified then (cs, [])
      else
        let level := rec.access m
        if rec.restricted = true ∧ level = [] ∧
            (takeover = true ∨ ∀ c ∈ "qao".toList, c ∉ m.ranks) then
          (cs, [wireMode own chan "+b".toList (some (clip 300 ("*!*@".toList ++ m.host))),
            wireKick own chan m.nick "This channel is restricted to its access list".toList])
        else
          let off := unbacked m (accessLevelRank level) (takeover || rec.secureops)
            (decide (key ∈ cs.granted))
          let on := level.head?.toList.filter (· ∉ m.ranks)
          let modes := (if off = [] then [] else '-' :: off) ++ (if on = [] then [] else '+' :: on)
          let args := ((off ++ on).map fun _ => m.nick).foldl
            (fun a v => strncat 512 (strncat 512 a (if a = [] then [] else [' '])) v) []
          ({ cs with granted :=
              if level = [] then cs.granted.filter (· ≠ key) else markSession cs.granted key },
            if modes = [] then [] else [wireModeArgs own chan modes args])

end ChanServ

/-! ## 2. The hub's lines

The hub's lines about one channel come together: its appearance or a sync, and then its members. -/

/-- A line from the hub that ChanServ acts on here.  The stamp is a timestamp and the hub's hint. -/
inductive HubLine
  | svcnew (chan : Text) (stamp : Option (Int × Bool))
  | svcsync (chan : Text) (m : MemberLine) (merge : Bool)
  | svcmember (chan : Text) (m : MemberLine) (stamp : Option (Int × Bool))
deriving DecidableEq

/-- What the hub sends at once, as far as it is still to be read: a channel that appeared with its
ranked members (`link_notify_channel_new`), the rest of them, a rank merged in
(`link_notify_merge_ranks`), or the members that `SVCMEMBERS` asked for. -/
inductive HubBurst
  | appeared (chan : Text) (stamp : Option (Int × Bool)) (ms : List MemberLine)
  | ranked (chan : Text) (ms : List MemberLine)
  | merged (chan : Text) (m : MemberLine)
  | members (chan : Text) (stamp : Option (Int × Bool)) (ms : List MemberLine)
deriving DecidableEq

/-- The next line of a burst and what is left of it. -/
def HubBurst.next : HubBurst → Option (HubLine × HubBurst)
  | .appeared chan stamp ms => some (.svcnew chan stamp, .ranked chan ms)
  | .ranked _ [] => none
  | .ranked chan (m :: ms) => some (.svcsync chan m false, .ranked chan ms)
  | .merged chan m => some (.svcsync chan m true, .ranked chan [])
  | .members _ _ [] => none
  | .members chan stamp (m :: ms) => some (.svcmember chan m stamp, .members chan stamp ms)

/-- The members in a burst. -/
def HubBurst.toVet : HubBurst → List MemberLine
  | .appeared _ _ ms => ms
  | .ranked _ ms => ms
  | .merged _ m => [m]
  | .members _ _ ms => ms

def HubLine.chan : HubLine → Text
  | .svcnew chan _ => chan
  | .svcsync chan _ _ => chan
  | .svcmember chan _ _ => chan

/-- The member a line describes. -/
def HubLine.member : HubLine → Option MemberLine
  | .svcnew _ _ => none
  | .svcsync _ m _ => some m
  | .svcmember _ m _ => some m

/-- What a line came to: ChanServ after it, the lines queued, and the verdict under which its
member was vetted. -/
structure Handled where
  cs : ChanServ
  lines : List Text
  takeover : Bool

section Handle

variable (own : ServicesCfg) (founderMode : Char)

/-- `handle_svcnew`, after its judgement. -/
def restoreLines (chan : Text) (rec : IncRec) : List Text :=
  (if rec.guard then [wireJoin own chan] else []) ++
    wireMode own chan "+r".toList none :: applyMlock own rec.mlock chan ++
    [ChanServ.wireSvcmembers chan]

/-- `handle_svcnew`, `handle_svcsync` and `handle_svcmember`.  An older hub's SVCNEW has no stamp
and counts as new. -/
def handleLine (cs : ChanServ) : HubLine → Handled
  | .svcnew chan stamp =>
    match cs.storeGet chan with
    | none => ⟨cs, [], false⟩
    | some rec =>
      let j := cs.judgeIncarnation own chan rec (stamp.elim 0 Prod.fst) (stamp.elim true Prod.snd)
        false
      ⟨j.2.1, j.2.2 ++ restoreLines own chan rec, j.1⟩
  | .svcsync chan m merge =>
    let takeover := !merge && cs.isTakeover chan
    let e := cs.enforceMember own founderMode chan m takeover
    ⟨e.1, e.2, takeover⟩
  | .svcmember chan m stamp =>
    let j := match stamp, cs.storeGet chan with
      | some (ts, hint), some rec => cs.judgeIncarnation own chan rec ts hint true
      | _, _ => (false, cs, [])
    let e := j.2.1.enforceMember own founderMode chan m j.1
    ⟨e.1, j.2.2 ++ e.2, j.1⟩

/-- The timestamp that a line brings a registered channel, if it is newer than the one vetted and
not yet judged. -/
def foundTs (cs : ChanServ) (l : HubLine) : Option Int :=
  let stamp := match l with
    | .svcnew _ stamp => stamp
    | .svcsync _ _ _ => none
    | .svcmember _ _ stamp => stamp
  stamp.bind fun s => (cs.storeGet l.chan).bind fun rec =>
    if 0 < rec.ts ∧ rec.ts < s.1 ∧ cs.judged l.chan s.1 = false then some s.1 else none

end Handle

/-! ## 3. The link

The link has a buffer, and what is in it when the link fails is lost. What was found and vetted is
written down beside the state, to be compared with what was delivered. -/

/-- A line stands as a whole in what a socket took. -/
def Stands (line text : Text) : Prop :=
  ∃ pre suf, (pre = [] ∨ pre.getLast? = some '\n') ∧ text = pre ++ crlf line ++ suf

/-- A takeover that was found, and the members that came with it. -/
structure Takeover where
  chan : Text
  ts : Int
  members : List MemberLine
deriving DecidableEq

/-- A member that was vetted under the verdict of a takeover, and what was queued on it. -/
structure Vetting where
  chan : Text
  ts : Int
  member : MemberLine
  lines : List Text

/-- ChanServ at its link.  `past` is what the sockets before took, and `owed` how much of the buffer
it takes to have out all that was queued on a takeover. -/
structure SvcLink where
  cs : ChanServ
  up : Bool
  buf : Buffer Char
  incoming : List HubBurst
  past : List Text
  owed : Nat
  found : List Takeover
  vetted : List Vetting

/-- Before the first session. -/
def SvcLink.start (cs : ChanServ) : SvcLink := ⟨cs, false, .empty, [], [], 0, [], []⟩

/-- What happens at the link.  `edit` is all that commands, expiry and the other lines change;
`keys` is the order of the store. -/
inductive SvcStep
  | send (b : HubBurst)
  | read
  | write (n : Nat)
  | other (line : Text)
  | edit (cs : ChanServ)
  | lose
  | relink (keys : List Text)

/-- A record as the sweep sees it. -/
def IncRec.entry (key : Text) (rec : IncRec) : StoreEntry :=
  ⟨key, rec.name, rec.guard, rec.topiclock, rec.topic, rec.mlock⟩

section Link

variable (own : ServicesCfg) (founderMode : Char)

namespace SvcLink

/-- A line of the hub is handled, and `b` is what comes after it. -/
def handle (w : SvcLink) (l : HubLine) (b : HubBurst) : SvcLink :=
  let r := handleLine own founderMode w.cs l
  let buf := r.lines.foldl queueLine w.buf
  { w with
    cs := r.cs
    buf := buf
    owed := if r.takeover then buf.held.length else w.owed
    found := w.found ++
      ((foundTs w.cs l).map fun ts => ⟨l.chan, ts, l.member.toList ++ b.toVet⟩).toList
    vetted := w.vetted ++
      if r.takeover then (l.member.map fun m => ⟨l.chan, r.cs.inc.ts, m, r.lines⟩).toList else [] }

/-- What is in the buffer when the link fails goes no further: `run_session` starts with an empty
one, and with no verdict. -/
def step (w : SvcLink) : SvcStep → SvcLink
  | .send b => if w.up then { w with incoming := w.incoming ++ [b] } else w
  | .read =>
    match w.incoming with
    | [] => w
    | b :: bs =>
      match b.next with
      | none => { w with incoming := bs }
      | some (l, b') => { w.handle own founderMode l b' with incoming := b' :: bs }
  | .write n => { w with buf := w.buf.write n, owed := w.owed - n }
  | .other line => if w.up then { w with buf := queueLine w.buf line } else w
  | .edit cs => { w with cs := { cs with inc := w.cs.inc } }
  | .lose =>
    if w.up then
      { w with up := false, buf := .empty, incoming := [], past := w.buf.sent :: w.past, owed := 0 }
    else w
  | .relink keys =>
    if w.up then w
    else
      { w with
        cs := { w.cs with inc := .none, identified := [], granted := [] }
        up := true
        buf := linkStart own (keys.map fun k => (w.cs.store k).map (·.entry k)) }

/-- A socket took the line. -/
def Delivered (w : SvcLink) (line : Text) : Prop :=
  Stands line w.buf.sent ∨ ∃ text ∈ w.past, Stands line text

/-- A member of a takeover was vetted. -/
def Vetted (w : SvcLink) (t : Takeover) (m : MemberLine) : Prop :=
  ∃ v ∈ w.vetted, v.chan = t.chan ∧ v.ts = t.ts ∧ v.member = m

/-- Every takeover is undone: the reset and what came of vetting its members were delivered. It is
said of what the ircd has got, not of what was queued for it. -/
def Undone (w : SvcLink) : Prop :=
  ∀ t ∈ w.found, w.Delivered (ChanServ.wireSvcreset t.chan) ∧
    ∀ m ∈ t.members, ∃ v ∈ w.vetted, v.chan = t.chan ∧ v.ts = t.ts ∧ v.member = m ∧
      ∀ line ∈ v.lines, w.Delivered line

/-- What a step must not do to a takeover: its lines find room, its channel is not dropped before
the members are vetted, and the link is not lost before that has been done and written. -/
def Careful (w : SvcLink) : SvcStep → Prop
  | .read => ∀ b ∈ w.incoming.head?, ∀ x ∈ b.next,
    (handleLine own founderMode w.cs x.1).takeover = true →
      w.buf.held.length +
        ((handleLine own founderMode w.cs x.1).lines.map crlf).flatten.length < sbufSz
  | .edit cs => ∀ t ∈ w.found, (∃ m ∈ t.members, ¬ w.Vetted t m) → (cs.storeGet t.chan).isSome
  | .lose => w.owed = 0 ∧ ∀ t ∈ w.found, ∀ m ∈ t.members, w.Vetted t m
  | _ => True

end SvcLink

end Link

/-! ## 4. What a line does

A newer timestamp is stored at once, and never looked at again. So whatever it should lead to has
to be in the buffer by then. -/

namespace ChanServ

variable {own : ServicesCfg} {founderMode : Char} {cs : ChanServ} {chan : Text} {ts : Int}

/-- The verdict at hand is a takeover of this incarnation, and the channel is registered. -/
structure Watching (cs : ChanServ) (chan : Text) (ts : Int) : Prop where
  inc : cs.inc = ⟨chanFold chan, ts, true⟩
  pos : 0 < ts
  registered : (cs.storeGet chan).isSome

theorem enforceMember_keeps (own : ServicesCfg) (founderMode : Char) (cs : ChanServ) (chan : Text)
    (m : MemberLine) (takeover : Bool) :
    (cs.enforceMember own founderMode chan m takeover).1.inc = cs.inc ∧
      (cs.enforceMember own founderMode chan m takeover).1.store = cs.store := by
  simp only [enforceMember]
  repeat' split
  all_goals exact ⟨rfl, rfl⟩

theorem Watching.enforce (h : cs.Watching chan ts) (chan' : Text) (m : MemberLine)
    (takeover : Bool) :
    (cs.enforceMember own founderMode chan' m takeover).1.Watching chan ts := by
  obtain ⟨hinc, hstore⟩ := enforceMember_keeps own founderMode cs chan' m
    takeover
  refine ⟨hinc.trans h.inc, h.pos, ?_⟩
  rw [storeGet, hstore]
  exact h.registered

theorem Watching.judged (h : cs.Watching chan ts) : cs.judged chan ts = true := by
  rw [ChanServ.judged, h.inc]
  exact decide_eq_true ⟨h.pos, rfl, rfl⟩

theorem judgeIncarnation_judged (h : cs.judged chan ts = true) (rec : IncRec)
    (hint restore : Bool) :
    cs.judgeIncarnation own chan rec ts hint restore = (cs.inc.takeover, cs, []) := by
  rw [judgeIncarnation, if_pos h]

/-- A newer timestamp is stored, and the reset is queued. -/
theorem judgeIncarnation_found (own : ServicesCfg) {rec : IncRec}
    (hj : cs.judged chan ts = false) (hknown : 0 < rec.ts) (hnew : rec.ts < ts) (hint restore : Bool) :
    (cs.judgeIncarnation own chan rec ts hint restore).1 = true ∧
      (cs.judgeIncarnation own chan rec ts hint restore).2.1.Watching chan ts ∧
      wireSvcreset chan ∈ (cs.judgeIncarnation own chan rec ts hint restore).2.2 := by
  have htake : takeoverOf rec ts hint = true := by
    rw [takeoverOf, if_pos hknown]
    exact decide_eq_true hnew
  have hpos : 0 < ts := hknown.trans hnew
  have hstored : 0 < ts ∧ ts ≠ rec.ts := ⟨hpos, hnew.ne'⟩
  have heq : cs.judgeIncarnation own chan rec ts hint restore =
      (true, ⟨Function.update cs.store (chanFold chan) (some { rec with ts := ts }),
        ⟨chanFold chan, ts, true⟩, cs.identified, cs.granted⟩,
        takeoverLines own chan rec restore) := by
    rw [judgeIncarnation, if_neg (by rw [hj]; decide), htake, if_pos hstored]
    rfl
  rw [heq]
  refine ⟨rfl, ⟨rfl, hpos, ?_⟩, ?_⟩
  · simp [storeGet]
  · exact List.mem_append_left _ List.mem_cons_self

end ChanServ

section Lines

open ChanServ

variable {own : ServicesCfg} {founderMode : Char} {cs : ChanServ} {chan : Text} {ts : Int}

/-- A line that brings a newer timestamp finds a takeover. -/
theorem handleLine_found (own : ServicesCfg) (founderMode : Char) {l : HubLine}
    (h : foundTs cs l = some ts) :
    (handleLine own founderMode cs l).takeover = true ∧
      (handleLine own founderMode cs l).cs.Watching l.chan ts ∧
      wireSvcreset l.chan ∈ (handleLine own founderMode cs l).lines := by
  obtain ⟨s, hs, h⟩ := Option.bind_eq_some_iff.mp h
  obtain ⟨rec, hrec, h⟩ := Option.bind_eq_some_iff.mp h
  split at h
  · rename_i hnew
    obtain rfl := Option.some_inj.mp h
    obtain ⟨hknown, hnewer, hj⟩ := hnew
    cases l with
    | svcnew chan stamp =>
      obtain rfl : stamp = some s := hs
      have hrec' : cs.storeGet chan = some rec := hrec
      obtain ⟨htake, hwatch, hreset⟩ := judgeIncarnation_found own hj hknown hnewer s.2 false
      simp only [handleLine, hrec', HubLine.chan]
      exact ⟨htake, hwatch, List.mem_append_left _ hreset⟩
    | svcsync chan m merge => exact absurd hs (by simp)
    | svcmember chan m stamp =>
      obtain rfl : stamp = some s := hs
      have hrec' : cs.storeGet chan = some rec := hrec
      obtain ⟨htake, hwatch, hreset⟩ := judgeIncarnation_found own hj hknown hnewer s.2 true
      simp only [handleLine, hrec', HubLine.chan]
      exact ⟨htake, hwatch.enforce .., List.mem_append_left _ hreset⟩
  · exact absurd h (by simp)

/-- The lines that follow the finding one are handled under its verdict. -/
theorem handleLine_watching (own : ServicesCfg) (founderMode : Char) (h : cs.Watching chan ts)
    {l : HubLine} {m : MemberLine}
    (hl : l = .svcsync chan m false ∨ ∃ hint, l = .svcmember chan m (some (ts, hint))) :
    (handleLine own founderMode cs l).takeover = true ∧
      (handleLine own founderMode cs l).cs.Watching chan ts := by
  rcases hl with rfl | ⟨hint, rfl⟩
  · have htake : cs.isTakeover chan = true := by
      rw [isTakeover, h.inc]
      simp
    simp only [handleLine, htake]
    exact ⟨rfl, h.enforce ..⟩
  · obtain ⟨rec, hrec⟩ := Option.isSome_iff_exists.mp h.registered
    have hj : cs.judgeIncarnation own chan rec ts hint true = (true, cs, []) := by
      rw [judgeIncarnation_judged h.judged, h.inc]
    simp only [handleLine, hrec, hj]
    exact ⟨trivial, h.enforce ..⟩

end Lines

/-! ## 5. What the buffer holds -/

/-- Nothing, or whole lines. -/
def Lined (text : Text) : Prop := text = [] ∨ text.getLast? = some '\n'

theorem Stands.mono {line text text' : Text} (h : Stands line text) (hp : text <+: text') :
    Stands line text' := by
  obtain ⟨pre, suf, hpre, rfl⟩ := h
  obtain ⟨rest, rfl⟩ := hp
  exact ⟨pre, suf ++ rest, hpre, by simp only [List.append_assoc]⟩

theorem not_stands_nil (line : Text) : ¬ Stands line [] := by
  rintro ⟨pre, suf, -, h⟩
  have hlen := congrArg List.length h
  simp [crlf] at hlen

theorem Lined.crlf {text : Text} (line : Text) : Lined (text ++ crlf line) := by
  refine Or.inr ?_
  rw [SekurIRCd.crlf, List.getLast?_append, List.getLast?_append]
  rfl

theorem Lined.lines {text : Text} (h : Lined text) : ∀ lines : List Text,
    Lined (text ++ (lines.map SekurIRCd.crlf).flatten)
  | [] => by simpa using h
  | line :: lines => by
    have hl : Lined (text ++ SekurIRCd.crlf line) := Lined.crlf line
    have ih := hl.lines lines
    simpa using ih

/-- Each of the lines that were queued together stands in what they were appended to. -/
theorem Lined.stands {text : Text} : ∀ {lines : List Text}, Lined text → ∀ {line : Text},
    line ∈ lines → Stands line (text ++ (lines.map SekurIRCd.crlf).flatten)
  | [], _, _, hmem => absurd hmem (by simp)
  | l :: lines, h, line, hmem => by
    rw [List.map_cons, List.flatten_cons, ← List.append_assoc]
    rcases List.mem_cons.mp hmem with rfl | hmem
    · exact ⟨text, _, h, rfl⟩
    · exact Lined.stands (Lined.crlf l) hmem

theorem queueLines_eq (lines : List Text) (buf : Buffer Char) :
    lines.foldl queueLine buf = buf.queueAll sbufSz (lines.map crlf) := by
  rw [Buffer.queueAll, List.foldl_map]
  rfl

theorem Lined.queueLine {buf : Buffer Char} (h : Lined buf.stream) (line : Text) :
    Lined (queueLine buf line).stream := by
  rw [SekurIRCd.queueLine, Buffer.queue]
  split
  · rw [Buffer.stream, ← List.append_assoc]
    exact Lined.crlf line
  · exact h

theorem Lined.queueLines {buf : Buffer Char} (lines : List Text) (h : Lined buf.stream) :
    Lined (lines.foldl SekurIRCd.queueLine buf).stream := by
  induction lines generalizing buf with
  | nil => exact h
  | cons line lines ih => exact ih (h.queueLine line)

theorem held_queueLines (lines : List Text) (buf : Buffer Char) :
    buf.held <+: (lines.foldl queueLine buf).held := by
  induction lines generalizing buf with
  | nil => exact List.prefix_rfl
  | cons line lines ih =>
    refine List.IsPrefix.trans ?_ (ih (queueLine buf line))
    rw [queueLine, Buffer.queue]
    split
    · exact List.prefix_append ..
    · exact List.prefix_rfl

theorem sent_queueLines (lines : List Text) (buf : Buffer Char) :
    (lines.foldl queueLine buf).sent = buf.sent := by
  rw [queueLines_eq, Buffer.sent_queueAll]

theorem take_of_initial {a b : Text} (h : a <+: b) {n : Nat} (hn : n ≤ a.length) :
    b.take n = a.take n := by
  obtain ⟨rest, rfl⟩ := h
  exact List.take_append_of_le_length hn

/-! ## 6. The run

A line that was queued is delivered, or is among what is owed; and this stays so, step by step. -/

namespace SvcLink

variable {own : ServicesCfg} {founderMode : Char} {w : SvcLink}

/-- What the socket has once all that was queued on a takeover is out. -/
def front (w : SvcLink) : Text := w.buf.sent ++ w.buf.held.take w.owed

/-- The line is delivered, or will be with what is owed. -/
def Secured (w : SvcLink) (line : Text) : Prop :=
  Stands line w.front ∨ ∃ text ∈ w.past, Stands line text

/-- The member's line is in the burst at hand, and the verdict still is that of the takeover. -/
def Pending (w : SvcLink) (t : Takeover) (m : MemberLine) : Prop :=
  w.cs.Watching t.chan t.ts ∧ ∃ ms bs, m ∈ ms ∧
    (w.incoming = .ranked t.chan ms :: bs ∨
      ∃ hint, w.incoming = .members t.chan (some (t.ts, hint)) ms :: bs)

/-- What careful steps keep. -/
structure Watched (w : SvcLink) : Prop where
  lined : Lined w.buf.stream
  owed_le : w.owed ≤ w.buf.held.length
  down : w.up = false → w.buf = .empty ∧ w.incoming = []
  reset : ∀ t ∈ w.found, w.Secured (ChanServ.wireSvcreset t.chan)
  lines : ∀ v ∈ w.vetted, ∀ line ∈ v.lines, w.Secured line
  vet : ∀ t ∈ w.found, ∀ m ∈ t.members, w.Vetted t m ∨ w.Pending t m

theorem watched_start (cs : ChanServ) : (start cs).Watched where
  lined := Or.inl rfl
  owed_le := Nat.le_refl 0
  down _ := ⟨rfl, rfl⟩
  reset _ ht := absurd ht (by simp [start])
  lines _ hv := absurd hv (by simp [start])
  vet _ ht := absurd ht (by simp [start])

/-- A line stays secured while the front grows and the past is kept. -/
theorem Secured.mono {w' : SvcLink} {line : Text} (h : w.Secured line) (hf : w.front <+: w'.front)
    (hp : w'.past = w.past) : w'.Secured line := by
  rcases h with h | ⟨text, htext, h⟩
  · exact Or.inl (h.mono hf)
  · exact Or.inr ⟨text, hp ▸ htext, h⟩

/-- With nothing held, all that is secured is delivered. -/
theorem Secured.delivered {line : Text} (h : w.Secured line) (hd : w.buf.held = []) :
    w.Delivered line := by
  rwa [Secured, front, hd, List.take_nil, List.append_nil] at h

/-- With nothing on the way, the takeovers are undone. -/
theorem Watched.undone (h : w.Watched) (hin : w.incoming = []) (hd : w.buf.held = []) :
    w.Undone := by
  intro t ht
  refine ⟨(h.reset t ht).delivered hd, fun m hm => ?_⟩
  rcases h.vet t ht m hm with ⟨v, hv, hchan, hts, hmem⟩ | ⟨-, ms, bs, -, hb⟩
  · exact ⟨v, hv, hchan, hts, hmem, fun line hl => (h.lines v hv line hl).delivered hd⟩
  · rw [hin] at hb
    rcases hb with hb | ⟨_, hb⟩
    · exact absurd hb (by simp)
    · exact absurd hb (by simp)

/-- One step that leaves found, vetted and the burst at hand alone. -/
theorem Watched.of_quiet {w' : SvcLink} (h : w.Watched) (hl : Lined w'.buf.stream)
    (ho : w'.owed ≤ w'.buf.held.length) (hd : w'.up = false → w'.buf = .empty ∧ w'.incoming = [])
    (hfound : w'.found = w.found) (hvetted : w'.vetted = w.vetted)
    (hsec : ∀ line, w.Secured line → w'.Secured line)
    (hpend : ∀ t ∈ w.found, ∀ m ∈ t.members, ¬ w.Vetted t m → w.Pending t m → w'.Pending t m) :
    w'.Watched where
  lined := hl
  owed_le := ho
  down := hd
  reset t ht := hsec _ (h.reset t (hfound ▸ ht))
  lines v hv line hline := hsec _ (h.lines v (hvetted ▸ hv) line hline)
  vet t ht m hm := by
    rw [hfound] at ht
    by_cases hv : w.Vetted t m
    · left
      rwa [Vetted, hvetted]
    · exact Or.inr (hpend t ht m hm hv ((h.vet t ht m hm).resolve_left hv))

theorem Watched.send (h : w.Watched) (b : HubBurst) :
    (w.step own founderMode (.send b)).Watched := by
  rw [step]
  split
  · rename_i hup
    refine h.of_quiet h.lined h.owed_le (fun hd => absurd (hup.symm.trans hd) (by decide)) rfl rfl
      (fun _ hs => hs) ?_
    rintro t - m - - ⟨hwatch, ms, bs, hm, hb⟩
    refine ⟨hwatch, ms, bs ++ [b], hm, ?_⟩
    rcases hb with hb | ⟨hint, hb⟩
    · exact Or.inl (by rw [hb, List.cons_append])
    · exact Or.inr ⟨hint, by rw [hb, List.cons_append]⟩
  · exact h

theorem Watched.write (h : w.Watched) (n : Nat) :
    (w.step own founderMode (.write n)).Watched := by
  have hfront : w.front <+: (w.step own founderMode (.write n)).front := by
    have htake : w.buf.held.take n ++ (w.buf.held.drop n).take (w.owed - n) =
        w.buf.held.take (max n w.owed) := by
      rw [← List.take_add]
      congr 1
      omega
    rw [front, front, step, Buffer.write, List.append_assoc, htake]
    exact (List.prefix_append_right_inj _).mpr (List.take_prefix_take_left (Nat.le_max_right ..))
  refine h.of_quiet ?_ ?_ ?_ rfl rfl (fun _ hs => hs.mono hfront rfl) fun _ _ _ _ _ hp => hp
  · rw [step, Buffer.stream_write]
    exact h.lined
  · have hlen : w.owed - n ≤ (w.buf.held.drop n).length := by
      rw [List.length_drop]
      exact Nat.sub_le_sub_right h.owed_le n
    exact hlen
  · intro hd
    obtain ⟨hbuf, hin⟩ := h.down hd
    refine ⟨?_, hin⟩
    rw [step, hbuf]
    simp [Buffer.write, Buffer.empty]

theorem Watched.other (h : w.Watched) (line : Text) :
    (w.step own founderMode (.other line)).Watched := by
  rw [step]
  split
  · rename_i hup
    have hheld : w.buf.held <+: (queueLine w.buf line).held := held_queueLines [line] w.buf
    have hsent : (queueLine w.buf line).sent = w.buf.sent := sent_queueLines [line] w.buf
    refine h.of_quiet (h.lined.queueLine line) (h.owed_le.trans hheld.length_le)
      (fun hd => absurd (hup.symm.trans hd) (by decide)) rfl rfl (fun _ hs => hs.mono ?_ rfl)
      fun _ _ _ _ _ hp => hp
    rw [front, front, hsent, take_of_initial hheld h.owed_le]
  · exact h

theorem Watched.edit (h : w.Watched) {cs : ChanServ}
    (hc : w.Careful own founderMode (.edit cs)) :
    (w.step own founderMode (.edit cs)).Watched := by
  refine h.of_quiet h.lined h.owed_le h.down rfl rfl (fun _ hs => hs) ?_
  rintro t ht m hm hv ⟨hwatch, hb⟩
  exact ⟨⟨hwatch.inc, hwatch.pos, hc t ht ⟨m, hm, hv⟩⟩, hb⟩

theorem Watched.lose (h : w.Watched) (hc : w.Careful own founderMode .lose) :
    (w.step own founderMode .lose).Watched := by
  obtain ⟨howed, hvet⟩ := hc
  rw [step]
  split
  · refine h.of_quiet (Or.inl rfl) (Nat.le_refl 0) (fun _ => ⟨rfl, rfl⟩) rfl rfl ?_
      fun t ht m hm hv _ => absurd (hvet t ht m hm) hv
    intro line hs
    rcases hs with hs | ⟨text, htext, hs⟩
    · rw [front, howed, List.take_zero, List.append_nil] at hs
      exact Or.inr ⟨_, List.mem_cons_self, hs⟩
    · exact Or.inr ⟨text, List.mem_cons_of_mem _ htext, hs⟩
  · exact h

theorem Watched.relink (h : w.Watched) (keys : List Text) :
    (w.step own founderMode (.relink keys)).Watched := by
  rw [step]
  split
  · exact h
  · rename_i hup
    obtain ⟨hbuf, hin⟩ := h.down (by simpa using hup)
    have howed : w.owed = 0 := by
      have hle := h.owed_le
      rw [hbuf] at hle
      exact Nat.le_zero.mp hle
    refine h.of_quiet ?_ (by rw [howed]; exact Nat.zero_le _) (fun hd => absurd hd (by simp))
      rfl rfl ?_ ?_
    · exact Lined.queueLines _ (Or.inl rfl)
    · intro line hs
      rcases hs with hs | hs
      · rw [front, hbuf, Buffer.empty, List.take_nil, List.append_nil] at hs
        exact absurd hs (not_stands_nil line)
      · exact Or.inr hs
    · rintro t - m - - ⟨-, ms, bs, -, hb⟩
      rw [hin] at hb
      rcases hb with hb | ⟨_, hb⟩
      · exact absurd hb (by simp)
      · exact absurd hb (by simp)

/-- What a line under a takeover verdict queues is secured. -/
theorem Watched.handle_secures (h : w.Watched) {l : HubLine} (b : HubBurst)
    (htake : (handleLine own founderMode w.cs l).takeover = true)
    (hfit : w.buf.held.length +
      ((handleLine own founderMode w.cs l).lines.map crlf).flatten.length < sbufSz) {line : Text} (hline : line ∈ (handleLine own founderMode w.cs l).lines) :
    (w.handle own founderMode l b).Secured line := by
  refine Or.inl ?_
  have hheld := Buffer.held_queueAll_of_fits hfit
  rw [← queueLines_eq] at hheld
  rw [front, handle, if_pos htake, List.take_length, sent_queueLines, hheld, ← List.append_assoc]
  exact h.lined.stands hline

theorem Watched.handle_front (h : w.Watched) (l : HubLine) (b : HubBurst) :
    w.front <+: (w.handle own founderMode l b).front := by
  have hheld := held_queueLines (handleLine own founderMode w.cs l).lines w.buf
  simp only [front, handle, sent_queueLines]
  refine (List.prefix_append_right_inj _).mpr ?_
  split
  · rw [List.take_length]
    exact (List.take_prefix ..).trans hheld
  · rw [take_of_initial hheld h.owed_le]

/-- What comes after a finding line is about the same channel and incarnation. -/
theorem next_of_found {cs : ChanServ} {l : HubLine} {b b' : HubBurst} {ts : Int}
    (hnext : b.next = some (l, b')) (h : foundTs cs l = some ts) :
    b' = .ranked l.chan b'.toVet ∨ ∃ hint, b' = .members l.chan (some (ts, hint)) b'.toVet := by
  have hstamp : ∀ m merge, l ≠ .svcsync l.chan m merge := by
    rintro m merge hl
    rw [hl] at h
    exact absurd h (by simp [foundTs])
  unfold HubBurst.next at hnext
  split at hnext
  · obtain ⟨rfl, rfl⟩ := Prod.mk.inj (Option.some_inj.mp hnext)
    exact Or.inl rfl
  · exact absurd hnext (by simp)
  · obtain ⟨rfl, rfl⟩ := Prod.mk.inj (Option.some_inj.mp hnext)
    exact absurd rfl (hstamp _ _)
  · obtain ⟨rfl, rfl⟩ := Prod.mk.inj (Option.some_inj.mp hnext)
    exact absurd rfl (hstamp _ _)
  · exact absurd hnext (by simp)
  · rename_i chan stamp m ms
    obtain ⟨rfl, rfl⟩ := Prod.mk.inj (Option.some_inj.mp hnext)
    obtain ⟨s, hs, h⟩ := Option.bind_eq_some_iff.mp h
    obtain rfl : stamp = some s := hs
    obtain ⟨rec, -, h⟩ := Option.bind_eq_some_iff.mp h
    split at h
    · obtain rfl := Option.some_inj.mp h
      exact Or.inr ⟨s.2, rfl⟩
    · exact absurd h (by simp)

/-- A member whose line is handled under a takeover verdict is vetted. -/
theorem vetted_handle {l : HubLine} (b : HubBurst) {t : Takeover} {m : MemberLine}
    (htake : (handleLine own founderMode w.cs l).takeover = true)
    (hwatch : (handleLine own founderMode w.cs l).cs.Watching t.chan t.ts)
    (hchan : l.chan = t.chan) (hm : l.member = some m) :
    (w.handle own founderMode l b).Vetted t m := by
  refine ⟨⟨l.chan, (handleLine own founderMode w.cs l).cs.inc.ts, m,
    (handleLine own founderMode w.cs l).lines⟩, List.mem_append_right _ ?_, hchan, ?_, rfl⟩
  · rw [if_pos htake, hm]
    exact List.mem_singleton_self _
  · rw [hwatch.inc]

/-- The members of a takeover that is just found. -/
theorem vet_found {l : HubLine} {b b' : HubBurst} {bs : List HubBurst} {ts : Int}
    (hnext : b.next = some (l, b')) (h : foundTs w.cs l = some ts) {m : MemberLine}
    (hm : m ∈ l.member.toList ++ b'.toVet) :
    Vetted { w.handle own founderMode l b' with incoming := b' :: bs }
        ⟨l.chan, ts, l.member.toList ++ b'.toVet⟩ m ∨
      Pending { w.handle own founderMode l b' with incoming := b' :: bs }
        ⟨l.chan, ts, l.member.toList ++ b'.toVet⟩ m := by
  obtain ⟨htake, hwatch, -⟩ := handleLine_found own founderMode h
  rcases List.mem_append.mp hm with hm | hm
  · exact Or.inl (vetted_handle b' htake hwatch rfl (Option.mem_toList.mp hm))
  · refine Or.inr ⟨hwatch, b'.toVet, bs, hm, ?_⟩
    rcases next_of_found hnext h with hb | ⟨hint, hb⟩
    · exact Or.inl (by rw [← hb])
    · exact Or.inr ⟨hint, by rw [← hb]⟩

theorem Pending.handle {l : HubLine} {b b' : HubBurst} {bs : List HubBurst} {t : Takeover}
    {m : MemberLine} (h : w.Pending t m) (hin : w.incoming = b :: bs)
    (hnext : b.next = some (l, b')) :
    Vetted { w.handle own founderMode l b' with incoming := b' :: bs } t m ∨
      Pending { w.handle own founderMode l b' with incoming := b' :: bs } t m := by
  obtain ⟨hwatch, ms, bs', hm, hb⟩ := h
  -- Both kinds of burst go on with a line that is handled under the verdict.
  have hline : ∃ m₀ ms', ms = m₀ :: ms' ∧
      ((l = .svcsync t.chan m₀ false ∧ b' = .ranked t.chan ms') ∨
        ∃ hint, l = .svcmember t.chan m₀ (some (t.ts, hint)) ∧
          b' = .members t.chan (some (t.ts, hint)) ms') := by
    cases ms with
    | nil => exact absurd hm (by simp)
    | cons m₀ ms' =>
      refine ⟨m₀, ms', rfl, ?_⟩
      rw [hin] at hb
      rcases hb with hb | ⟨hint, hb⟩
      · obtain ⟨rfl, -⟩ := List.cons.inj hb
        obtain ⟨rfl, rfl⟩ := Prod.mk.inj (Option.some_inj.mp hnext)
        exact Or.inl ⟨rfl, rfl⟩
      · obtain ⟨rfl, -⟩ := List.cons.inj hb
        obtain ⟨rfl, rfl⟩ := Prod.mk.inj (Option.some_inj.mp hnext)
        exact Or.inr ⟨hint, rfl, rfl⟩
  obtain ⟨m₀, ms', rfl, hl⟩ := hline
  have hform : l = .svcsync t.chan m₀ false ∨
      ∃ hint, l = .svcmember t.chan m₀ (some (t.ts, hint)) :=
    hl.imp And.left fun ⟨hint, hl, _⟩ => ⟨hint, hl⟩
  obtain ⟨htake, hwatch'⟩ := handleLine_watching own founderMode hwatch hform
  rcases List.mem_cons.mp hm with rfl | hm
  · left
    refine vetted_handle b' htake hwatch' ?_ ?_
    · rcases hform with rfl | ⟨_, rfl⟩ <;> rfl
    · rcases hform with rfl | ⟨_, rfl⟩ <;> rfl
  · refine Or.inr ⟨hwatch', ms', bs, hm, ?_⟩
    rcases hl with ⟨-, rfl⟩ | ⟨hint, -, rfl⟩
    · exact Or.inl rfl
    · exact Or.inr ⟨hint, rfl⟩

/-- A burst that is read on: its next line finds a takeover, or goes on with the one at hand. -/
theorem Watched.handle (h : w.Watched) {l : HubLine} {b b' : HubBurst} {bs : List HubBurst}
    (hin : w.incoming = b :: bs) (hnext : b.next = some (l, b'))
    (hup : w.up = true)
    (hfit : (handleLine own founderMode w.cs l).takeover = true →
      w.buf.held.length + ((handleLine own founderMode w.cs l).lines.map crlf).flatten.length <
        sbufSz) :
    Watched { w.handle own founderMode l b' with incoming := b' :: bs } where
  lined := h.lined.queueLines _
  owed_le := by
    simp only [SvcLink.handle]
    split
    · exact Nat.le_refl _
    · exact h.owed_le.trans (held_queueLines _ _).length_le
  down hd := absurd (hup.symm.trans hd) (by decide)
  reset t ht := by
    rcases List.mem_append.mp ht with ht | ht
    · exact (h.reset t ht).mono (h.handle_front l b') rfl
    · obtain ⟨ts, hts, rfl⟩ := Option.map_eq_some_iff.mp (Option.mem_toList.mp ht)
      obtain ⟨htake, -, hreset⟩ := handleLine_found own founderMode hts
      exact h.handle_secures b' htake (hfit htake) hreset
  lines v hv line hline := by
    rcases List.mem_append.mp hv with hv | hv
    · exact (h.lines v hv line hline).mono (h.handle_front l b') rfl
    · split at hv
      · rename_i htake
        obtain ⟨m, -, rfl⟩ := Option.map_eq_some_iff.mp (Option.mem_toList.mp hv)
        exact h.handle_secures b' htake (hfit htake) hline
      · exact absurd hv (by simp)
  vet t ht m hm := by
    rcases List.mem_append.mp ht with ht | ht
    · rcases h.vet t ht m hm with ⟨v, hv, hvt⟩ | hp
      · exact Or.inl ⟨v, List.mem_append_left _ hv, hvt⟩
      · exact hp.handle hin hnext
    · obtain ⟨ts, hts, rfl⟩ := Option.map_eq_some_iff.mp (Option.mem_toList.mp ht)
      exact vet_found hnext hts hm

theorem Watched.read (h : w.Watched) (hc : w.Careful own founderMode .read) :
    (w.step own founderMode .read).Watched := by
  rw [step]
  split
  · exact h
  · rename_i b bs hin
    have hup : w.up = true := by
      by_contra hdown
      have hnil := (h.down (by simpa using hdown)).2
      rw [hin] at hnil
      exact absurd hnil (by simp)
    split
    · rename_i hnext
      refine h.of_quiet h.lined h.owed_le (fun hd => absurd (hup.symm.trans hd) (by decide)) rfl rfl
        (fun _ hs => hs) ?_
      rintro t - m - - ⟨-, ms, bs', hm, hb⟩
      -- A burst with a member to vet has a next line.
      rw [hin] at hb
      cases ms with
      | nil => exact absurd hm (by simp)
      | cons m₀ ms' =>
        rcases hb with hb | ⟨hint, hb⟩
        · rw [(List.cons.inj hb).1] at hnext
          exact absurd hnext (by simp [HubBurst.next])
        · rw [(List.cons.inj hb).1] at hnext
          exact absurd hnext (by simp [HubBurst.next])
    · rename_i l b' hnext
      exact h.handle hin hnext hup (hc b (by rw [hin]; rfl) (l, b') hnext)

theorem Watched.step (h : w.Watched) {s : SvcStep} (hc : w.Careful own founderMode s) :
    (w.step own founderMode s).Watched := by
  cases s with
  | send b => exact h.send b
  | read => exact h.read hc
  | write n => exact h.write n
  | other line => exact h.other line
  | edit cs => exact h.edit hc
  | lose => exact h.lose hc
  | relink keys => exact h.relink keys

end SvcLink

def demoServices : ServicesCfg := ⟨"ChanServ".toList, "services".toList, "services.".toList, none⟩

/-- #c, last vetted at 100, and nobody on its access list. -/
def demoChanServ : ChanServ where
  store name :=
    if name = "#c".toList then
      some ⟨"#c".toList, 100, false, false, false, false, [], "ada".toList,
        ⟨false, [], [], [], [], [], [], []⟩, fun _ => none, fun _ => []⟩
    else none
  inc := .none
  identified := []
  granted := []

/-- Who recreated it. -/
def demoSquatter : MemberLine :=
  ⟨"eve".toList, "e".toList, "h".toList, ['*'], false, ['o']⟩

/-- The channel appears at 200, with its op. -/
def demoAppears : List SvcStep :=
  [.relink ["#c".toList], .write 1000,
    .send (.appeared "#c".toList (some (200, true)) [demoSquatter]), .read, .read, .read]

def demoWatched : List SvcStep := demoAppears ++ [.write 1000]

/-- The link fails before the buffer is written, and the sweep of the next session finds nothing
new. -/
def demoFails : List SvcStep :=
  demoAppears ++ [.lose, .relink ["#c".toList], .write 1000,
    .send (.members "#c".toList (some (200, false)) [demoSquatter]), .read, .read, .write 1000]

theorem Stands.isInfix {line text : Text} (h : Stands line text) : crlf line <:+: text := by
  obtain ⟨pre, suf, -, rfl⟩ := h
  exact ⟨pre, suf, rfl⟩

end SekurIRCd
