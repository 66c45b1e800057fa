/-
# A multiline batch on its way

The server of a batch's sender sends its lines as MLINE and then the message, flattened, as PRIVMSG
or NOTICE.  Both go from server to server, built anew at each, to every server for a channel and
along one path for a user.  A server that delivers the message has kept the lines that came before
it, and finds them under the sender and the msgid.

Between two servers nothing is overtaken; between two lines of a batch a server may handle anything
else, batches of other users and of other links included.  `multiline_intact` says what this
comes to: where the table has spared the batch (`MlTable.Spares`), the message finds its lines as
they were sent, less the carriage returns that no line between servers can carry, and leaves none.
-/
import SekurIRCd.Message
import SekurIRCd.Net.Lines
import SekurIRCd.Net.Multiline
import SekurIRCd.Lib.Runs

namespace SekurIRCd

open CLib

/-! ## 1. The lines between servers -/

/-- `server_next_msgid`: the prefix is 16 hexadecimal digits. -/
def serverNextMsgid (msgidPart : Text) (counter : Nat) : Text := msgidPart ++ '-' :: decimal counter

/-- What a msgid is like: short, not empty, of letters, digits and dashes. So it is one word of a
line. -/
structure MsgidShape (msgid : Text) : Prop where
  ne_nil : msgid ≠ []
  short : msgid.length < 48
  chars : ∀ c ∈ msgid, isAlnum c = true ∨ c = '-'

theorem serverNextMsgid_shape {msgidPart : Text} {counter : Nat} (hlen : msgidPart.length = 16)
    (halnum : ∀ c ∈ msgidPart, isAlnum c = true) (hcount : counter < 2 ^ 64) :
    MsgidShape (serverNextMsgid msgidPart counter) := by
  have hdigits : (decimal counter).length ≤ 20 := decimal_length_le (by decide) (by omega)
  refine ⟨by simp [serverNextMsgid], ?_, fun c hc => ?_⟩
  · simp only [serverNextMsgid, List.length_append, List.length_cons]
    omega
  · rcases List.mem_append.mp hc with hc | hc
    · exact Or.inl (halnum c hc)
    · rcases List.mem_cons.mp hc with hc | hc
      · exact Or.inr hc
      · exact Or.inl (by simp [isAlnum, isDigit_of_mem_decimal hc])

/-- `netsync_mline`. -/
def netsyncMline (uid wire msgid : Text) (l : MlLine) : Text :=
  (ircBuild 700 [] (some uid) "MLINE".toList [wire, msgid, if l.1 then ['c'] else ['-']]
    (some l.2)).text

/-- `netsync_message`, with the tags of `wire_tags`: a batch has no others than its msgid. -/
def netsyncMessage (uid wire msgid verb text : Text) : Text :=
  (ircBuild 1500 [("msgid".toList, msgid)] (some uid) verb [wire] (some text)).text

/-- `ml_to_links`, and the flattened message behind it. -/
def mlToLinks (uid wire msgid verb text : Text) (ls : List MlLine) : List Text :=
  ls.map (netsyncMline uid wire msgid) ++ [netsyncMessage uid wire msgid verb text]

/-- A line as it is found: a carriage return or newline is not carried. -/
def mlSent (l : MlLine) : MlLine := (l.1, ircEscape 1024 l.2)

theorem MsgidShape.notMem {msgid : Text} (h : MsgidShape msgid) {c : Char}
    (hc : isAlnum c = false) (hd : c ≠ '-') : c ∉ msgid := by
  intro hm
  rcases h.chars c hm with hm | hm
  · rw [hc] at hm
    exact absurd hm (by simp)
  · exact hd hm

theorem MsgidShape.plain {msgid : Text} (h : MsgidShape msgid) : Plain msgid := by
  have hshort := h.short
  refine ⟨h.ne_nil, ?_, h.notMem (by decide) (by decide), h.notMem (by decide) (by decide),
    h.notMem (by decide) (by decide), by omega⟩
  rintro c hc rfl
  exact h.notMem (by decide) (by decide) (List.mem_of_mem_head? hc)

theorem MsgidShape.tagOk {msgid : Text} (h : MsgidShape msgid) : TagOk ("msgid".toList, msgid) := by
  have hshort := h.short
  have hkey : ∀ c ∈ "msgid".toList, c ≠ ';' ∧ c ≠ '=' ∧ c ≠ ' ' := by decide
  exact ⟨(by decide : "msgid".toList ≠ []), fun hc => (hkey _ hc).1 rfl, fun hc => (hkey _ hc).2.1 rfl,
    fun hc => (hkey _ hc).2.2 rfl, escapeTagValue_eq _ _ (by simp only; omega)⟩

/-- What is built depends on the trailing text only as it is escaped. -/
theorem ircBuild_escape (outsz : Nat) (tags : List (Text × Text)) (pfx : Option Text)
    (command : Text) (params : List Text) (t : Text) :
    ircBuild outsz tags pfx command params (some (ircEscape 1024 t)) =
      ircBuild outsz tags pfx command params (some t) := by
  have hidem : ircEscape 1024 (ircEscape 1024 t) = ircEscape 1024 t := by
    have h := ircEscape_take (n := 1024) (m := 1024) t
    rwa [List.take_of_length_le (ircEscape_length_lt (by decide) t).le] at h
  simp only [ircBuild, appendTrailing, hidem]

/-- What a user says is parsed as it was built, but for the carriage returns and newlines in it. -/
theorem parse_said {outsz : Nat} {tags : List (Text × Text)} {uid command : Text}
    {params : List Text} (hu : UidShape uid) (htags : ∀ t ∈ tags, TagOk t)
    (htagsle : tags.length ≤ ircMaxTags) (hcommand : Command command)
    (hparams : ∀ p ∈ params, Plain p) (hparamsle : params.length < ircMaxParams) (t : Text)
    (hfit : (tagSection tags).length + uid.length + (joinSep ' ' (command :: params)).length +
      (ircEscape 1024 t).length + 4 < outsz) :
    ircParseLine (ircBuild outsz tags (some uid) command params (some t)).text =
      some ⟨tags, some uid, command, params ++ [ircEscape 1024 t]⟩ := by
  let m : Message := ⟨tags, some uid, command, params, some (ircEscape 1024 t)⟩
  have hm : m.Ok :=
    { tags := htags
      tags_le := htagsle
      pfx := by
        intro p hp
        obtain rfl := Option.some.inj hp
        exact hu.source
      command := hcommand
      no_colon := fun hn => absurd hn (by simp [m])
      no_at := fun hn => absurd hn (by simp [m])
      params := hparams
      params_le := hparamsle
      trailing := by
        intro t' ht
        obtain rfl := Option.some.inj ht
        have hno : ∀ c, c = '\r' ∨ c = '\n' → c ∉ ircEscape 1024 t := by
          rintro c hc hin
          have hkeep := (List.mem_filter.mp (List.mem_of_mem_take hin)).2
          rcases hc with rfl | rfl <;> simp at hkeep
        exact ⟨hno _ (Or.inl rfl), hno _ (Or.inr rfl), ircEscape_length_lt (by decide) t⟩ }
  have hline : m.line.length < outsz := by
    simp only [Message.line, m, Option.elim_some, List.length_append, List.length_cons,
      List.length_nil]
    omega
  have hround := (Message.round_trip hm hline).2
  rwa [Message.build, ircBuild_escape] at hround

theorem escapeTag_length (v : Text) : (escapeTag v).length ≤ 2 * v.length := by
  induction v with
  | nil => exact Nat.zero_le _
  | cons c s ih =>
    have hc : (escapeTagChar c).length ≤ 2 := by
      unfold escapeTagChar
      split_ifs <;> simp
    rw [escapeTag, List.flatMap_cons, ← escapeTag, List.length_append, List.length_cons]
    omega

/-- The parameters that a batch is sent with. -/
structure MlSendable (uid wire msgid verb : Text) (ls : List MlLine) : Prop where
  uid : UidShape uid
  plain : Plain wire
  wire_lt : wire.length < 72
  msgid : MsgidShape msgid
  verb : ∃ notice, verb = mlVerb notice
  lines : ∀ l ∈ ls, l.2.length < 420

section Sendable

variable {uid wire msgid verb : Text} {ls : List MlLine} (h : MlSendable uid wire msgid verb ls)

include h

theorem MlSendable.parse_mline {l : MlLine} (hl : l.2.length < 420) :
    ircParseLine (netsyncMline uid wire msgid l) = some ⟨[], some uid, "MLINE".toList,
      [wire, msgid, if l.1 then ['c'] else ['-'], ircEscape 1024 l.2]⟩ := by
  have hparams : ∀ p ∈ [wire, msgid, if l.1 then ['c'] else ['-']], Plain p := by
    intro p hp
    simp only [List.mem_cons, List.not_mem_nil, or_false] at hp
    rcases hp with rfl | rfl | rfl
    · exact h.plain
    · exact h.msgid.plain
    · split <;> decide
  refine parse_said h.uid (fun t ht => absurd ht List.not_mem_nil) (Nat.zero_le _) (by decide)
    hparams (by simp [ircMaxParams]) l.2 ?_
  have hesc := ircEscape_length_le (n := 1024) l.2
  have hu := h.uid.length
  have hw := h.wire_lt
  have hi := h.msgid.short
  have hflag : (if l.1 then ['c'] else ['-']).length = 1 := by split <;> rfl
  simp only [tagSection, if_true, joinSep_eq_flatMap, List.flatMap_cons, List.flatMap_nil,
    List.length_append, List.length_cons, List.length_nil, hflag]
  have hname : "MLINE".toList.length = 5 := rfl
  simp only [uidLen] at hu
  omega

theorem MlSendable.parse_message (text : Text) :
    ircParseLine (netsyncMessage uid wire msgid verb text) =
      some ⟨[("msgid".toList, msgid)], some uid, verb, [wire, ircEscape 1024 text]⟩ := by
  obtain ⟨notice, hverb⟩ := h.verb
  have hcommand : Command verb ∧ verb.length ≤ 7 := by
    rw [hverb]
    cases notice <;> decide
  refine parse_said h.uid (fun t ht => ?_) (by simp [ircMaxTags]) hcommand.1 (fun p hp => ?_)
    (by simp [ircMaxParams]) text ?_
  · rw [List.mem_singleton.mp ht]
    exact h.msgid.tagOk
  · rw [List.mem_singleton.mp hp]
    exact h.plain
  · have hesc := ircEscape_length_lt (n := 1024) (by decide) text
    have htag : (tagSection [("msgid".toList, msgid)]).length ≤ 2 * msgid.length + 8 := by
      have hv := escapeTag_length msgid
      have hkey : "msgid".toList.length = 5 := rfl
      simp only [tagSection, tagWord, if_neg h.msgid.ne_nil, List.map_cons, List.map_nil, joinSep,
        List.length_append, List.length_cons, List.length_nil, reduceCtorEq, if_false, hkey]
      omega
    have hu := h.uid.length
    have hw := h.wire_lt
    have hi := h.msgid.short
    have hc := hcommand.2
    simp only [joinSep_eq_flatMap, List.flatMap_cons, List.flatMap_nil, List.length_append,
      List.length_cons, List.length_nil]
    simp only [uidLen] at hu
    omega

end Sendable

/-! ## 2. The servers on the way

A path is a row of servers, and what is on its way between two of them is a queue. Lines of others
arrive at a server from elsewhere, so they are events. -/

/-- A message that was delivered, with the lines that waited for it. -/
structure MlDelivery where
  sender : Text
  verb : Text
  target : Text
  msgid : Text
  lines : Option (List MlLine)
deriving DecidableEq, Repr

/-- A server on the path: whether it knows the user as one behind the link upstream, its table, the
lines that were put there so far and the messages it delivered. -/
structure MlServer where
  known : Bool
  table : MlTable
  heard : List (Text × Text × MlLine)
  delivered : List MlDelivery

/-- Whom a target names on a server: no client, one of its own, one behind the next server of the
path, or one behind another. -/
inductive Whom
  | noOne
  | ours
  | onward
  | elsewhere
deriving DecidableEq, Repr

/-- The client a target names, if it has the length of a UID. -/
def whom (look : Text → Whom) (target : Text) : Whom :=
  if target.length = uidLen then look target else .noOne

/-- The msgid of a message: of its tag, or the server's own. -/
def messageId (tags : List (Text × Text)) (own : Text) : Text :=
  tags.foldl (fun id t => if t.1 = "msgid".toList then clip 48 t.2 else id) own

namespace MlServer

variable (maxLen : Nat) (s : MlServer)

/-- `cmd_ml_part`. -/
def part (now : Int) (sender msgid : Text) (concat : Bool) (text : Text) : MlServer :=
  { s with
    table := cmdMlPart maxLen s.table now sender msgid concat text
    heard := s.heard ++ [(sender, clip 48 msgid, (concat, mlText maxLen text))] }

/-- `cmd_deliver_remote_message`, for PRIVMSG and NOTICE.  `reaches` says that the target is a
channel or a client of this server. -/
def deliver (sender verb target msgid : Text) (reaches : Bool) : MlServer :=
  let r := mlTake s.table sender msgid
  { s with
    table := r.2
    delivered := if reaches then s.delivered ++ [⟨sender, verb, target, msgid, r.1⟩]
      else s.delivered }

/-- `handle_mline`, with what goes to the next server. -/
def handleMline (m : IrcMessage) (uid : Text) (now : Int) (look : Text → Whom) :
    MlServer × List Text :=
  if m.params.length < 4 then (s, [])
  else
    let target := m.params.getD 0 []
    let msgid := m.params.getD 1 []
    let flag := m.params.getD 2 []
    let text := m.params.getD 3 []
    let fl := (ircBuild 700 [] m.pfx "MLINE".toList [target, msgid, flag] (some text)).text
    let kept := s.part maxLen now uid msgid (flag.head? == some 'c') text
    match whom look target with
    | .onward => (s, [fl])
    | .elsewhere => (s, [])
    | .ours => (kept, [])
    | .noOne => (kept, [fl])

/-- `handle_message`, with what goes to the next server; `own` is the msgid that the server itself
would give. -/
def handleMessage (m : IrcMessage) (uid own : Text) (look : Text → Whom) : MlServer × List Text :=
  match m.params with
  | [] => (s, [])
  | target :: rest =>
    let fl := (ircBuild 1500 m.tags m.pfx m.command [target] rest.getLast?).text
    let reaches := target.length != uidLen || target.contains '#' || whom look target == .ours
    let kept := if m.command = "TAGMSG".toList then s
      else s.deliver uid m.command target (messageId m.tags own) reaches
    match whom look target with
    | .onward => (s, [fl])
    | .elsewhere => (s, [])
    | .ours => (kept, [])
    | .noOne => (kept, [fl])

/-- A line from the link upstream, of the user `uid` (`src_user`). -/
def receive (uid line : Text) (now : Int) (own : Text) (look : Text → Whom) :
    MlServer × List Text :=
  match ircParseLine line with
  | none => (s, [])
  | some m =>
    if m.pfx ≠ some uid ∨ s.known = false then (s, [])
    else if m.command = "MLINE".toList then s.handleMline maxLen m uid now look
    else if ["PRIVMSG".toList, "NOTICE".toList, "TAGMSG".toList].contains m.command then
      s.handleMessage m uid own look
    else (s, [])

end MlServer

/-- The path from server `0`, which the user is on: what is on its way from each server to the next
are the user's lines.  The lines of others that a link carries between them are handled as they
come, and have events of their own. -/
structure MlPath where
  server : Nat → MlServer
  queue : Nat → List Text

def MlPath.start : MlPath := ⟨fun _ => ⟨true, MlTable.start, [], []⟩, fun _ => []⟩

inductive MlEvent
  /-- The user ends a batch, or sends a message without one: then there are no lines. -/
  | finish (wire msgid verb text : Text) (ls : List MlLine)
  /-- Server `i + 1` takes the oldest line that is on its way from server `i`. -/
  | arrive (i : Nat) (now : Int) (own : Text) (look : Text → Whom)
  /-- A line of another user's batch is kept at server `i`. -/
  | part (i : Nat) (now : Int) (sender msgid : Text) (concat : Bool) (text : Text)
  /-- Another user's message is delivered at server `i`. -/
  | message (i : Nat) (sender verb target msgid : Text)
  /-- Server `i` hears that the user has gone. -/
  | forget (i : Nat)

namespace MlPath

variable (p : MlPath)

/-- Something happens at one server. -/
def put (i : Nat) (s : MlServer) : MlPath := { p with server := Function.update p.server i s }

/-- What is left on its way from server `i`. -/
def left (i : Nat) (rest : List Text) : MlPath := { p with queue := Function.update p.queue i rest }

/-- Lines go on their way. -/
def send (i : Nat) (lines : List Text) : MlPath :=
  { p with queue := Function.update p.queue i (p.queue i ++ lines) }

variable {p} {i j : Nat}

@[simp] theorem put_self (s : MlServer) : (p.put i s).server i = s := Function.update_self ..

theorem put_of_ne (s : MlServer) (h : j ≠ i) : (p.put i s).server j = p.server j :=
  Function.update_of_ne h ..

@[simp] theorem queue_put (s : MlServer) : (p.put i s).queue = p.queue := rfl

@[simp] theorem left_self (rest : List Text) : (p.left i rest).queue i = rest :=
  Function.update_self ..

theorem left_of_ne (rest : List Text) (h : j ≠ i) : (p.left i rest).queue j = p.queue j :=
  Function.update_of_ne h ..

@[simp] theorem server_left (rest : List Text) : (p.left i rest).server = p.server := rfl

@[simp] theorem send_self (lines : List Text) : (p.send i lines).queue i = p.queue i ++ lines :=
  Function.update_self ..

theorem send_of_ne (lines : List Text) (h : j ≠ i) : (p.send i lines).queue j = p.queue j :=
  Function.update_of_ne h ..

@[simp] theorem server_send (lines : List Text) : (p.send i lines).server = p.server := rfl

end MlPath

def mlStep (maxLen : Nat) (uid : Text) (p : MlPath) : MlEvent → MlPath
  | .finish wire msgid verb text ls => p.send 0 (mlToLinks uid wire msgid verb text ls)
  | .arrive i now own look =>
    match p.queue i with
    | [] => p
    | line :: rest =>
      let r := (p.server (i + 1)).receive maxLen uid line now own look
      ((p.left i rest).put (i + 1) r.1).send (i + 1) r.2
  | .part i now sender msgid concat text =>
    p.put i ((p.server i).part maxLen now sender msgid concat text)
  | .message i sender verb target msgid =>
    p.put i ((p.server i).deliver sender verb target msgid true)
  | .forget i => p.put i { p.server i with known := false }

/-! ## 3. The claim about a batch -/

/-- Where a batch goes: to a channel, maybe to those of a rank there, or to a user of the server
`n` of the path. -/
inductive MlDest
  | channel (mark : Option Char) (name : Text)
  | user (uid : Text) (n : Nat)

namespace MlDest

/-- The target as it is sent to other servers. -/
def wire : MlDest → Text
  | .channel mark name => mark.toList ++ name
  | .user uid _ => uid

/-- What the target names on server `j`. -/
def look : MlDest → Nat → Whom
  | .channel .., _ => .noOne
  | .user _ n, j => if j < n then .onward else .ours

/-- A channel's name, or a user who is not on the sender's own server. -/
def Ok : MlDest → Prop
  | .channel mark name => ircValidChannel name 50 = true ∧ ∀ c ∈ mark, c ∈ ['~', '&', '@', '%', '+']
  | .user uid n => UidShape uid ∧ 0 < n

/-- The servers that deliver what is sent there. -/
def Delivers : MlDest → Nat → Prop
  | .channel .., j => 0 < j
  | .user _ n, j => j = n

theorem Ok.reaches {dest : MlDest} (h : dest.Ok) {j : Nat} (hd : dest.look j ≠ .onward) :
    (dest.wire.length != uidLen || dest.wire.contains '#' || dest.look j == .ours) = true := by
  cases dest with
  | channel mark name =>
    have hmem : '#' ∈ mark.toList ++ name :=
      List.mem_append_right _ (List.mem_of_mem_head? (valid_channel_head h.1))
    rw [wire, List.contains_iff_mem.mpr hmem, Bool.or_true, Bool.true_or]
  | user uid n =>
    simp only [look] at hd ⊢
    split at hd
    · exact absurd rfl hd
    next hn => simp [hn]

theorem look_ne_elsewhere (dest : MlDest) (j : Nat) : dest.look j ≠ .elsewhere := by
  cases dest with
  | channel mark name => simp [look]
  | user uid n =>
    simp only [look]
    split <;> simp

end MlDest

/-- The message that a line belongs to. -/
def lineId (m : IrcMessage) : Text :=
  if m.command = "MLINE".toList then m.params.getD 1 [] else messageId m.tags []

/-- What happens is about other messages: no msgid is given twice, and others have other UIDs. -/
def MlEvent.Other (uid msgid : Text) : MlEvent → Prop
  | .finish wire msgid' verb _ ls => msgid' ≠ msgid ∧ MlSendable uid wire msgid' verb ls
  | .arrive .. => True
  | .part _ _ sender .. => sender ≠ uid
  | .message _ sender .. => sender ≠ uid
  | .forget _ => True

/-- The condition on an event while the batch is on its way: it is about other messages, the target
stays where it is, and the batch keeps its slot. -/
def Undisturbed (uid msgid : Text) (dest : MlDest) (p : MlPath) (e : MlEvent) : Prop :=
  e.Other uid msgid ∧ match e with
    | .arrive i now _ look => ∀ line rest m, (p.server (i + 1)).known = true →
        p.queue i = line :: rest → ircParseLine line = some m →
          (lineId m = msgid → whom look dest.wire = dest.look (i + 1)) ∧
            (m.command = "MLINE".toList →
              (p.server (i + 1)).table.Spares now uid (lineId m) uid msgid)
    | .part i now sender msgid' _ _ => (p.server i).table.Spares now sender msgid' uid msgid
    | _ => True

/-! ## 4. One line at one server -/

/-- The line is of the message. -/
def isOwn (msgid line : Text) : Bool := (ircParseLine line).any fun m => lineId m == msgid

/-- A line that the user's server sends, with the msgid of its message. -/
inductive MlWord (uid : Text) : Text → Text → Prop
  | line {wire msgid verb : Text} {ls : List MlLine} (h : MlSendable uid wire msgid verb ls)
      (l : MlLine) (hl : l.2.length < 420) : MlWord uid msgid (netsyncMline uid wire msgid l)
  | message {wire msgid verb : Text} {ls : List MlLine} (h : MlSendable uid wire msgid verb ls)
      (text : Text) : MlWord uid msgid (netsyncMessage uid wire msgid verb text)

theorem messageId_single {msgid : Text} (hlen : msgid.length < 48) (own : Text) :
    messageId [("msgid".toList, msgid)] own = msgid := by
  unfold messageId
  -- the key stays closed: it is not to be computed
  generalize "msgid".toList = key
  rw [List.foldl_cons, List.foldl_nil, if_pos rfl]
  exact clip_of_fits hlen

theorem mlVerb_ne (notice : Bool) : mlVerb notice ≠ "MLINE".toList ∧
    mlVerb notice ≠ "TAGMSG".toList ∧
      ["PRIVMSG".toList, "NOTICE".toList, "TAGMSG".toList].contains (mlVerb notice) = true := by
  cases notice <;> decide

theorem MlSendable.lineId_message {uid wire msgid verb : Text} {ls : List MlLine}
    (h : MlSendable uid wire msgid verb ls) (params : List Text) :
    lineId ⟨[("msgid".toList, msgid)], some uid, verb, params⟩ = msgid := by
  obtain ⟨notice, hverb⟩ := h.verb
  rw [lineId, if_neg (hverb ▸ (mlVerb_ne notice).1)]
  exact messageId_single h.msgid.short []

theorem MlWord.parsed {uid id line : Text} (h : MlWord uid id line) :
    ∃ m, ircParseLine line = some m ∧ lineId m = id := by
  cases h with
  | line h l hl => exact ⟨_, h.parse_mline hl, rfl⟩
  | message h text => exact ⟨_, h.parse_message text, h.lineId_message _⟩

theorem MlWord.isOwn_eq {uid id line : Text} (h : MlWord uid id line) (msgid : Text) :
    isOwn msgid line = (id == msgid) := by
  obtain ⟨m, hm, hid⟩ := h.parsed
  rw [isOwn, hm, Option.any_some, hid]

/-- What a server makes of a line of the batch: what it keeps of it and what it passes on. -/
def handed (w : Whom) (s kept : MlServer) (line : Text) : MlServer × List Text :=
  match w with
  | .onward => (s, [line])
  | .elsewhere => (s, [])
  | .ours => (kept, [])
  | .noOne => (kept, [line])

/-- A server hands on a line as it is, or not at all. -/
theorem handed_eq (w : Whom) (s kept : MlServer) (line : Text) :
    (handed w s kept line).1 = (if w = .onward ∨ w = .elsewhere then s else kept) ∧
      (handed w s kept line).2 = if w = .ours ∨ w = .elsewhere then [] else [line] := by
  cases w <;> simp [handed]

theorem receive_handleMline {maxLen : Nat} {s : MlServer} (hs : s.known = true) {uid line : Text}
    {m : IrcMessage} (hm : ircParseLine line = some m) (hpfx : m.pfx = some uid)
    (hcommand : m.command = "MLINE".toList) (now : Int) (own : Text) (look : Text → Whom) :
    s.receive maxLen uid line now own look = s.handleMline maxLen m uid now look := by
  unfold MlServer.receive
  rw [hm]
  dsimp only
  rw [if_neg (by simp [hpfx, hs]), if_pos hcommand]

section Receive

variable {uid wire msgid verb : Text} {ls : List MlLine} (h : MlSendable uid wire msgid verb ls)
  {s : MlServer} (hs : s.known = true) (now : Int) (own : Text) (look : Text → Whom)

include h hs

theorem receive_mline (maxLen : Nat) {l : MlLine} (hl : l.2.length < 420) :
    s.receive maxLen uid (netsyncMline uid wire msgid l) now own look =
      handed (whom look wire) s (s.part maxLen now uid msgid l.1 (ircEscape 1024 l.2))
        (netsyncMline uid wire msgid l) := by
  have hflag : ((if l.1 then ['c'] else ['-']).head? == some 'c') = l.1 := by
    cases l.1 <;> rfl
  rw [receive_handleMline hs (h.parse_mline hl) rfl rfl]
  simp only [MlServer.handleMline, List.length_cons, List.length_nil, List.getD_cons_zero,
    List.getD_cons_succ, hflag, ircBuild_escape, lt_irrefl, Nat.reduceAdd, if_false]
  rfl

theorem receive_message (maxLen : Nat) (text : Text) :
    s.receive maxLen uid (netsyncMessage uid wire msgid verb text) now own look =
      handed (whom look wire) s (s.deliver uid verb wire msgid
          (wire.length != uidLen || wire.contains '#' || whom look wire == .ours))
        (netsyncMessage uid wire msgid verb text) := by
  obtain ⟨notice, hverb⟩ := h.verb
  obtain ⟨hmline, htag, hin⟩ := mlVerb_ne notice
  rw [← hverb] at hmline htag hin
  have hid := messageId_single h.msgid.short own
  rw [MlServer.receive, h.parse_message text]
  simp only [ne_eq, not_true_eq_false, hs, Bool.true_eq_false, or_self, if_false, hmline, hin,
    if_true, MlServer.handleMessage, htag, hid, List.getLast?_singleton, ircBuild_escape]
  rfl

end Receive

theorem receive_unknown {maxLen : Nat} {s : MlServer} (hs : s.known = false) (uid line : Text)
    (now : Int) (own : Text) (look : Text → Whom) :
    s.receive maxLen uid line now own look = (s, []) := by
  unfold MlServer.receive
  split
  · rfl
  · rw [if_pos (Or.inr hs)]

/-! ## 5. The batch at one server

At one server the batch goes through its states in order: no line, so many lines, all lines,
delivered. -/

theorem mlText_eq_self {maxLen : Nat} {t : Text} (h : mlText maxLen t = t) :
    t.length ≤ maxLen ∧ t.length < 420 := by
  have hlt := mlText_lt maxLen t
  have hle : (mlText maxLen t).length ≤ maxLen := by
    rw [mlText, clip, List.take_take]
    exact (List.length_take_le _ _).trans (min_le_right _ _)
  rw [h] at hlt hle
  exact ⟨hle, hlt⟩

/-- A line that fitted fits without its carriage returns. -/
theorem mlText_escape {maxLen : Nat} {t : Text} (h : mlText maxLen t = t) :
    mlText maxLen (ircEscape 1024 t) = ircEscape 1024 t := by
  obtain ⟨hle, hlt⟩ := mlText_eq_self h
  have hesc := ircEscape_length_le (n := 1024) t
  rw [mlText, clip, List.take_take, List.take_of_length_le]
  omega

theorem mlBytes_sent_le (ls : List MlLine) : mlBytes (ls.map mlSent) ≤ mlBytes ls := by
  induction ls with
  | nil => exact Nat.zero_le _
  | cons l ls ih =>
    have hesc := ircEscape_length_le (n := 1024) l.2
    simp only [mlBytes, List.map_cons, List.sum_cons, mlSent] at ih ⊢
    omega

theorem mlBytes_take_le (ls : List MlLine) (n : Nat) : mlBytes (ls.take n) ≤ mlBytes ls := by
  have h : mlBytes (ls.take n) + mlBytes (ls.drop n) = mlBytes ls := by
    rw [mlBytes, mlBytes, ← List.sum_append, ← List.map_append, List.take_append_drop, mlBytes]
  omega

section Batch

variable (uid msgid : Text) (dest : MlDest) (ml : MlState)

/-- A server that has handled `k` of the batch's lines, the message being the last: it keeps them
until then, unless they only pass through, and has delivered the message as it was sent. -/
structure ServerAt (s : MlServer) (j k : Nat) : Prop where
  le : k ≤ ml.lines.length + 1
  waits : dest.look j ≠ .onward → 0 < k → k ≤ ml.lines.length →
    ∃ time i, s.table.Waits uid msgid ((ml.lines.take k).map mlSent) time i
  absent : dest.look j = .onward ∨ k = 0 ∨ k = ml.lines.length + 1 → s.table.Absent uid msgid
  delivered : ∀ d ∈ s.delivered, d.sender = uid → d.msgid = msgid →
    k = ml.lines.length + 1 ∧ d.verb = ml.verb ∧ d.target = dest.wire ∧
      d.lines = some (ml.lines.map mlSent)
  done : k = ml.lines.length + 1 → dest.look j ≠ .onward →
    ∃ d ∈ s.delivered, d.sender = uid ∧ d.msgid = msgid

variable {uid msgid dest ml} {s : MlServer} {j k maxLen : Nat}

/-- A server either keeps the lines of the batch or does not. -/
theorem ServerAt.cases (h : ServerAt uid msgid dest ml s j k) :
    s.table.Absent uid msgid ∨ ∃ ls time i, s.table.Waits uid msgid ls time i := by
  by_cases hk : dest.look j = .onward ∨ k = 0 ∨ k = ml.lines.length + 1
  · exact Or.inl (h.absent hk)
  · have hle := h.le
    rw [not_or, not_or] at hk
    obtain ⟨time, i, hw⟩ := h.waits hk.1 (Nat.pos_of_ne_zero hk.2.1) (by omega)
    exact Or.inr ⟨_, time, i, hw⟩

variable (hid : MsgidShape msgid)

include hid

theorem ServerAt.part_other (h : ServerAt uid msgid dest ml s j k) {sender id : Text}
    (ha : Apart sender id uid msgid) {now : Int} (hs : s.table.Spares now sender id uid msgid)
    (concat : Bool) (text : Text) :
    ServerAt uid msgid dest ml (s.part maxLen now sender id concat text) j k where
  le := h.le
  waits := fun hd h0 hk => by
    obtain ⟨time, i, hw⟩ := h.waits hd h0 hk
    exact ⟨time, i, part_other_waits hw hid.ne_nil ha hid.short hs maxLen concat text⟩
  absent := fun hk => part_other_absent (h.absent hk) ha hid.short maxLen now concat text
  delivered := h.delivered
  done := h.done

theorem ServerAt.deliver_other (h : ServerAt uid msgid dest ml s j k) {sender id : Text}
    (ha : sender = uid → id ≠ msgid) (verb target : Text) (reaches : Bool) :
    ServerAt uid msgid dest ml (s.deliver sender verb target id reaches) j k where
  le := h.le
  waits := fun hd h0 hk => by
    obtain ⟨time, i, hw⟩ := h.waits hd h0 hk
    exact ⟨time, i, take_other_waits hw hid.ne_nil ha⟩
  absent := fun hk => take_other_absent (h.absent hk) sender id
  delivered := by
    intro d hd hsender hmsgid
    simp only [MlServer.deliver] at hd
    split at hd
    next =>
      rcases List.mem_append.mp hd with hd | hd
      · exact h.delivered d hd hsender hmsgid
      · rw [List.mem_singleton.mp hd] at hsender hmsgid
        exact absurd hmsgid (ha hsender)
    next => exact h.delivered d hd hsender hmsgid
  done := fun hk hd => by
    obtain ⟨d, hin, hof⟩ := h.done hk hd
    refine ⟨d, ?_, hof⟩
    simp only [MlServer.deliver]
    split
    · exact List.mem_append_left _ hin
    · exact hin

omit hid in
/-- Nothing is kept of the batch by a server it only passes through. -/
theorem ServerAt.passed (h : ServerAt uid msgid dest ml s j k) (hd : dest.look j = .onward)
    (hk : k < ml.lines.length + 1) : ServerAt uid msgid dest ml s j (k + 1) where
  le := hk
  waits := fun hne => absurd hd hne
  absent := fun _ => h.absent (Or.inl hd)
  delivered := fun d hd hsender hmsgid => by
    have hlast := (h.delivered d hd hsender hmsgid).1
    omega
  done := fun _ hne => absurd hd hne

theorem ServerAt.kept (h : ServerAt uid msgid dest ml s j k) (hok : ml.Ok maxLen)
    (hd : dest.look j ≠ .onward) (hk : k < ml.lines.length) {now : Int}
    (hs : s.table.Spares now uid msgid uid msgid) :
    ServerAt uid msgid dest ml
      (s.part maxLen now uid msgid (ml.lines[k]).1 (ircEscape 1024 (ml.lines[k]).2)) j (k + 1) := by
  have hmem : ml.lines[k] ∈ ml.lines := List.getElem_mem hk
  have htext := mlText_escape (hok.texts _ hmem)
  have htake : (ml.lines.take (k + 1)).map mlSent =
      (ml.lines.take k).map mlSent ++ [mlSent ml.lines[k]] := by
    rw [List.take_succ_eq_append_getElem hk, List.map_append, List.map_singleton]
  refine ⟨by omega, fun _ _ _ => ?_, fun hn => ?_, fun d hd hsender hmsgid => ?_,
    fun hn => absurd hn (by omega)⟩
  · rcases Nat.eq_zero_or_pos k with hk0 | hpos
    · -- the first line is not glued onto another
      subst hk0
      have hfirst : (ml.lines[0]).1 = false := by
        refine hok.first _ ?_
        rw [List.head?_eq_getElem?, List.getElem?_eq_getElem hk]
        rfl
      obtain ⟨i, hw⟩ := part_first (h.absent (Or.inr (Or.inl rfl))) hid.short maxLen now
        (ircEscape 1024 (ml.lines[0]).2)
      rw [htext] at hw
      refine ⟨now, i, ?_⟩
      rw [htake, mlSent, hfirst]
      exact hw
    · obtain ⟨time, i, hw⟩ := h.waits hd hpos (by omega)
      have hof : (s.table i).isOf uid msgid = true := by
        rw [hw.slot]
        exact MlSlot.isOf_mk _ hid.ne_nil time
      have hsoon := (hs i hw.lt hof).1
      rw [hw.slot] at hsoon
      have hbytes : mlBytes ((ml.lines.take k).map mlSent) + (ircEscape 1024 (ml.lines[k]).2).length ≤
          mlMaxBytes := by
        have hall := (mlBytes_sent_le (ml.lines.take (k + 1))).trans
          ((mlBytes_take_le ml.lines (k + 1)).trans hok.bytes)
        rwa [htake, mlBytes_append] at hall
      have hlines := hok.lines
      have hnext := part_next hw hid.ne_nil hsoon maxLen (ml.lines[k]).1
        (ircEscape 1024 (ml.lines[k]).2)
        (by
          rw [ne_eq, List.map_eq_nil_iff, List.take_eq_nil_iff]
          rintro (h0 | hnil)
          · omega
          · rw [hnil] at hk
            exact absurd hk (Nat.not_lt_zero k))
        (by rw [List.length_map, List.length_take]; omega) (by rw [htext]; exact hbytes)
      rw [htext] at hnext
      refine ⟨now, i, ?_⟩
      rw [htake]
      exact hnext
  · rcases hn with hn | hn | hn
    · exact absurd hn hd
    · omega
    · omega
  · have hlast := (h.delivered d hd hsender hmsgid).1
    omega

/-- **The message finds the batch.** -/
theorem ServerAt.taken (h : ServerAt uid msgid dest ml s j ml.lines.length)
    (hd : dest.look j ≠ .onward) (hne : ml.lines ≠ []) :
    ServerAt uid msgid dest ml (s.deliver uid ml.verb dest.wire msgid true) j
      (ml.lines.length + 1) := by
  obtain ⟨time, i, hw⟩ := h.waits hd (List.length_pos_iff.mpr hne) le_rfl
  rw [List.take_length] at hw
  obtain ⟨hfound, hnone⟩ := mlTake_waits hw hid.ne_nil (by simpa using hne)
  refine ⟨le_rfl, fun _ _ hk => absurd hk (by omega), fun _ => hnone, fun d hd hsender hmsgid => ?_,
    fun _ _ => ⟨_, List.mem_append_right _ List.mem_cons_self, rfl, rfl⟩⟩
  rcases List.mem_append.mp hd with hold | hnew
  · have hlast := (h.delivered d hold hsender hmsgid).1
    omega
  · rw [List.mem_singleton.mp hnew]
    exact ⟨rfl, rfl, rfl, hfound⟩

/-- **A line of another message** leaves the batch as it is. -/
theorem ServerAt.receive_other (maxLen : Nat) (h : ServerAt uid msgid dest ml s j k) (hknown : s.known = true)
    {id line : Text} (hw : MlWord uid id line) (hne : id ≠ msgid) {now : Int}
    (hs : ∀ m, ircParseLine line = some m → m.command = "MLINE".toList →
      s.table.Spares now uid id uid msgid) (own : Text) (look : Text → Whom) :
    ServerAt uid msgid dest ml (s.receive maxLen uid line now own look).1 j k ∧
      (s.receive maxLen uid line now own look).1.known = true ∧
        ∀ l ∈ (s.receive maxLen uid line now own look).2, l = line := by
  obtain ⟨kept, w, he, hkept, hk⟩ : ∃ kept w, s.receive maxLen uid line now own look =
      handed w s kept line ∧ ServerAt uid msgid dest ml kept j k ∧ kept.known = true := by
    cases hw with
    | line hsend l hl =>
      have ha : Apart uid id uid msgid := fun _ => by rwa [clip_of_fits hsend.msgid.short]
      have hspare := hs _ (hsend.parse_mline hl) rfl
      exact ⟨_, _, receive_mline hsend hknown now own look maxLen hl, h.part_other hid ha hspare _ _, hknown⟩
    | message hsend text =>
      exact ⟨_, _, receive_message hsend hknown now own look maxLen text,
        h.deliver_other hid (fun _ => hne) _ _ _, hknown⟩
  obtain ⟨h1, h2⟩ := handed_eq w s kept line
  rw [he, h1, h2]
  refine ⟨?_, ?_, fun l hl => ?_⟩
  · split
    · exact h
    · exact hkept
  · split
    · exact hknown
    · exact hk
  · split at hl
    · exact absurd hl List.not_mem_nil
    · exact List.mem_singleton.mp hl

/-- **The batch's next line**, or the message after the last, is handled. -/
theorem ServerAt.receive_own (h : ServerAt uid msgid dest ml s j k) (hknown : s.known = true)
    (hok : ml.Ok maxLen) (hne : ml.lines ≠ []) (hdest : dest.Ok)
    (hsend : MlSendable uid dest.wire msgid ml.verb ml.lines) {text line : Text}
    (hline : (mlToLinks uid dest.wire msgid ml.verb text ml.lines)[k]? = some line) {now : Int}
    (hs : ∀ m, ircParseLine line = some m → m.command = "MLINE".toList →
      s.table.Spares now uid msgid uid msgid) (own : Text) {look : Text → Whom}
    (hlook : whom look dest.wire = dest.look j) :
    ServerAt uid msgid dest ml (s.receive maxLen uid line now own look).1 j (k + 1) ∧
      (s.receive maxLen uid line now own look).1.known = true ∧
        (s.receive maxLen uid line now own look).2 = if dest.look j = .ours then [] else [line] := by
  have hlt : k < ml.lines.length + 1 := by
    obtain ⟨hlt, -⟩ := List.getElem?_eq_some_iff.mp hline
    simpa [mlToLinks] using hlt
  obtain ⟨kept, he, hkept, hk⟩ : ∃ kept, s.receive maxLen uid line now own look =
      handed (dest.look j) s kept line ∧
        (dest.look j ≠ .onward → ServerAt uid msgid dest ml kept j (k + 1)) ∧ kept.known = true := by
    by_cases hkl : k < ml.lines.length
    · have hl : (ml.lines[k]).2.length < 420 := hsend.lines _ (List.getElem_mem hkl)
      obtain rfl : netsyncMline uid dest.wire msgid ml.lines[k] = line := by
        rw [mlToLinks, List.getElem?_append_left (by simpa using hkl), List.getElem?_map,
          List.getElem?_eq_getElem hkl] at hline
        exact Option.some.inj hline
      have hspare := hs _ (hsend.parse_mline hl) rfl
      have he := receive_mline hsend hknown now own look maxLen hl
      rw [hlook] at he
      exact ⟨_, he, fun hd => h.kept hid hok hd hkl hspare, hknown⟩
    · obtain rfl : k = ml.lines.length := by omega
      obtain rfl : netsyncMessage uid dest.wire msgid ml.verb text = line := by
        rw [mlToLinks, List.getElem?_append_right (by simp)] at hline
        simpa using hline
      have he := receive_message hsend hknown now own look maxLen text
      rw [hlook] at he
      refine ⟨_, he, fun hd => ?_, hknown⟩
      rw [hdest.reaches hd]
      exact h.taken hid hd hne
  have helse := dest.look_ne_elsewhere j
  obtain ⟨h1, h2⟩ := handed_eq (dest.look j) s kept line
  rw [he, h1, h2]
  simp only [helse, or_false]
  refine ⟨?_, ?_, trivial⟩
  · split
    next hd => exact h.passed hd hlt
    next hd => exact hkept hd
  · split
    · exact hknown
    · exact hk

end Batch

/-! ## 6. The batch on the path

On the path, each server is at a state that is not ahead of the one before, and the queue between
them holds the difference. -/

theorem MlDest.Ok.wire_plain {dest : MlDest} (h : dest.Ok) : Plain dest.wire ∧ dest.wire.length < 72 := by
  cases dest with
  | user uid n =>
    have hlen := h.1.length
    exact ⟨h.1.plain, by simp only [MlDest.wire, hlen]; decide⟩
  | channel mark name =>
    have hplain := plain_of_valid_channel h.1
    have hlen := valid_channel_length h.1
    cases mark with
    | none => exact ⟨hplain, by simp only [MlDest.wire, Option.toList_none, List.nil_append]; omega⟩
    | some c =>
      have hc := h.2 c rfl
      have hne : c ≠ ':' ∧ ' ' ≠ c ∧ '\r' ≠ c ∧ '\n' ≠ c := by
        simp only [List.mem_cons, List.not_mem_nil, or_false] at hc
        rcases hc with rfl | rfl | rfl | rfl | rfl <;> decide
      refine ⟨⟨by simp [MlDest.wire], ?_, ?_, ?_, ?_, ?_⟩, ?_⟩
      · rintro d hd rfl
        exact hne.1 (Option.some.inj hd)
      · exact fun hm => (List.mem_cons.mp hm).elim hne.2.1 hplain.no_space
      · exact fun hm => (List.mem_cons.mp hm).elim hne.2.2.1 hplain.no_cr
      · exact fun hm => (List.mem_cons.mp hm).elim hne.2.2.2 hplain.no_lf
      · simp only [MlDest.wire, Option.toList_some, List.singleton_append, List.length_cons]
        omega
      · simp only [MlDest.wire, Option.toList_some, List.singleton_append, List.length_cons]
        omega

/-- What a batch is sent with is fit for the links. -/
theorem MlState.Ok.sendable {ml : MlState} {maxLen : Nat} (h : ml.Ok maxLen) (hne : ml.lines ≠ [])
    {uid msgid : Text} {dest : MlDest} (hu : UidShape uid) (hid : MsgidShape msgid)
    (hdest : dest.Ok) : MlSendable uid dest.wire msgid ml.verb ml.lines where
  uid := hu
  plain := hdest.wire_plain.1
  wire_lt := hdest.wire_plain.2
  msgid := hid
  verb := h.verb hne
  lines := fun l hl => (mlText_eq_self (h.texts l hl)).2

/-- What is sent for a message is words of it. -/
theorem MlSendable.words {uid wire msgid verb : Text} {ls : List MlLine}
    (h : MlSendable uid wire msgid verb ls) (text : Text) :
    ∀ line ∈ mlToLinks uid wire msgid verb text ls, MlWord uid msgid line := by
  intro line hline
  rcases List.mem_append.mp hline with hline | hline
  · obtain ⟨l, hl, rfl⟩ := List.mem_map.mp hline
    exact .line h l (h.lines l hl)
  · rw [List.mem_singleton.mp hline]
    exact .message h text

theorem filter_isOwn {uid id msgid : Text} {lines : List Text} (h : ∀ line ∈ lines, MlWord uid id line) :
    lines.filter (isOwn msgid) = if id = msgid then lines else [] := by
  have hall : ∀ line ∈ lines, isOwn msgid line = (id == msgid) := fun line hl => (h line hl).isOwn_eq _
  split
  next he =>
    exact List.filter_eq_self.mpr fun line hl => (hall line hl).trans (beq_iff_eq.mpr he)
  next hne =>
    refine List.filter_eq_nil_iff.mpr fun line hl => ?_
    rw [hall line hl]
    simpa using hne

section Path

variable (uid msgid : Text) (dest : MlDest) (ml : MlState) (text : Text)

/-- How many of the batch's lines server `j` has sent on, where the first `sent` of them have left
the user's server and server `j` has handled `k j`. -/
def sentOn (sent : Nat) (k : Nat → Nat) (j : Nat) : Nat :=
  if j = 0 then sent else if dest.look j = .ours then 0 else k j

/-- **Where the batch is**: server `j` has handled its first `k j` lines, and those it has sent on
beyond what the next has handled are on their way, in their order. -/
structure PathAt (sent : Nat) (p : MlPath) (k : Nat → Nat) : Prop where
  words : ∀ j, ∀ line ∈ p.queue j, ∃ id, MlWord uid id line
  origin : k 0 = 0
  servers : ∀ j, ServerAt uid msgid dest ml (p.server j) j (k j)
  behind : ∀ j, k (j + 1) ≤ sentOn dest sent k j
  links : ∀ j, (p.server (j + 1)).known = true → (p.queue j).filter (isOwn msgid) =
    ((mlToLinks uid dest.wire msgid ml.verb text ml.lines).take (sentOn dest sent k j)).drop (k (j + 1))

variable {uid msgid dest ml text} {sent : Nat} {p : MlPath} {k : Nat → Nat}

theorem PathAt.start :
    PathAt uid msgid dest ml text 0 MlPath.start fun _ => 0 where
  words := fun _ _ hl => absurd hl List.not_mem_nil
  origin := rfl
  servers := fun _ => ⟨Nat.zero_le _, fun _ h0 => absurd h0 (lt_irrefl 0),
    fun _ i _ => by simp [MlPath.start, MlTable.start, MlSlot.isOf],
    fun _ hd => absurd hd List.not_mem_nil, fun h0 => absurd h0.symm (Nat.succ_ne_zero _)⟩
  behind := fun _ => Nat.zero_le _
  links := fun j _ => by
    simp [MlPath.start, sentOn]

/-- Nothing of it is anywhere before it is sent. -/
theorem PathAt.fresh (h : PathAt uid msgid dest ml text 0 p k) : ∀ j, k j = 0
  | 0 => h.origin
  | j + 1 => by
    have hbehind := h.behind j
    have ih := h.fresh j
    simp only [sentOn, ih, ite_self] at hbehind
    omega

/-- Something that does not concern it happens at a server. -/
theorem PathAt.put (h : PathAt uid msgid dest ml text sent p k) {i : Nat} {s : MlServer}
    (hs : ServerAt uid msgid dest ml s i (k i)) (hknown : s.known = true → (p.server i).known = true) :
    PathAt uid msgid dest ml text sent (p.put i s) k where
  words := h.words
  origin := h.origin
  servers := fun j => by
    by_cases hj : j = i
    · rw [hj, MlPath.put_self]
      exact hs
    · rw [MlPath.put_of_ne s hj]
      exact h.servers j
  behind := h.behind
  links := fun j hk => by
    refine h.links j ?_
    by_cases hj : j + 1 = i
    · subst hj
      rw [MlPath.put_self] at hk
      exact hknown hk
    · rwa [MlPath.put_of_ne s hj] at hk

theorem PathAt.send_other (h : PathAt uid msgid dest ml text sent p k) {id : Text} (hne : id ≠ msgid)
    {lines : List Text} (hlines : ∀ line ∈ lines, MlWord uid id line) (i : Nat) :
    PathAt uid msgid dest ml text sent (p.send i lines) k where
  words := fun j line hl => by
    by_cases hj : j = i
    · rw [hj, MlPath.send_self] at hl
      rcases List.mem_append.mp hl with hl | hl
      · exact h.words i line hl
      · exact ⟨id, hlines line hl⟩
    · rw [MlPath.send_of_ne _ hj] at hl
      exact h.words j line hl
  origin := h.origin
  servers := h.servers
  behind := h.behind
  links := fun j hk => by
    by_cases hj : j = i
    · subst hj
      rw [MlPath.send_self, List.filter_append, filter_isOwn hlines, if_neg hne,
        List.append_nil]
      exact h.links j hk
    · rw [MlPath.send_of_ne _ hj]
      exact h.links j hk

/-- **It is sent.** -/
theorem PathAt.send_own (h : PathAt uid msgid dest ml text 0 p k)
    (hsend : MlSendable uid dest.wire msgid ml.verb ml.lines) :
    PathAt uid msgid dest ml text (ml.lines.length + 1)
      (p.send 0 (mlToLinks uid dest.wire msgid ml.verb text ml.lines)) k where
  words := fun j line hl => by
    by_cases hj : j = 0
    · rw [hj, MlPath.send_self] at hl
      rcases List.mem_append.mp hl with hl | hl
      · exact h.words 0 line hl
      · exact ⟨msgid, hsend.words text line hl⟩
    · rw [MlPath.send_of_ne _ hj] at hl
      exact h.words j line hl
  origin := h.origin
  servers := h.servers
  behind := fun j => by rw [h.fresh]; exact Nat.zero_le _
  links := fun j hk => by
    have hlink := h.links j hk
    by_cases hj : j = 0
    · subst hj
      have hlen : (mlToLinks uid dest.wire msgid ml.verb text ml.lines).length =
          ml.lines.length + 1 := by simp [mlToLinks]
      simp only [sentOn, if_true, List.take_zero, List.drop_nil] at hlink
      rw [MlPath.send_self, List.filter_append, hlink, filter_isOwn (hsend.words text),
        if_pos rfl, List.nil_append, h.fresh, List.drop_zero, sentOn, if_pos rfl,
        List.take_of_length_le hlen.le]
    · rw [MlPath.send_of_ne _ hj, hlink]
      simp only [sentOn, if_neg hj]

theorem take_drop_append {α : Type*} (l : List α) {a b c : Nat} (hab : a ≤ b) (hbc : b ≤ c) :
    (l.take b).drop a ++ (l.take c).drop b = (l.take c).drop a := by
  have htake : l.take b = (l.take c).take b := by rw [List.take_take, min_eq_left hbc]
  rw [htake]
  generalize l.take c = m
  conv_rhs => rw [← List.take_append_drop b m, List.drop_append]
  congr 1
  by_cases hlen : b ≤ m.length
  · rw [List.length_take_of_le hlen, Nat.sub_eq_zero_of_le hab, List.drop_zero]
  · rw [List.drop_eq_nil_of_le (by omega), List.drop_nil]

/-- **A line arrives**, and the server that it arrives at has handled `c` lines of the batch then. -/
theorem PathAt.arrive (h : PathAt uid msgid dest ml text sent p k) {i : Nat} {rest out : List Text}
    {s : MlServer} {c : Nat} (hrest : ∀ line ∈ rest, ∃ id, MlWord uid id line)
    (hs : ServerAt uid msgid dest ml s (i + 1) c)
    (hknown : s.known = true → (p.server (i + 1)).known = true) (hle : k (i + 1) ≤ c)
    (hc : c ≤ sentOn dest sent k i)
    (hin : s.known = true → rest.filter (isOwn msgid) =
      ((mlToLinks uid dest.wire msgid ml.verb text ml.lines).take (sentOn dest sent k i)).drop c)
    (hwords : ∀ line ∈ out, ∃ id, MlWord uid id line)
    (hout : out.filter (isOwn msgid) = if dest.look (i + 1) = .ours then [] else
      ((mlToLinks uid dest.wire msgid ml.verb text ml.lines).take c).drop (k (i + 1))) :
    PathAt uid msgid dest ml text sent
      (((p.left i rest).put (i + 1) s).send (i + 1) out)
      (Function.update k (i + 1) c) := by
  have hqueue : ∀ j, (((p.left i rest).put (i + 1) s).send (i + 1) out).queue j =
        if j = i + 1 then p.queue j ++ out else if j = i then rest else p.queue j := by
    intro j
    by_cases hj : j = i + 1
    · rw [hj, MlPath.send_self, MlPath.queue_put, if_pos rfl,
        MlPath.left_of_ne rest (Nat.succ_ne_self i)]
    · rw [MlPath.send_of_ne _ hj, MlPath.queue_put, if_neg hj]
      by_cases hji : j = i
      · rw [hji, if_pos rfl, MlPath.left_self]
      · rw [if_neg hji, MlPath.left_of_ne rest hji]
  have hserver : ∀ j, (((p.left i rest).put (i + 1) s).send (i + 1) out).server j = if j = i + 1 then s else p.server j := by
    intro j
    by_cases hj : j = i + 1
    · rw [hj, MlPath.server_send, MlPath.put_self, if_pos rfl]
    · rw [MlPath.server_send, MlPath.put_of_ne s hj, MlPath.server_left, if_neg hj]
  have hsent : ∀ j, sentOn dest sent (Function.update k (i + 1) c) j =
      if j = i + 1 then (if dest.look (i + 1) = .ours then 0 else c) else sentOn dest sent k j := by
    intro j
    by_cases hj : j = i + 1
    · rw [hj, sentOn, if_neg (Nat.succ_ne_zero i), Function.update_self, if_pos rfl]
    · rw [sentOn, Function.update_of_ne hj, if_neg hj, sentOn]
  constructor
  case words =>
    intro j line hl
    rw [hqueue] at hl
    split at hl
    · exact (List.mem_append.mp hl).elim (h.words j line) (hwords line)
    · split at hl
      · exact hrest line hl
      · exact h.words j line hl
  case origin => rw [Function.update_of_ne (Nat.succ_ne_zero i).symm, h.origin]
  case servers =>
    intro j
    rw [hserver]
    by_cases hj : j = i + 1
    · rw [if_pos hj, hj, Function.update_self]
      exact hs
    · rw [if_neg hj, Function.update_of_ne hj]
      exact h.servers j
  case behind =>
    intro j
    rw [hsent]
    by_cases hj : j = i + 1
    · rw [if_pos hj, hj, Function.update_of_ne (show i + 1 + 1 ≠ i + 1 by omega)]
      have hbehind := h.behind (i + 1)
      rw [sentOn, if_neg (Nat.succ_ne_zero i)] at hbehind
      split at hbehind
      next hours => rwa [if_pos hours]
      next hours => rw [if_neg hours]; omega
    · rw [if_neg hj]
      by_cases hji : j = i
      · rw [hji, Function.update_self]
        exact hc
      · rw [Function.update_of_ne (by omega)]
        exact h.behind j
  case links =>
    intro j hk
    rw [hserver] at hk
    rw [hsent, hqueue]
    by_cases hj : j = i + 1
    · subst hj
      rw [if_neg (show i + 1 + 1 ≠ i + 1 by omega)] at hk
      have hlink := h.links (i + 1) hk
      have hbehind := h.behind (i + 1)
      rw [sentOn, if_neg (Nat.succ_ne_zero i)] at hlink hbehind
      rw [if_pos rfl, if_pos rfl, Function.update_of_ne (show i + 1 + 1 ≠ i + 1 by omega), List.filter_append,
        hlink, hout]
      by_cases hours : dest.look (i + 1) = .ours
      · rw [if_pos hours, if_pos hours, if_pos hours, List.append_nil]
      · rw [if_neg hours] at hbehind
        rw [if_neg hours, if_neg hours, if_neg hours]
        exact take_drop_append _ hbehind hle
    · rw [if_neg hj, if_neg hj]
      by_cases hji : j = i
      · subst hji
        rw [if_pos rfl, Function.update_self]
        exact hin (by rwa [if_pos rfl] at hk)
      · rw [if_neg hji, Function.update_of_ne (by omega)]
        exact h.links j (by rwa [if_neg (by omega)] at hk)

theorem MlTable.Absent.spares {t : MlTable} (h : t.Absent uid msgid) (now : Int) (sender id : Text) :
    t.Spares now sender id uid msgid := fun j hj hof => by
  rw [h j hj] at hof
  exact absurd hof (by simp)

/-- The oldest line that is on its way is the next one of the batch, if it is of the batch. -/
theorem PathAt.next (h : PathAt uid msgid dest ml text sent p k) {i : Nat} {line : Text}
    {rest : List Text} (hq : p.queue i = line :: rest)
    (hknown : (p.server (i + 1)).known = true) (hown : isOwn msgid line = true) :
    k (i + 1) < sentOn dest sent k i ∧
      (mlToLinks uid dest.wire msgid ml.verb text ml.lines)[k (i + 1)]? = some line ∧
      rest.filter (isOwn msgid) = ((mlToLinks uid dest.wire msgid ml.verb text ml.lines).take
        (sentOn dest sent k i)).drop (k (i + 1) + 1) := by
  have hlink := h.links i hknown
  rw [hq, List.filter_cons_of_pos hown] at hlink
  generalize mlToLinks uid dest.wire msgid ml.verb text ml.lines = own at hlink
  have hget : (own.take (sentOn dest sent k i))[k (i + 1)]? = some line := by
    have h0 := congrArg (·[0]?) hlink
    simpa only [List.getElem?_cons_zero, List.getElem?_drop, Nat.add_zero] using h0.symm
  have htail := congrArg List.tail hlink
  rw [List.tail_cons, List.tail_drop] at htail
  rw [List.getElem?_take] at hget
  split at hget
  next hlt => exact ⟨hlt, hget, htail⟩
  next => exact absurd hget (by simp)

/-- Before the batch is sent nothing can disturb it. -/
theorem PathAt.undisturbed (h : PathAt uid msgid dest ml text 0 p k) {e : MlEvent}
    (he : e.Other uid msgid) : Undisturbed uid msgid dest p e := by
  have habsent : ∀ j, (p.server j).table.Absent uid msgid := fun j =>
    (h.servers j).absent (Or.inr (Or.inl (h.fresh j)))
  cases e with
  | finish | message | forget => exact ⟨he, trivial⟩
  | part i now sender id concat text' => exact ⟨he, (habsent i).spares now sender id⟩
  | arrive i now own look =>
    refine ⟨he, fun line rest m hknown hq hm => ⟨fun hof => ?_, fun _ =>
      (habsent _).spares now uid (lineId m)⟩⟩
    have hown : isOwn msgid line = true := by rw [isOwn, hm, Option.any_some, hof, beq_self_eq_true]
    have hlt := (h.next hq hknown hown).1
    simp only [sentOn, h.fresh, ite_self, lt_irrefl] at hlt

section Step

variable {maxLen : Nat} (hid : MsgidShape msgid) (hok : ml.Ok maxLen) (hne : ml.lines ≠ [])
  (hdest : dest.Ok) (hsend : MlSendable uid dest.wire msgid ml.verb ml.lines)

include hid hok hne hdest hsend

theorem PathAt.arrive_step (h : PathAt uid msgid dest ml text sent p k) {i : Nat} {now : Int}
    {own : Text} {look : Text → Whom} (hu : Undisturbed uid msgid dest p (.arrive i now own look)) :
    ∃ k', PathAt uid msgid dest ml text sent (mlStep maxLen uid p (.arrive i now own look)) k' := by
  cases hq : p.queue i with
  | nil =>
    rw [mlStep, hq]
    exact ⟨k, h⟩
  | cons line rest =>
    rw [mlStep, hq]
    simp only
    obtain ⟨id, hw⟩ := h.words i line (by rw [hq]; exact List.mem_cons_self)
    have hrest : ∀ l ∈ rest, ∃ id, MlWord uid id l := fun l hl =>
      h.words i l (by rw [hq]; exact List.mem_cons_of_mem _ hl)
    obtain ⟨m, hm, hlineid⟩ := hw.parsed
    have hserver := h.servers (i + 1)
    have hbehind := h.behind i
    have hself : Function.update k (i + 1) (k (i + 1)) = k := Function.update_eq_self ..
    have hnothing : ((mlToLinks uid dest.wire msgid ml.verb text ml.lines).take (k (i + 1))).drop
        (k (i + 1)) = [] := List.drop_eq_nil_of_le (List.length_take_le ..)
    by_cases hknown : (p.server (i + 1)).known = true
    · obtain ⟨hwhom, hspare⟩ := hu.2 line rest m hknown hq hm
      rw [hlineid] at hwhom hspare
      have hone : ∀ m', ircParseLine line = some m' → m'.command = "MLINE".toList →
          (p.server (i + 1)).table.Spares now uid id uid msgid := by
        intro m' hm' hcommand
        obtain rfl := Option.some.inj (hm.symm.trans hm')
        exact hspare hcommand
      by_cases hof : id = msgid
      · subst hof
        have hown : isOwn id line = true := by rw [hw.isOwn_eq, beq_self_eq_true]
        obtain ⟨hlt, hget, hfilter⟩ := h.next hq hknown hown
        obtain ⟨h1, h2, h3⟩ := hserver.receive_own hid hknown hok hne hdest hsend hget hone own
          (hwhom rfl)
        refine ⟨_, h.arrive hrest h1 (fun _ => hknown) (Nat.le_succ _) hlt (fun _ => hfilter) ?_ ?_⟩
        · intro l hl
          rw [h3] at hl
          split at hl
          · exact absurd hl List.not_mem_nil
          · rw [List.mem_singleton.mp hl]
            exact ⟨id, hw⟩
        · rw [h3]
          split
          · rfl
          · rw [List.filter_cons_of_pos hown, List.filter_nil, List.take_add_one, hget,
              Option.toList_some, List.drop_append, hnothing, List.nil_append]
            have hlen := (List.getElem?_eq_some_iff.mp hget).1
            rw [List.length_take_of_le hlen.le, Nat.sub_self, List.drop_zero]
      · obtain ⟨h1, h2, h3⟩ := hserver.receive_other hid maxLen hknown hw hof hone own look
        have hfilter : ∀ ls : List Text, (∀ l ∈ ls, l = line) → ls.filter (isOwn msgid) = [] := by
          intro ls hls
          rw [filter_isOwn fun l hl => (hls l hl) ▸ hw, if_neg hof]
        have harrive := h.arrive hrest h1 (fun _ => hknown) le_rfl hbehind (fun _ => ?_)
          (fun l hl => ⟨id, (h3 l hl) ▸ hw⟩) ?_
        · exact ⟨_, harrive⟩
        · have hlink := h.links i hknown
          rwa [hq, List.filter_cons_of_neg (by rw [hw.isOwn_eq]; simpa using hof)] at hlink
        · rw [hfilter _ h3, hnothing, ite_self]
    · rw [receive_unknown (Bool.eq_false_iff.mpr hknown)]
      have harrive := h.arrive hrest hserver (fun hk => hk) le_rfl hbehind
        (fun hk => absurd hk hknown) (fun l hl => absurd hl List.not_mem_nil)
        (by rw [hnothing, ite_self, List.filter_nil])
      exact ⟨_, harrive⟩

/-- **A step keeps the batch together**, if it is undisturbed. -/
theorem PathAt.step (h : PathAt uid msgid dest ml text sent p k) {e : MlEvent}
    (hu : Undisturbed uid msgid dest p e) :
    ∃ k', PathAt uid msgid dest ml text sent (mlStep maxLen uid p e) k' := by
  cases e with
  | finish wire id verb text' ls => exact ⟨k, h.send_other hu.1.1 (hu.1.2.words text') 0⟩
  | arrive i now own look => exact h.arrive_step hid hok hne hdest hsend hu
  | part i now sender id concat text' =>
    have ha : Apart sender id uid msgid := fun he => absurd he hu.1
    exact ⟨k, h.put ((h.servers i).part_other hid ha hu.2 concat text') fun hk => hk⟩
  | message i sender verb target id =>
    have ha : sender = uid → id ≠ msgid := fun he => absurd he hu.1
    exact ⟨k, h.put ((h.servers i).deliver_other hid ha verb target true) fun hk => hk⟩
  | forget i =>
    have hs := h.servers i
    exact ⟨k, h.put ⟨hs.le, hs.waits, hs.absent, hs.delivered, hs.done⟩ fun hk => absurd hk (by simp)⟩

end Step

end Path

/-! ## 7. Lines of one message are not taken for those of another -/

/-- What waits in a slot came for its message. -/
structure MlSlot.Heard (m : MlSlot) (heard : List (Text × Text × MlLine)) : Prop where
  short : m.msgid.length < 48
  lines : m.msgid ≠ [] → ∀ l ∈ m.lines, (m.sender, m.msgid, l) ∈ heard

/-- What waits for a message, or was found by it, came for it. -/
structure MlServer.Unmixed (s : MlServer) : Prop where
  slots : ∀ i, (s.table i).Heard s.heard
  found : ∀ d ∈ s.delivered, ∀ ls ∈ d.lines, ∀ l ∈ ls, (d.sender, d.msgid, l) ∈ s.heard

section Unmixed

theorem MlSlot.Heard.aged {m : MlSlot} {heard : List (Text × Text × MlLine)} (h : m.Heard heard)
    (now : Int) : (m.aged now).Heard heard := by
  unfold MlSlot.aged
  split
  · exact ⟨by simp, fun hne => absurd rfl hne⟩
  · exact h

theorem MlSlot.Heard.push {m : MlSlot} {heard : List (Text × Text × MlLine)} (h : m.Heard heard)
    (maxLen : Nat) (concat : Bool) (text : Text) :
    (m.push maxLen concat text).Heard
      (heard ++ [(m.sender, m.msgid, (concat, mlText maxLen text))]) := by
  have hold : m.Heard (heard ++ [(m.sender, m.msgid, (concat, mlText maxLen text))]) :=
    ⟨h.short, fun hne l hl => List.mem_append_left _ (h.lines hne l hl)⟩
  unfold MlSlot.push
  split_ifs
  · exact hold
  · exact hold
  · refine ⟨h.short, fun hne l hl => ?_⟩
    rcases List.mem_append.mp hl with hl | hl
    · exact hold.lines hne l hl
    · rw [List.mem_singleton.mp hl]
      exact List.mem_append_right _ List.mem_cons_self

/-- Where a line is placed its message is named, and what waits there came for it. -/
theorem PlacedAt.heard {t u : MlTable} {now : Int} {sender msgid : Text} {k : Nat}
    {heard : List (Text × Text × MlLine)} (h : PlacedAt t now sender msgid k u)
    (ht : ∀ i, (t i).Heard heard) :
    (∀ i, (u i).Heard heard) ∧ (u k).sender = sender ∧ (u k).msgid = clip 48 msgid := by
  have hplaced : (u k).Heard heard ∧ (u k).sender = sender ∧ (u k).msgid = clip 48 msgid := by
    have hk := ht k
    rcases h.slot with ⟨hof, -, hu⟩ | ⟨-, -, hu⟩
    · simp only [MlSlot.isOf, Bool.and_eq_true, beq_iff_eq] at hof
      rw [hu, ← hof.2, clip_of_fits hk.short]
      exact ⟨⟨hk.short, hk.lines⟩, hof.1.2, rfl⟩
    · have hclip := clip_length_le 48 msgid
      rw [hu]
      exact ⟨⟨by simp only; omega, fun _ l hl => absurd hl List.not_mem_nil⟩, rfl, rfl⟩
  refine ⟨fun i => ?_, hplaced.2⟩
  by_cases hik : i = k
  · rw [hik]
    exact hplaced.1
  · rcases h.others i hik with hu | hu
    · rw [hu]
      exact ht i
    · rw [hu]
      exact (ht i).aged now

variable {s : MlServer} (h : s.Unmixed)

include h

theorem MlServer.Unmixed.part (maxLen : Nat) (now : Int) (sender msgid : Text) (concat : Bool)
    (text : Text) : (s.part maxLen now sender msgid concat text).Unmixed := by
  obtain ⟨hheard, hsender, hmsgid⟩ := (place_placedAt s.table now sender msgid).heard h.slots
  simp only [MlServer.part, cmdMlPart]
  generalize s.table.place now sender msgid = r at hheard hsender hmsgid ⊢
  refine ⟨fun i => ?_, fun d hd ls hls l hl => List.mem_append_left _ (h.found d hd ls hls l hl)⟩
  by_cases hi : i = r.1
  · have hpush := (hheard r.1).push maxLen concat text
    rw [hsender, hmsgid] at hpush
    simp only
    rw [hi, Function.update_self]
    exact hpush
  · have hold := hheard i
    simp only
    rw [Function.update_of_ne hi]
    exact ⟨hold.short, fun hne l hl => List.mem_append_left _ (hold.lines hne l hl)⟩

theorem MlServer.Unmixed.deliver (sender verb target msgid : Text) (reaches : Bool) :
    (s.deliver sender verb target msgid reaches).Unmixed := by
  have htake : (∀ i, ((mlTake s.table sender msgid).2 i).Heard s.heard) ∧
      ∀ ls ∈ (mlTake s.table sender msgid).1, ∀ l ∈ ls, (sender, msgid, l) ∈ s.heard := by
    rcases mlTake_cases s.table sender msgid with ⟨-, he⟩ | ⟨k, -, hof, he⟩
    · rw [he]
      exact ⟨h.slots, fun ls hls => absurd hls (by simp)⟩
    · rw [he]
      refine ⟨fun i => ?_, fun ls hls l hl => ?_⟩
      · simp only
        by_cases hi : i = k
        · rw [hi, Function.update_self]
          exact ⟨by simp, fun hne => absurd rfl hne⟩
        · rw [Function.update_of_ne hi]
          exact h.slots i
      · simp only [MlSlot.isOf, Bool.and_eq_true, beq_iff_eq, bne_iff_ne] at hof
        simp only at hls
        split at hls
        · exact absurd hls (by simp)
        · obtain rfl := Option.some.inj hls
          have hin := (h.slots k).lines hof.1.1 l hl
          rwa [hof.1.2, hof.2] at hin
  refine ⟨htake.1, fun d hd => ?_⟩
  simp only [MlServer.deliver] at hd
  split at hd
  next =>
    rcases List.mem_append.mp hd with hd | hd
    · exact h.found d hd
    · rw [List.mem_singleton.mp hd]
      exact htake.2
  next => exact h.found d hd

theorem MlServer.Unmixed.receive (maxLen : Nat) (uid line : Text) (now : Int) (own : Text)
    (look : Text → Whom) : (s.receive maxLen uid line now own look).1.Unmixed := by
  unfold MlServer.receive
  split
  · exact h
  next m _ =>
    split_ifs
    · exact h
    · unfold MlServer.handleMline
      split
      · exact h
      · simp only
        split
        · exact h
        · exact h
        · exact h.part ..
        · exact h.part ..
    · unfold MlServer.handleMessage
      split
      · exact h
      next target rest _ =>
        have hkept : ∀ reaches, (if m.command = "TAGMSG".toList then s else
            s.deliver uid m.command target (messageId m.tags own) reaches).Unmixed := by
          intro reaches
          split
          · exact h
          · exact h.deliver ..
        simp only
        split
        · exact h
        · exact h
        · exact hkept _
        · exact hkept _
    · exact h

end Unmixed

theorem unmixed_put {p : MlPath} (hp : ∀ j, (p.server j).Unmixed) {i : Nat} {s : MlServer}
    (hs : s.Unmixed) (j : Nat) : ((p.put i s).server j).Unmixed := by
  by_cases hj : j = i
  · rw [hj, MlPath.put_self]
    exact hs
  · rw [MlPath.put_of_ne s hj]
    exact hp j

theorem unmixed_step {p : MlPath} (hp : ∀ j, (p.server j).Unmixed) (maxLen : Nat) (uid : Text)
    (e : MlEvent) (j : Nat) : ((mlStep maxLen uid p e).server j).Unmixed := by
  cases e with
  | finish wire msgid verb text ls => exact hp j
  | arrive i now own look =>
    rw [mlStep]
    split
    · exact hp j
    · rw [MlPath.server_send]
      exact unmixed_put (p := p.left i _) hp ((hp (i + 1)).receive ..) j
  | part i now sender msgid concat text => exact unmixed_put hp ((hp i).part ..) j
  | message i sender verb target msgid => exact unmixed_put hp ((hp i).deliver ..) j
  | forget i =>
    have hs : ({ p.server i with known := false } : MlServer).Unmixed := ⟨(hp i).slots, (hp i).found⟩
    exact unmixed_put hp hs j

/-- **No line is taken for another message's**, whatever happens. -/
theorem unmixed_of_run (maxLen : Nat) (uid : Text) (es : List MlEvent) :
    ∀ j, ((es.foldl (mlStep maxLen uid) MlPath.start).server j).Unmixed := by
  induction es using List.reverseRecOn with
  | nil => exact fun j => ⟨fun i => ⟨by simp [MlPath.start, MlTable.start],
      fun hne => absurd rfl hne⟩, fun d hd => absurd hd List.not_mem_nil⟩
  | append_singleton es e ih =>
    rw [List.foldl_append, List.foldl_cons, List.foldl_nil]
    exact unmixed_step ih maxLen uid e

/-! ## 8. The batch crosses -/

/-- The lines have arrived: nothing is on its way to server `j`, and no server there has heard that
the user has gone. -/
def MlPath.Arrived (p : MlPath) (j : Nat) : Prop :=
  ∀ i, i < j → p.queue i = [] ∧ (p.server (i + 1)).known = true

/-- **Every server that delivers the batch** delivers it as it was sent, and keeps nothing of it.
The lines come one by one and may stand between those of other batches. -/
structure Crosses (uid msgid : Text) (dest : MlDest) (ml : MlState) (p : MlPath) : Prop where
  found : ∀ j, ∀ d ∈ (p.server j).delivered, d.sender = uid → d.msgid = msgid →
    d.verb = ml.verb ∧ d.target = dest.wire ∧ d.lines = some (ml.lines.map mlSent) ∧
      (p.server j).table.Absent uid msgid
  arrived : ∀ j, dest.Delivers j → p.Arrived j →
    ∃ d ∈ (p.server j).delivered, d.sender = uid ∧ d.msgid = msgid
  unmixed : ∀ j, (p.server j).Unmixed

theorem MlDest.Delivers.look {dest : MlDest} {j : Nat} (h : dest.Delivers j) (hdest : dest.Ok) :
    0 < j ∧ dest.look j ≠ .onward ∧ ∀ i, i < j → dest.look i ≠ .ours := by
  cases dest with
  | channel mark name => exact ⟨h, by simp [MlDest.look], fun _ _ => by simp [MlDest.look]⟩
  | user uid n =>
    obtain rfl : j = n := h
    refine ⟨hdest.2, by simp [MlDest.look], fun i hi => ?_⟩
    simp [MlDest.look, hi]

section Crosses

variable {uid msgid : Text} {dest : MlDest} {ml : MlState} {text : Text} {p : MlPath} {k : Nat → Nat}

theorem PathAt.handled (h : PathAt uid msgid dest ml text (ml.lines.length + 1) p k) {j : Nat}
    (hours : ∀ i, i < j → dest.look i ≠ .ours) (ha : p.Arrived j) :
    ∀ i, 0 < i → i ≤ j → k i = ml.lines.length + 1 := by
  intro i
  induction i with
  | zero => exact fun h0 => absurd h0 (lt_irrefl 0)
  | succ i ih =>
    intro _ hi
    have hsent : sentOn dest (ml.lines.length + 1) k i = ml.lines.length + 1 := by
      unfold sentOn
      split
      next => rfl
      next h0 => rw [if_neg (hours i hi), ih (Nat.pos_of_ne_zero h0) (by omega)]
    obtain ⟨hq, hknown⟩ := ha i hi
    have hlink := h.links i hknown
    have hlen : (mlToLinks uid dest.wire msgid ml.verb text ml.lines).length =
        ml.lines.length + 1 := by simp [mlToLinks]
    rw [hq, hsent, List.filter_nil, List.take_of_length_le hlen.le] at hlink
    have hle := List.drop_eq_nil_iff.mp hlink.symm
    have hserver := (h.servers (i + 1)).le
    omega

theorem PathAt.crosses (h : PathAt uid msgid dest ml text (ml.lines.length + 1) p k)
    (hdest : dest.Ok) (hun : ∀ j, (p.server j).Unmixed) : Crosses uid msgid dest ml p where
  found := fun j d hd hsender hmsgid => by
    obtain ⟨hk, hverb, htarget, hlines⟩ := (h.servers j).delivered d hd hsender hmsgid
    exact ⟨hverb, htarget, hlines, (h.servers j).absent (Or.inr (Or.inr hk))⟩
  arrived := fun j hd ha => by
    obtain ⟨hpos, honward, hours⟩ := hd.look hdest
    exact (h.servers j).done (h.handled hours ha j hpos le_rfl) honward
  unmixed := hun

end Crosses

/-- **A batch crosses the servers intact** in every run in which its msgid is its own, its target
stays where it is and no table gives it up: each server that delivers it finds its lines as they
were sent, and no server keeps any. -/
theorem multiline_intact {maxLen : Nat} {ref target uid msgid text : Text} {inputs : List MlInput}
    {ml : MlState} {dest : MlDest} (hml : mlCollectAll maxLen (mlOpen ref target) inputs = some ml)
    (hacc : ml.accepted = true) (hu : UidShape uid) (hid : MsgidShape msgid) (hdest : dest.Ok)
    {pre post : List MlEvent} (hpre : ∀ e ∈ pre, e.Other uid msgid)
    (hpost : Runs.Throughout (mlStep maxLen uid) (Undisturbed uid msgid dest)
      (mlStep maxLen uid (pre.foldl (mlStep maxLen uid) MlPath.start)
        (.finish dest.wire msgid ml.verb text ml.lines)) post) :
    Crosses uid msgid dest ml ((pre ++ .finish dest.wire msgid ml.verb text ml.lines :: post).foldl
      (mlStep maxLen uid) MlPath.start) := by
  have hok := mlCollectAll_ok hml
  have hne : ml.lines ≠ [] := by
    rintro hnil
    rw [MlState.accepted, hnil] at hacc
    exact absurd hacc (by simp)
  have hsend := hok.sendable hne hu hid hdest
  obtain ⟨k, hbefore⟩ : ∃ k, PathAt uid msgid dest ml text 0
      (pre.foldl (mlStep maxLen uid) MlPath.start) k := by
    clear hpost
    induction pre using List.reverseRecOn with
    | nil => exact ⟨_, PathAt.start⟩
    | append_singleton es e ih =>
      obtain ⟨k, hk⟩ := ih fun e' he' => hpre e' (List.mem_append_left _ he')
      have he := hpre e (List.mem_append_right _ List.mem_cons_self)
      rw [List.foldl_append, List.foldl_cons, List.foldl_nil]
      exact hk.step hid hok hne hdest hsend (hk.undisturbed he)
  have hafter := Runs.invariant_of_step
    (fun p e (hp : ∃ k, PathAt uid msgid dest ml text (ml.lines.length + 1) p k) he =>
      hp.choose_spec.step hid hok hne hdest hsend he) post _ ⟨k, hbefore.send_own hsend⟩ hpost
  obtain ⟨k', hk'⟩ := hafter
  have hun := unmixed_of_run maxLen uid
    (pre ++ .finish dest.wire msgid ml.verb text ml.lines :: post)
  rw [List.foldl_append, List.foldl_cons] at hun ⊢
  exact hk'.crosses hdest hun

/-! ## 9. Two runs -/

def demoSender : Text := "1AAAAAAAA".toList

def demoOther : Text := "1AAAAAAAB".toList

def demoMsgid : Text := serverNextMsgid "00112233445566aa".toList 7

def demoDest : MlDest := .channel none "#a".toList

/-- `hi `, and ` you` glued onto it. -/
def demoInputs : List MlInput :=
  [⟨"b".toList, false, false, "#a".toList, "hi".toList⟩,
    ⟨"b".toList, true, false, "#A".toList, " you".toList⟩]

def demoBatch : MlState :=
  ⟨"b".toList, "#a".toList, "PRIVMSG".toList, [(false, "hi".toList), (true, " you".toList)]⟩

def demoFinish : MlEvent :=
  .finish demoDest.wire demoMsgid demoBatch.verb "hi you".toList demoBatch.lines

def demoLook : Text → Whom := fun _ => .noOne

/-- A line of another user's batch comes between them. -/
def demoPost : List MlEvent :=
  [.arrive 0 100 [] demoLook, .part 1 101 demoOther "x-1".toList false "hello".toList,
    .arrive 0 102 [] demoLook, .arrive 0 102 [] demoLook]

/-- A slot is spared that was added to lately, if the last one is free. -/
theorem spares_of_free {t : MlTable} {now : Int} {uid msgid : Text}
    (hsoon : ∀ j, j < mlPendingMax → (t j).isOf uid msgid = true → now - (t j).time ≤ mlPendingTtl)
    (hfree : ((t 31).aged now).msgid = []) (sender id : Text) : t.Spares now sender id uid msgid :=
  fun j hj hof => ⟨hsoon j hj hof, 31, by decide, Or.inr (Or.inl hfree)⟩

theorem demoPost_undisturbed : Runs.Throughout (mlStep 400 demoSender)
    (Undisturbed demoSender demoMsgid demoDest) (mlStep 400 demoSender MlPath.start demoFinish)
    demoPost := by
  have hwhom : whom demoLook demoDest.wire = demoDest.look 1 := rfl
  refine ⟨⟨trivial, fun line rest m _ _ _ => ⟨fun _ => hwhom, fun _ => ?_⟩⟩,
    ⟨(by decide : demoOther ≠ demoSender), ?_⟩,
    ⟨trivial, fun line rest m _ _ _ => ⟨fun _ => hwhom, fun _ => ?_⟩⟩,
    ⟨trivial, fun line rest m _ _ _ => ⟨fun _ => hwhom, fun _ => ?_⟩⟩, trivial⟩
  · exact spares_of_free (by decide +kernel) (by decide +kernel) _ _
  · exact spares_of_free (by decide +kernel) (by decide +kernel) _ _
  · exact spares_of_free (by decide +kernel) (by decide +kernel) _ _
  · exact spares_of_free (by decide +kernel) (by decide +kernel) _ _

theorem demoMsgid_shape : MsgidShape demoMsgid :=
  serverNextMsgid_shape (by decide) (by decide) (by decide)

theorem multiline_intact_demo :
    mlCollectAll 400 (mlOpen "b".toList "#a".toList) demoInputs = some demoBatch ∧
      Crosses demoSender demoMsgid demoDest demoBatch
        (([] ++ demoFinish :: demoPost).foldl (mlStep 400 demoSender) MlPath.start) ∧
      ((demoFinish :: demoPost).foldl (mlStep 400 demoSender) MlPath.start |>.server 1).delivered =
        [⟨demoSender, "PRIVMSG".toList, "#a".toList, demoMsgid, some demoBatch.lines⟩] := by
  have hml : mlCollectAll 400 (mlOpen "b".toList "#a".toList) demoInputs = some demoBatch := by
    decide +kernel
  refine ⟨hml, ?_, by decide +kernel⟩
  have hdest : demoDest.Ok := ⟨by decide, fun c hc => absurd hc (by simp)⟩
  exact multiline_intact hml (by decide) (by decide) demoMsgid_shape hdest
    (fun e he => absurd he List.not_mem_nil) demoPost_undisturbed

/-- In another run that line comes 31 seconds after the batch's, before the message. -/
def demoLate : List MlEvent :=
  [.arrive 0 100 [] demoLook, .arrive 0 100 [] demoLook,
    .part 1 131 demoOther "x-1".toList false "hello".toList, .arrive 0 131 [] demoLook]

/-- **The slot is given up** there, and the message finds nothing. -/
theorem aged_batch_lost :
    mlCollectAll 400 (mlOpen "b".toList "#a".toList) demoInputs = some demoBatch ∧
      ((demoFinish :: demoLate).foldl (mlStep 400 demoSender) MlPath.start |>.server 1).delivered =
        [⟨demoSender, "PRIVMSG".toList, "#a".toList, demoMsgid, none⟩] ∧
      ¬ Crosses demoSender demoMsgid demoDest demoBatch
        ((demoFinish :: demoLate).foldl (mlStep 400 demoSender) MlPath.start) := by
  have hdelivered : ((demoFinish :: demoLate).foldl (mlStep 400 demoSender)
      MlPath.start |>.server 1).delivered =
        [⟨demoSender, "PRIVMSG".toList, "#a".toList, demoMsgid, none⟩] := by decide +kernel
  refine ⟨by decide +kernel, hdelivered, fun h => ?_⟩
  have hfound := h.found 1 _ (hdelivered ▸ List.mem_cons_self) rfl rfl
  exact absurd hfound.2.2.1 (by simp)

end SekurIRCd
