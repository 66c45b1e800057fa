/-
# A message as the line of a client

`build_lines` renders a message once for each set of tags that a recipient may have asked for, and
`irc_build` gives the text the room that the rest of the line leaves of 1200 bytes.  The rest is
not always short: a client may add tags of its own, and their values are escaped.  So a text may be
cut for a client with message-tags that is whole for one without, and where not even the rest fits
what is sent is no message.

Without tags of the sender's own there is room for any text that is accepted (`holds_of_tags`):
each of the fields around the text has a buffer, and the sizes of these add up.  A replay has no such
tags, and 1100 bytes; it has the room, too.
-/
import SekurIRCd.Message
import SekurIRCd.Net.Multiline

namespace SekurIRCd

open CLib

/-! ## 1. What stands around a text

The sender, the target and the tags, with the sizes that their buffers give them.  The ids are made
by the server itself: nothing in them is escaped. -/

/-- A name that a server makes up, for a msgid, a batch, a time or a user, in a buffer of `n` bytes:
nothing of it is escaped. -/
structure ServerId (n : Nat) where
  text : Text
  fits : text.length < n
  plain : ∀ c ∈ text, escapeTagChar c = [c]

/-- The capabilities that decide which lines a client is sent: `batch` with `draft/multiline`,
`account-tag` and `message-tags`. -/
structure ClientCaps where
  multiline : Bool
  accountTag : Bool
  messageTags : Bool
deriving DecidableEq, Repr

/-- What is in a line beside its text: `client_prefix`, the account and +B of the sender, the verb,
the target as it was written, the msgid of each line that is built for the message, and the sender's
own tags as `collect_client_tags` leaves them.  For a replay also what the target is called there,
the time, and the ids of the batches. -/
structure Envelope where
  source : Text
  account : Text
  bot : Bool
  notice : Bool
  target : Text
  msgid : Nat → ServerId 48
  clientTags : List (Text × Text)
  name : Text
  time : ServerId 40
  liveBatch : ServerId 24
  pageBatch : ServerId 24
  replayBatch : ServerId 24
  source_fits : source.length < 320
  account_fits : account.length < 64
  name_fits : name.length < 64

namespace Envelope

variable (e : Envelope)

/-- The account, for a client that asked for it. -/
def accountTag (c : ClientCaps) : List (Text × Text) :=
  if e.account ≠ [] ∧ c.accountTag = true then [("account".toList, e.account)] else []

/-- `build_lines` and the choice in `deliver`: the tags of a line, the `i`-th of its message. -/
def tags (c : ClientCaps) (i : Nat) (own : List (Text × Text)) : List (Text × Text) :=
  e.accountTag c ++
    if c.messageTags then
      (if e.bot then [("bot".toList, [])] else []) ++ ("msgid".toList, (e.msgid i).text) :: own
    else []

/-- The tags of a line within a batch. -/
def batchTags (batch : ServerId 24) (concat : Bool) : List (Text × Text) :=
  ("batch".toList, batch.text) ::
    if concat then [("draft/multiline-concat".toList, [])] else []

/-- The tags of a line of a replay: only the first of an entry has its msgid. -/
def pageTags (c : ClientCaps) (first : Bool) : List (Text × Text) :=
  ("batch".toList, e.pageBatch.text) :: ("time".toList, e.time.text) ::
    ((if first then [("msgid".toList, (e.msgid 0).text)] else []) ++ e.accountTag c)

end Envelope

/-- What a line is built of beside its text: the size of the buffer, the tags, the source, the
command and the parameters before the text. -/
structure LineHead where
  outsz : Nat
  tags : List (Text × Text)
  source : Text
  command : Text
  params : List Text

/-! ## 2. The line

What the reader makes of the line it is sent: the text behind the rest.  If the rest does not fit,
`irc_build` gives up and leaves half a line, which is no message. -/

namespace LineHead

variable (h : LineHead)

/-- The rest of the line is built whole, so that only the text can be cut. -/
def Fits : Prop := (ircBuild h.outsz h.tags (some h.source) h.command h.params (some [])).ok = true

instance : Decidable h.Fits := inferInstanceAs (Decidable (_ = _))

/-- The room for the text. -/
def room : Nat := lineRoom h.outsz h.tags (some h.source) h.command h.params

/-- The text that is sent: as much of it as there is room for. -/
def sent (text : Text) : Option Text :=
  if h.Fits then some ((ircEscape 1024 text).take h.room) else none

/-- The line has room for the text, escaped, behind all that stands before it. -/
def Holds (text : Text) : Prop := h.Fits ∧ (ircEscape 1024 text).length ≤ h.room

instance (text : Text) : Decidable (h.Holds text) := inferInstanceAs (Decidable (_ ∧ _))

end LineHead

/-- A text as it stands in a line that has the room for it. -/
def shownText (text : Text) : Text := ircEscape 1024 text

namespace LineHead

variable {h : LineHead}

/-- **What is sent** is what `irc_build` puts behind the rest of the line. -/
theorem sent_built {text t : Text} (hsent : h.sent text = some t) :
    (ircBuild h.outsz h.tags (some h.source) h.command h.params (some text)).text =
      (ircBuild h.outsz h.tags (some h.source) h.command h.params (some [])).text ++ t := by
  rw [sent] at hsent
  split at hsent
  · rw [← Option.some.inj hsent]
    exact ircBuild_room ..
  · exact absurd hsent (by simp)

theorem Holds.sent {text : Text} (hold : h.Holds text) : h.sent text = some (shownText text) := by
  rw [LineHead.sent, if_pos hold.1, List.take_of_length_le hold.2]
  rfl

/-- **A line shows the whole text** exactly if it has room for it. -/
theorem sent_eq_iff {text : Text} : h.sent text = some (shownText text) ↔ h.Holds text := by
  refine ⟨fun heq => ?_, Holds.sent⟩
  rw [LineHead.sent] at heq
  split at heq
  next hfits =>
    have hlen := congrArg List.length (Option.some.inj heq)
    rw [List.length_take] at hlen
    exact ⟨hfits, min_eq_right_iff.mp hlen⟩
  next => exact absurd heq (by simp)

end LineHead

namespace Envelope

variable (e : Envelope)

/-- A line to a client. -/
def head (outsz : Nat) (tags : List (Text × Text)) (target : Text) : LineHead :=
  ⟨outsz, tags, e.source, mlVerb e.notice, [target]⟩

/-- The line by itself that a client is sent (`deliver`), with the sender's own tags. -/
def lineHead (c : ClientCaps) : LineHead := e.head 1200 (e.tags c 0 e.clientTags) e.target

/-- `netsync_message`: the line to another server, which knows the sender by a uid and the target as
`wire`, with the tags of `wire_tags`. -/
def messageHead (uid : ServerId 16) (wire : Text) (own : List (Text × Text)) : LineHead :=
  ⟨1500, ("msgid".toList, (e.msgid 0).text) :: own, uid.text, mlVerb e.notice, [wire]⟩

/-- `netsync_mline`: a line of a batch, ahead of it. -/
def mlineHead (uid : ServerId 16) (wire : Text) (concat : Bool) : LineHead :=
  ⟨700, [], uid.text, "MLINE".toList,
    [wire, (e.msgid 0).text, if concat then ['c'] else ['-']]⟩

/-- The line that is sent for a text: its concat flag, and what there is room for. -/
def sentLine (outsz : Nat) (tags : List (Text × Text)) (target : Text) (l : MlLine) :
    Option MlLine :=
  ((e.head outsz tags target).sent l.2).map (l.1, ·)

end Envelope

/-! ## 3. How much room there is

The rest of a line is a list of pieces, each appended if it fits.  So it is built whole if their
lengths add up to less than the buffer, and what they leave is the room. -/

/-- What a tag takes of a line at most. -/
def tagSize (t : Text × Text) : Nat := t.1.length + (escapeTagValue 1024 t.2).length + 2

namespace LineHead

variable (h : LineHead)

/-- What `irc_build` appends before the text. -/
def pieces : List Text :=
  (if h.tags = [] then [] else
    ['@'] :: ((h.tags.map Message.tagPieces).intersperse [[';']]).flatten ++ [[' ']]) ++
    [[':'], ircEscape 1024 h.source, [' '], ircEscape 1024 h.command] ++
    h.params.flatMap fun p => [[' '], mid p]

/-- What the rest of a line takes at most, with the `" :"` before the text. -/
def size : Nat :=
  (h.tags.map tagSize).sum + h.source.length + h.command.length +
    (h.params.map fun p => p.length + 2).sum + 6

theorem ircBuild_pieces : ircBuild h.outsz h.tags (some h.source) h.command h.params none =
    h.pieces.foldl (fun b s => appendStr h.outsz s b) ⟨[], true⟩ := by
  have hparams : ∀ (ps : List Text) (b : Buf),
      ps.foldl (fun b p => appendStr h.outsz (mid p) (appendStr h.outsz [' '] b)) b =
        (ps.flatMap fun p => [[' '], mid p]).foldl (fun b s => appendStr h.outsz s b) b := by
    intro ps
    induction ps with
    | nil => exact fun _ => rfl
    | cons p ps ih => exact fun b => ih _
  rw [pieces, List.foldl_append, List.foldl_append, ← hparams]
  cases htags : h.tags with
  | nil => rfl
  | cons t ts => rfl

theorem length_tagPieces (tags : List (Text × Text)) :
    (((tags.map Message.tagPieces).intersperse [[';']]).flatten.flatten).length ≤
      (tags.map tagSize).sum := by
  have hone : ∀ t : Text × Text, (Message.tagPieces t).flatten.length + 1 ≤ tagSize t := by
    intro t
    unfold Message.tagPieces tagSize
    split
    · rw [List.flatten_singleton]
      omega
    · simp only [List.flatten_cons, List.flatten_nil, List.append_nil, List.length_append,
        List.length_cons, List.length_nil]
      omega
  induction tags with
  | nil => exact le_rfl
  | cons t ts ih =>
    cases ts with
    | nil =>
      have := hone t
      simp only [List.map_cons, List.map_nil, List.intersperse_singleton, List.flatten_singleton,
        List.sum_cons, List.sum_nil]
      omega
    | cons u us =>
      have := hone t
      simp only [List.map_cons, List.intersperse_cons_cons, List.flatten_cons, List.flatten_append,
        List.length_append, List.sum_cons, List.length_cons, List.length_nil,
        List.flatten_nil] at ih ⊢
      omega

theorem length_params (params : List Text) :
    ((params.flatMap fun p => [[' '], mid p]).flatten).length ≤
      (params.map fun p => p.length + 2).sum := by
  have hmid : ∀ p : Text, (mid p).length ≤ p.length + 1 := by
    intro p
    by_cases hnil : p = []
    · subst hnil
      exact le_rfl
    · exact (mid_length_le hnil).trans (Nat.le_succ _)
  induction params with
  | nil => exact le_rfl
  | cons p params ih =>
    have := hmid p
    simp only [List.flatMap_cons, List.flatten_append, List.flatten_cons, List.flatten_nil,
      List.append_nil, List.length_append, List.length_cons, List.length_nil, List.map_cons,
      List.sum_cons] at ih ⊢
    omega

theorem length_pieces : h.pieces.flatten.length + 2 ≤ h.size := by
  have htags := length_tagPieces h.tags
  have hparams := length_params h.params
  have hsource := ircEscape_length_le (n := 1024) h.source
  have hcommand := ircEscape_length_le (n := 1024) h.command
  rw [pieces, size]
  split
  · simp only [List.flatten_append, List.flatten_cons, List.flatten_nil, List.length_append,
      List.length_cons, List.length_nil]
    omega
  · simp only [List.flatten_append, List.flatten_cons, List.flatten_nil, List.length_append,
      List.length_cons, List.length_nil]
    omega

variable {h}

/-- **A short rest leaves its room** to the text. -/
theorem holds_of_size {text : Text} (hsize : h.size + text.length < h.outsz) : h.Holds text := by
  have hlen := h.length_pieces
  have hesc := ircEscape_length_le (n := 1024) text
  have hbuilt : ircBuild h.outsz h.tags (some h.source) h.command h.params none =
      ⟨h.pieces.flatten, true⟩ := by
    rw [ircBuild_pieces, Message.foldl_pieces _ _ (by rw [List.nil_append]; omega),
      List.nil_append]
  have hcolon := @appendStr_of_fits h.outsz [' ', ':'] h.pieces.flatten
    (by simp only [List.length_cons, List.length_nil]; omega)
  constructor
  · have htrailing : ircBuild h.outsz h.tags (some h.source) h.command h.params (some []) =
        appendTrailing h.outsz [] (ircBuild h.outsz h.tags (some h.source) h.command h.params
          none) := rfl
    rw [Fits, htrailing, hbuilt, appendTrailing, hcolon]
    rfl
  · rw [room, lineRoom, hbuilt, hcolon, if_pos rfl, List.length_append, List.length_cons,
      List.length_cons, List.length_nil]
    omega

end LineHead

/-! ## 4. The lines of the server

What the buffers allow for each kind of line, without tags of the sender's own: at most 660 bytes
in front of the text. -/

theorem tagSize_id {n : Nat} (key : Text) (id : ServerId n) :
    tagSize (key, id.text) ≤ key.length + n + 1 := by
  have hesc : ∀ (v : Text) (room : Nat), (∀ c ∈ v, escapeTagChar c = [c]) →
      (escapeTagValue room v).length ≤ v.length := by
    intro v
    induction v with
    | nil => exact fun _ _ => le_rfl
    | cons c v ih =>
      intro room hv
      obtain ⟨hc, hv⟩ := List.forall_mem_cons.mp hv
      rw [escapeTagValue]
      split
      · exact Nat.zero_le _
      · rw [escapeTagChar] at hc
        simp only [hc, List.length_append, List.length_cons, List.length_nil]
        have := ih (room - (0 + 1)) hv
        omega
  have hlen := hesc id.text 1024 id.plain
  have hfits := id.fits
  rw [tagSize]
  dsimp only
  omega

theorem tagSize_value (key v : Text) : tagSize (key, v) ≤ key.length + 2 * v.length + 2 := by
  have hesc : ∀ (v : Text) (room : Nat), (escapeTagValue room v).length ≤ 2 * v.length := by
    intro v
    induction v with
    | nil => exact fun _ => le_rfl
    | cons c v ih =>
      intro room
      rw [escapeTagValue]
      split
      · exact Nat.zero_le _
      · rw [List.length_append, List.length_cons]
        refine (Nat.add_le_add ?_ (ih _)).trans_eq (show 2 + 2 * v.length = _ by omega)
        split_ifs <;> simp
  have hlen := hesc v 1024
  rw [tagSize]
  dsimp only
  omega

theorem length_mlVerb_le (notice : Bool) : (mlVerb notice).length ≤ 7 := by cases notice <;> decide

namespace Envelope

variable (e : Envelope)

theorem sum_accountTag (c : ClientCaps) : ((e.accountTag c).map tagSize).sum ≤ 135 := by
  rw [accountTag]
  split
  · have hsize := tagSize_value "account".toList e.account
    have hfits := e.account_fits
    have hkey : "account".toList.length = 7 := rfl
    rw [List.map_singleton, List.sum_singleton]
    omega
  · exact Nat.zero_le _

/-- A text that is accepted has room in a line with these tags and this target. -/
theorem holds_of_tags {e : Envelope} {outsz : Nat} {tags : List (Text × Text)}
    {target text : Text} {n : Nat} (htags : (tags.map tagSize).sum + target.length ≤ n)
    (htext : text.length < 420) (hsz : n + 760 < outsz) : (e.head outsz tags target).Holds text := by
  have hsource := e.source_fits
  have hverb := length_mlVerb_le e.notice
  refine LineHead.holds_of_size ?_
  rw [LineHead.size, head]
  simp only [List.map_cons, List.map_nil, List.sum_cons, List.sum_nil]
  omega

/-- A line by itself, of a batch for a client without multiline. -/
theorem holds_live (c : ClientCaps) (i : Nat) {text : Text} (ht : e.target.length < 72)
    (htext : text.length < 420) : (e.head 1200 (e.tags c i []) e.target).Holds text := by
  refine holds_of_tags (n := 270) ?_ htext (by decide)
  have haccount := e.sum_accountTag c
  have hmsgid := tagSize_id "msgid".toList (e.msgid i)
  have hkey : "msgid".toList.length = 5 := rfl
  have hbot : tagSize ("bot".toList, []) = 5 := rfl
  rw [tags, List.map_append, List.sum_append]
  split_ifs
  · simp only [List.map_append, List.map_cons, List.map_nil, List.sum_append, List.sum_cons,
      List.sum_nil, hbot]
    omega
  · simp only [List.nil_append, List.map_cons, List.map_nil, List.sum_cons, List.sum_nil]
    omega
  · simp only [List.map_nil, List.sum_nil]
    omega

theorem holds_batch (batch : ServerId 24) (concat : Bool) {target text : Text}
    (ht : target.length < 72) (htext : text.length < 420) {outsz : Nat} (hsz : 1100 ≤ outsz) :
    (e.head outsz (batchTags batch concat) target).Holds text := by
  refine holds_of_tags (n := 130) ?_ htext (by omega)
  have hbatch := tagSize_id "batch".toList batch
  have hkey : "batch".toList.length = 5 := rfl
  have hconcat : tagSize ("draft/multiline-concat".toList, []) = 24 := rfl
  rw [batchTags, List.map_cons, List.sum_cons]
  split_ifs
  · rw [List.map_singleton, List.sum_singleton, hconcat]
    omega
  · rw [List.map_nil, List.sum_nil]
    omega

theorem holds_page (c : ClientCaps) (first : Bool) {text : Text} (htext : text.length < 420) :
    (e.head 1100 (e.pageTags c first) e.name).Holds text := by
  refine holds_of_tags (n := 337) ?_ htext (by decide)
  have haccount := e.sum_accountTag c
  have hmsgid := tagSize_id "msgid".toList (e.msgid 0)
  have hbatch := tagSize_id "batch".toList e.pageBatch
  have htime := tagSize_id "time".toList e.time
  have hname := e.name_fits
  have hkeys : "msgid".toList.length = 5 ∧ "batch".toList.length = 5 ∧ "time".toList.length = 4 :=
    ⟨rfl, rfl, rfl⟩
  rw [pageTags, List.map_cons, List.map_cons, List.sum_cons, List.sum_cons, List.map_append,
    List.sum_append]
  split_ifs
  · rw [List.map_singleton, List.sum_singleton]
    omega
  · rw [List.map_nil, List.sum_nil]
    omega

/-- **Between servers** there is room for a line of a batch, and for the batch itself. -/
theorem holds_mline (uid : ServerId 16) {wire : Text} (hwire : wire.length < 72) (concat : Bool)
    {text : Text} (htext : text.length < 420) : (e.mlineHead uid wire concat).Holds text := by
  have huid := uid.fits
  have hmsgid := (e.msgid 0).fits
  have hcommand : "MLINE".toList.length = 5 := rfl
  refine LineHead.holds_of_size ?_
  rw [LineHead.size, mlineHead]
  simp only [List.map_cons, List.map_nil, List.sum_cons, List.sum_nil]
  split
  · simp only [List.length_cons, List.length_nil]
    omega
  · simp only [List.length_cons, List.length_nil]
    omega

theorem holds_message (uid : ServerId 16) {wire : Text} (hwire : wire.length < 72) {text : Text}
    (htext : text.length < 420) : (e.messageHead uid wire []).Holds text := by
  have huid := uid.fits
  have hmsgid := tagSize_id "msgid".toList (e.msgid 0)
  have hkey : "msgid".toList.length = 5 := rfl
  have hverb := length_mlVerb_le e.notice
  refine LineHead.holds_of_size ?_
  rw [LineHead.size, messageHead]
  simp only [List.map_cons, List.map_nil, List.sum_cons, List.sum_nil]
  omega

end Envelope

/-- Lines as they are shown where each has room for its text. -/
def wholeLines (ls : List MlLine) : List MlLine := ls.map fun l => (l.1, shownText l.2)

namespace Envelope

variable {e : Envelope} {outsz : Nat} {target : Text}

theorem sentLine_whole {tags : List (Text × Text)} {l : MlLine}
    (h : (e.head outsz tags target).Holds l.2) :
    e.sentLine outsz tags target l = some (l.1, shownText l.2) := by
  rw [sentLine, h.sent]
  rfl

theorem sentLines_whole {ls : List MlLine} {tags : MlLine → List (Text × Text)}
    (h : ∀ l ∈ ls, (e.head outsz (tags l) target).Holds l.2) :
    (ls.filterMap fun l => e.sentLine outsz (tags l) target l) = wholeLines ls := by
  refine (List.filterMap_congr fun l hl => sentLine_whole (h l hl)).trans ?_
  rw [List.filterMap_eq_map', wholeLines]

theorem sentLines_whole_zipIdx {ls : List MlLine} {tags : MlLine × Nat → List (Text × Text)}
    (h : ∀ x ∈ ls.zipIdx, (e.head outsz (tags x) target).Holds x.1.2) :
    (ls.zipIdx.filterMap fun x => e.sentLine outsz (tags x) target x.1) = wholeLines ls := by
  refine (List.filterMap_congr fun x hx => sentLine_whole (h x hx)).trans ?_
  rw [List.filterMap_eq_map', wholeLines]
  conv_rhs => rw [← List.zipIdx_map_fst 0 ls, List.map_map]
  rfl

end Envelope

end SekurIRCd
