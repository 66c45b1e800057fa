/-
# Paging through a conversation

`CHATHISTORY` answers with a stretch of what a conversation has kept: the latest, or what is before,
behind or around a reference, or between two.  Bounds are counted over the entries that the client
sees, which without event playback are the messages.

Reactions and the like (`TAGMSG`) are taken out only after that, for a client without message tags.
So a page can come back empty although there is more, and going on from page to page ends there:
it brings everything exactly when no page can be all `TAGMSG` (`chathistory_pages_iff`).
-/
import SekurIRCd.History
import SekurIRCd.Iso8601
import SekurIRCd.Lib.Paging

namespace SekurIRCd

open CLib Paging

/-! ## 1. The command

The command works on an array of what the client sees, and a reference is turned into two places in
it: where what is before it ends, and where what is behind it begins. -/

/-- A `FAIL` for `CHATHISTORY`: the code, the context and the description. -/
structure HistFail where
  code : Text
  context : Text
  text : Text
deriving DecidableEq, Repr

/-- The capabilities of a client that the command looks at. -/
structure HistClient where
  chathistory : Bool
  batch : Bool
  playback : Bool
  messageTags : Bool
deriving DecidableEq, Repr

/-- `history_ref`: `before` and `after`. An id that is found has one place, and a time stands
between entries; a time that does not fit counts as malformed. -/
def historyRef (v : List HistEntry) (ref : Text) : Option (Nat × Nat) :=
  if "msgid=".toList.isPrefixOf ref then
    (v.findIdx? fun e => decide (e.msgid = ref.drop 6)).map fun i => (i, i + 1)
  else if "timestamp=".toList.isPrefixOf ref then
    match ircParseIso8601Ms (ref.drop 10) with
    | some ms =>
      if ms < 0 then none
      else some (v.countP fun e => decide (e.ms < ms), v.countP fun e => decide (e.ms ≤ ms))
    | none => none
  else none

/-- `hist_is_message`. -/
def histIsMessage (e : HistEntry) : Bool :=
  e.verb == "PRIVMSG".toList || e.verb == "NOTICE".toList

/-- An entry exists as far as the client is concerned. -/
def HistClient.sees (cl : HistClient) (e : HistEntry) : Bool := cl.playback || histIsMessage e

/-- An entry of the page is sent. This is asked after the page was cut, so what is not sent has
been counted. -/
def HistClient.shows (cl : HistClient) (e : HistEntry) : Bool :=
  histIsMessage e || e.verb != "TAGMSG".toList || cl.messageTags

/-- `HIST_MAX_SIZE`. -/
def histMaxSize : Nat := 500

/-- `CHATHISTORY_MAX`. -/
def chathistoryMax : Nat := 100

/-- `view`. -/
def HistClient.view (cl : HistClient) (l : List HistEntry) : List HistEntry :=
  (l.filter cl.sees).take histMaxSize

/-- The first `k` entries, each from `hist_buf_at`. -/
def HistBuf.entriesUpTo (b : HistBuf) : Nat → Option (List HistEntry)
  | 0 => some []
  | k + 1 => do
    let l ← b.entriesUpTo k
    let e ← (b.entryAt k).join
    some (l ++ [e])

/-- The entries of a buffer. -/
def HistBuf.entries (b : HistBuf) : Option (List HistEntry) := b.entriesUpTo b.n

def invalidReference (context : Text) : HistFail :=
  ⟨"INVALID_PARAMS".toList, context, "Invalid reference".toList⟩

/-- A reference that has to be there. -/
def needRef (v : List HistEntry) (context ref : Text) : Except HistFail (Nat × Nat) :=
  match historyRef v ref with
  | some ba => .ok ba
  | none => .error (invalidReference context)

/-- `lo` and `hi`, of the part of the array that is the page. Each subcommand has its own way to
cut off what is more than the limit. -/
def chathistoryBounds (v : List HistEntry) (sub ref ref2 : Text) (limit : Nat) :
    Except HistFail (Nat × Nat) :=
  if caseEq sub "LATEST".toList then do
    let (_, a1) ← if ref = "*".toList then pure (0, 0) else needRef v ref ref
    pure (if limit < v.length - a1 then v.length - limit else a1, v.length)
  else if caseEq sub "BEFORE".toList then do
    let (b1, _) ← needRef v ref ref
    pure (b1 - limit, b1)
  else if caseEq sub "AFTER".toList then do
    let (_, a1) ← needRef v ref ref
    pure (a1, min (a1 + limit) v.length)
  else if caseEq sub "AROUND".toList then do
    let (b1, _) ← needRef v ref ref
    pure (b1 - limit / 2, min (b1 + (limit - limit / 2)) v.length)
  else if caseEq sub "BETWEEN".toList then do
    let (b1, a1) ← needRef v sub ref
    let (b2, a2) ← needRef v sub ref2
    -- either order
    let lo := if b2 < b1 then a2 else a1
    let hi := if b2 < b1 then b1 else b2
    pure (lo, if lo + limit < hi then lo + limit else hi)
  else .error ⟨"INVALID_PARAMS".toList, sub, "Unknown subcommand".toList⟩

/-- `nneed`: the subcommand, the target, one reference or two, and the limit. -/
def chathistoryNeeds (sub : Text) : Nat := if caseEq sub "BETWEEN".toList then 5 else 4

/-- `cmd_chathistory` for a conversation that may be looked up, with any subcommand but `TARGETS`:
the entries that are sent.  `none` if a slot of the buffer holds nothing. -/
def cmdChathistory (historySize : Nat) (cl : HistClient) (conversation : Text → Option HistBuf)
    (params : List Text) : Option (Except HistFail (List HistEntry)) :=
  let sub := params.headD []
  if historySize = 0 then
    some (.error ⟨"INVALID".toList, "*".toList, "Chat history is off on this server".toList⟩)
  else if cl.chathistory = false ∨ cl.batch = false then
    some (.error ⟨"INVALID".toList, "*".toList,
      "Negotiate batch and draft/chathistory first".toList⟩)
  else if params.length < chathistoryNeeds sub then
    some (.error ⟨"NEED_MORE_PARAMS".toList, sub, "Missing parameters".toList⟩)
  else
    match conversation (params.getD 1 []) with
    | none => some (.error ⟨"INVALID_TARGET".toList, params.getD 1 [],
        "Messages could not be retrieved".toList⟩)
    | some b =>
      let limit := atoi (params.getD (chathistoryNeeds sub - 1) [])
      if limit < 1 then
        some (.error ⟨"INVALID_PARAMS".toList, sub, "Invalid limit".toList⟩)
      else
        b.entries.map fun l =>
          let v := cl.view l
          (chathistoryBounds v sub (params.getD 2 []) (params.getD 3 [])
            (min limit.toNat chathistoryMax)).map fun bounds =>
              ((v.take bounds.2).drop bounds.1).filter cl.shows

/-- The page that a request is answered with. -/
def chathistoryPage (historySize : Nat) (cl : HistClient) (conversation : Text → Option HistBuf)
    (params : List Text) : Option (List HistEntry) :=
  (cmdChathistory historySize cl conversation params).bind Except.toOption

/-- The reference to a message. -/
def msgidRef (id : Text) : Text := "msgid=".toList ++ id

/-! ## 2. Pages

A client pages by asking for what is before the first message it was sent, or behind the last. The
pages are followed through the list that they are taken from. -/

/-- A buffer that holds a list has its entries. -/
theorem HistBuf.Holds.entries {b : HistBuf} {l : List HistEntry} (h : b.Holds l) :
    b.entries = some l := by
  have hupto : ∀ k ≤ l.length, b.entriesUpTo k = some (l.take k) := by
    intro k hk
    induction k with
    | zero => rfl
    | succ k ih =>
      rw [HistBuf.entriesUpTo, ih (Nat.le_of_succ_le hk), h.entryAt,
        List.getElem?_eq_getElem hk, List.take_succ_eq_append_getElem hk]
      rfl
  rw [HistBuf.entries, h.count, hupto _ le_rfl, List.take_length]

theorem historyRef_msgid {v a c : List HistEntry} {e : HistEntry} (hv : v = a ++ e :: c)
    (huniq : (v.map HistEntry.msgid).Nodup) :
    historyRef v (msgidRef e.msgid) = some (a.length, a.length + 1) := by
  have hpre : "msgid=".toList.isPrefixOf (msgidRef e.msgid) = true :=
    List.isPrefixOf_iff_prefix.mpr ⟨_, rfl⟩
  have hid : (msgidRef e.msgid).drop 6 = e.msgid := rfl
  have hfind : v.findIdx? (fun e' => decide (e'.msgid = e.msgid)) = some a.length := by
    rw [hv, List.map_append, List.map_cons] at huniq
    have hnone : a.findIdx? (fun e' => decide (e'.msgid = e.msgid)) = none := by
      rw [List.findIdx?_eq_none_iff]
      intro x hx
      refine decide_eq_false fun heq => ?_
      have hdisj := (List.nodup_append.mp huniq).2.2
      exact hdisj x.msgid (List.mem_map_of_mem hx) e.msgid List.mem_cons_self heq
    rw [hv, List.findIdx?_append, hnone, Option.none_or, List.findIdx?_cons]
    simp
  rw [historyRef, if_pos hpre, hid, hfind]
  rfl

section Pages

variable {historySize : Nat} {cl : HistClient} {conversation : Text → Option HistBuf}
  {target limit : Text} {b : HistBuf} {l : List HistEntry} {n : Nat}

theorem chathistoryPage_eq (hsize : 0 < historySize) (hcap : cl.chathistory = true)
    (hbatch : cl.batch = true) (hconv : conversation target = some b) (hheld : b.Holds l)
    (hlimit : 1 ≤ atoi limit) {sub : Text} (hsub : caseEq sub "BETWEEN".toList = false)
    (ref : Text) :
    chathistoryPage historySize cl conversation [sub, target, ref, limit] =
      ((chathistoryBounds (cl.view l) sub ref limit (min (atoi limit).toNat chathistoryMax)).map
        fun bounds => (((cl.view l).take bounds.2).drop bounds.1).filter cl.shows).toOption := by
  rw [chathistoryPage, cmdChathistory]
  have hneed : chathistoryNeeds sub = 4 := if_neg (Bool.eq_false_iff.mp hsub)
  have henough : ¬ [sub, target, ref, limit].length < chathistoryNeeds sub := by
    rw [hneed]
    exact lt_irrefl 4
  have htarget : [sub, target, ref, limit].getD 1 [] = target := rfl
  have hlim : [sub, target, ref, limit].getD (chathistoryNeeds sub - 1) [] = limit := by
    rw [hneed]
    rfl
  have hpos : ¬ atoi limit < 1 := by omega
  simp only [List.headD_cons, hsize.ne', hcap, hbatch, Bool.true_eq_false, or_self, henough,
    htarget, hconv, hlim, hpos, hheld.entries, if_false, Option.map_some, Option.bind_some]
  rfl

theorem view_eq (hlen : l.length ≤ histMaxSize) : cl.view l = l.filter cl.sees :=
  List.take_of_length_le ((List.length_filter_le _ _).trans hlen)

theorem bounds_latest (v : List HistEntry) (ref2 : Text) (n : Nat) :
    (chathistoryBounds v "LATEST".toList "*".toList ref2 n).map
        (fun bounds => ((v.take bounds.2).drop bounds.1).filter cl.shows) =
      .ok (lastPage cl.shows n v) := by
  have hlo : (if n < v.length then v.length - n else 0) = v.length - n := by
    split <;> omega
  rw [chathistoryBounds, if_pos (by decide), if_pos rfl]
  refine congrArg Except.ok ?_
  show ((v.take v.length).drop (if n < v.length - 0 then v.length - n else 0)).filter cl.shows = _
  rw [Nat.sub_zero, hlo, List.take_length, lastPage]

/-- What is before a message is the last page of what stands before it. -/
theorem bounds_before {v a c : List HistEntry} {e : HistEntry} (hv : v = a ++ e :: c)
    (huniq : (v.map HistEntry.msgid).Nodup) (ref2 : Text) (n : Nat) :
    (chathistoryBounds v "BEFORE".toList (msgidRef e.msgid) ref2 n).map
        (fun bounds => ((v.take bounds.2).drop bounds.1).filter cl.shows) =
      .ok (lastPage cl.shows n a) := by
  rw [chathistoryBounds, if_neg (by decide), if_pos (by decide), needRef,
    historyRef_msgid hv huniq]
  refine congrArg Except.ok ?_
  show ((v.take a.length).drop (a.length - n)).filter cl.shows = _
  rw [hv, List.take_left, lastPage]

/-- What is behind a message is the first page of what stands behind it. -/
theorem bounds_after {v a c : List HistEntry} {e : HistEntry} (hv : v = a ++ e :: c)
    (huniq : (v.map HistEntry.msgid).Nodup) (ref2 : Text) (n : Nat) :
    (chathistoryBounds v "AFTER".toList (msgidRef e.msgid) ref2 n).map
        (fun bounds => ((v.take bounds.2).drop bounds.1).filter cl.shows) =
      .ok (firstPage cl.shows n c) := by
  rw [chathistoryBounds, if_neg (by decide), if_neg (by decide), if_pos (by decide), needRef,
    historyRef_msgid hv huniq]
  refine congrArg Except.ok ?_
  show ((v.take (min (a.length + 1 + n) v.length)).drop (a.length + 1)).filter cl.shows = _
  have hdrop : v.drop (a.length + 1) = c := by
    rw [hv, List.append_cons, List.drop_left' (by simp)]
  have hlen : v.length = a.length + (c.length + 1) := by
    rw [hv, List.length_append, List.length_cons]
  rw [List.drop_take, hdrop, firstPage]
  congr 1
  rw [hlen, List.take_eq_take_iff]
  omega

/-- **Paging through a conversation** brings all that is sent to a client, back from the latest and
on from the oldest, exactly if no page of what it sees can be without anything that is sent. The
entries differ in their ids, and no more are kept than fit into the array. -/
theorem chathistory_pages_iff (hsize : 0 < historySize) (hcap : cl.chathistory = true)
    (hbatch : cl.batch = true) (hconv : conversation target = some b) (hheld : b.Holds l)
    (hlen : l.length ≤ histMaxSize) (huniq : (l.map HistEntry.msgid).Nodup)
    (hlimit : 1 ≤ atoi limit) :
    ((∃ first, chathistoryPage historySize cl conversation
          ["LATEST".toList, target, "*".toList, limit] = some first ∧
        Back HistEntry.msgid (fun id => chathistoryPage historySize cl conversation
            ["BEFORE".toList, target, msgidRef id, limit])
          first ((l.filter cl.sees).filter cl.shows)) ∧
      ∀ e newer, (l.filter cl.sees).filter cl.shows = e :: newer →
        ∃ first, chathistoryPage historySize cl conversation
            ["AFTER".toList, target, msgidRef e.msgid, limit] = some first ∧
          On HistEntry.msgid (fun id => chathistoryPage historySize cl conversation
              ["AFTER".toList, target, msgidRef id, limit]) first newer) ↔
      NoGap cl.shows (min (atoi limit).toNat chathistoryMax) (l.filter cl.sees) := by
  have hv : cl.view l = l.filter cl.sees := view_eq hlen
  have huniq' : ((l.filter cl.sees).map HistEntry.msgid).Nodup :=
    (List.filter_sublist.map _).nodup huniq
  have hpage : ∀ {sub : Text}, caseEq sub "BETWEEN".toList = false → ∀ ref, _ :=
    fun hsub ref => chathistoryPage_eq hsize hcap hbatch hconv hheld hlimit hsub ref
  rw [hv] at hpage
  generalize l.filter cl.sees = v at *
  generalize min (atoi limit).toNat chathistoryMax = n at *
  have hlatest : chathistoryPage historySize cl conversation
      ["LATEST".toList, target, "*".toList, limit] = some (lastPage cl.shows n v) := by
    rw [hpage (by decide), bounds_latest]
    rfl
  have hbefore : AsksBefore HistEntry.msgid (fun id => chathistoryPage historySize cl conversation
      ["BEFORE".toList, target, msgidRef id, limit]) cl.shows n v := by
    intro a e c hsplit
    refine (hpage (by decide) _).trans ?_
    rw [bounds_before hsplit huniq']
    rfl
  have hafter : AsksAfter HistEntry.msgid (fun id => chathistoryPage historySize cl conversation
      ["AFTER".toList, target, msgidRef id, limit]) cl.shows n v := by
    intro a e c hsplit
    refine (hpage (by decide) _).trans ?_
    rw [bounds_after hsplit huniq']
    rfl
  constructor
  · rintro ⟨⟨first, hfirst, hback⟩, -⟩
    obtain rfl := Option.some.inj (hlatest.symm.trans hfirst)
    exact (back_iff hbefore).mp hback
  · intro hgap
    refine ⟨⟨_, hlatest, (back_iff hbefore).mpr hgap⟩, fun e newer hshown => ?_⟩
    obtain ⟨a, c, hsplit, -, he, hc⟩ := List.filter_eq_cons_iff.mp hshown
    obtain ⟨hask, hon⟩ := on_complete hafter hgap hsplit he
    exact ⟨_, hask, hc ▸ hon⟩

end Pages

/-- A message, and a reaction to it. -/
def demoMessage : HistEntry := ⟨1700000000000, "m1".toList, "ann!ann@host".toList, [],
  "PRIVMSG".toList, "#chat".toList, "hello".toList⟩

def demoReaction : HistEntry := ⟨1700000001000, "m2".toList, "bob!bob@host".toList, [],
  "TAGMSG".toList, "#chat".toList, "+draft/react=+1".toList⟩

def demoBuffer : HistBuf := ⟨100, 4, 0, 2, [some demoMessage, some demoReaction, none, none],
  1700000001000⟩

theorem demoBuffer_holds : demoBuffer.Holds [demoMessage, demoReaction] :=
  ⟨rfl, by decide, rfl, by decide, Or.inl rfl, by decide⟩

/-- A client with event playback, with message tags or without. -/
def pagingClient (messageTags : Bool) : HistClient := ⟨true, true, true, messageTags⟩

def demoConversation (target : Text) : Option HistBuf :=
  if target = "#chat".toList then some demoBuffer else none

theorem chathistory_pages_iff_demo :
    ((∃ first, chathistoryPage 100 (pagingClient true) demoConversation
          ["LATEST".toList, "#chat".toList, "*".toList, "1".toList] = some first ∧
        Back HistEntry.msgid (fun id => chathistoryPage 100 (pagingClient true) demoConversation
            ["BEFORE".toList, "#chat".toList, msgidRef id, "1".toList])
          first (([demoMessage, demoReaction].filter (pagingClient true).sees).filter
            (pagingClient true).shows)) ∧
      ∀ e newer, ([demoMessage, demoReaction].filter (pagingClient true).sees).filter
            (pagingClient true).shows = e :: newer →
        ∃ first, chathistoryPage 100 (pagingClient true) demoConversation
            ["AFTER".toList, "#chat".toList, msgidRef e.msgid, "1".toList] = some first ∧
          On HistEntry.msgid (fun id => chathistoryPage 100 (pagingClient true) demoConversation
              ["AFTER".toList, "#chat".toList, msgidRef id, "1".toList]) first newer) ↔
      NoGap (pagingClient true).shows
        (min (atoi "1".toList).toNat chathistoryMax)
        ([demoMessage, demoReaction].filter (pagingClient true).sees) :=
  chathistory_pages_iff (by decide) rfl rfl (by decide) demoBuffer_holds (by decide) (by decide)
    (by decide)

/-- **Without message tags** the reaction takes the page, and the message before it is not
reached. -/
theorem reaction_ends_paging :
    ([demoMessage, demoReaction].filter (pagingClient false).sees).filter
        (pagingClient false).shows = [demoMessage] ∧
    ¬ ∃ first, chathistoryPage 100 (pagingClient false) demoConversation
        ["LATEST".toList, "#chat".toList, "*".toList, "1".toList] = some first ∧
      Back HistEntry.msgid (fun id => chathistoryPage 100 (pagingClient false) demoConversation
          ["BEFORE".toList, "#chat".toList, msgidRef id, "1".toList])
        first [demoMessage] := by
  refine ⟨by decide, ?_⟩
  rintro ⟨first, hfirst, hback⟩
  have hempty : chathistoryPage 100 (pagingClient false) demoConversation
      ["LATEST".toList, "#chat".toList, "*".toList, "1".toList] = some [] := by decide +kernel
  obtain rfl := Option.some.inj (hempty.symm.trans hfirst)
  cases hback

end SekurIRCd
