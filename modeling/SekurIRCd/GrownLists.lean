/-
# Lists that grow on demand

The lists of MONITOR, WATCH, SILENCE and ACCEPT of a client and the invites of a channel are
allocated with their first entry and freed when they empty.  `client_list_grow` and
`client_list_idle` know the size of the block from the number of entries alone: it is the array of
`Lib.LazyArray` that starts at 4.

Whatever is appended and removed, and whenever memory runs out, each entry is written inside the
block (`grown_lists_in_bounds`).  The counts stay at or below 128, far from where `n * 2` would
leave an `int`.
-/
import SekurIRCd.Lib.LazyArray
import SekurIRCd.Net.WatchIndex

namespace SekurIRCd.GrownLists

open CLib LazyArray LazyArray.Kept

variable {α β : Type}

/-! ## 1. `client_list_grow` and `client_list_idle`

A list is a block, or NULL, and a count. That the block has the size that the code takes it to have
is nowhere stored, and is the invariant. -/

/-- `client_list_grow`: the list ready for entry number `n`. `mem` says whether `realloc` finds
memory; the array of before is still there if it does not. -/
def clientListGrow (list : Option (Block α)) (n : Nat) (mem : Bool) : Option (Block α) :=
  if list.isSome ∧ (n < 4 ∨ n &&& (n - 1) ≠ 0) then list
  else if mem then some (resize list (if n < 4 then 4 else n * 2)) else none

-- An array that was larger before entries were taken out is made smaller.
example : (clientListGrow (some (List.replicate 16 (some 'a'))) 4 true).map List.length =
    some 8 := by
  decide

/-- `client_list_idle`. -/
def clientListIdle (list : Option (Block α)) (n : Nat) : Option (Block α) :=
  if n > 0 then list else none

/-- How every list appends; `none` is a write outside the array. -/
def push (k : Kept α) (a : α) (mem : Bool) : Option (Kept α) :=
  match clientListGrow k.block k.n mem with
  | none => some k
  | some list => if k.n < list.length then some ⟨some (list.set k.n (some a)), k.n + 1⟩ else none

/-- How every list removes: the first entry that is meant is closed over by `memmove`. -/
def discard (k : Kept α) (p : α → Bool) : Option (Kept α) := do
  let l ← k.entries
  match l.findIdx? p with
  | some i => k.removeAt i
  | none => some k

/-- `client_list_idle` stored back. -/
def freed (k : Kept α) : Kept α := ⟨clientListIdle k.block k.n, k.n⟩

/-- One step on one list. -/
def listStep (k : Kept α) : Op α → Option (Kept α)
  | .append a mem => push k a mem
  | .remove p => discard k p
  | .clear => some k.clear
  | .settle => some (freed k)

theorem listStep_eq (k : Kept α) (op : Op α) : listStep k op = k.step 4 op := by
  cases op <;> rfl

/-! ## 2. The five lists

Each command is a loop over what it was given, with a look at the list, a removal or an append at
each turn. Their replies and indices are elsewhere. -/

/-- A loop over the parts of a command; `mem i` says whether part `i` finds memory. -/
def each (f : Kept α → β → Bool → Option (Kept α)) (k : Kept α) :
    List β → (Nat → Bool) → Option (Kept α)
  | [], _ => some k
  | t :: ts, mem => do
    let k ← f k t (mem 0)
    each f k ts fun i => mem (i + 1)

/-- `monitor_discard`. -/
def monitorDiscard (k : Kept Text) (cf : Text) : Option (Kept Text) := discard k (· == cf)

/-- A nick of MONITOR +, when the list is not full. -/
def monitorAdd (k : Kept Text) (cf : Text) (mem : Bool) : Option (Kept Text) := do
  let l ← k.entries
  if l.contains cf then some k else push k cf mem

/-- The loop of MONITOR +, which ends at a full list. -/
def monitorAddAll (k : Kept Text) : List Text → (Nat → Bool) → Option (Kept Text)
  | [], _ => some k
  | t :: ts, mem =>
    if maxMonitor ≤ k.n then some k
    else do
      let k ← monitorAdd k (ircCasefold nickLen t) (mem 0)
      monitorAddAll k ts fun i => mem (i + 1)

/-- `monitor_impl`, less its replies and the index. -/
def monitorImpl (k : Kept Text) (params : List Text) (mem : Nat → Bool) : Option (Kept Text) :=
  let sub := (clip 8 (params.getD 0 [])).map Char.toUpper
  let targets := strtok ',' (clip 600 (params.getD 1 []))
  if sub = "+".toList ∨ sub = "-".toList then
    if params.length < 2 then some k
    else if sub = "-".toList then
      each (fun k t _ => monitorDiscard k (ircCasefold nickLen t)) k targets mem
    else monitorAddAll k targets mem
  else if sub = "C".toList then some k.clear
  else some k

/-- `cmd_monitor`. -/
def cmdMonitor (k : Kept Text) (params : List Text) (mem : Nat → Bool) : Option (Kept Text) :=
  (monitorImpl k params mem).map freed

/-- `watch_discard`. -/
def watchDiscard (k : Kept Text) (cf : Text) : Option (Kept Text) := discard k (· == cf)

/-- One parameter of WATCH. -/
def watchToken (k : Kept Text) (tok : Text) (mem : Bool) : Option (Kept Text) :=
  let cf := ircCasefold nickLen (tok.drop 1)
  if tok.head? = some '+' ∨ tok.head? = some '-' then
    if cf = [] then some k
    else if tok.head? = some '-' then watchDiscard k cf
    else do
      let l ← k.entries
      if l.contains cf then some k
      else if maxWatch ≤ k.n then some k
      else push k cf mem
  else if caseEq tok ['C'] then some k.clear
  else some k

/-- `cmd_watch`. -/
def cmdWatch (k : Kept Text) (params : List Text) (mem : Nat → Bool) : Option (Kept Text) :=
  (each watchToken k params mem).map freed

def maxSilence : Nat := 15

/-- One parameter of SILENCE. -/
def silenceEntry (k : Kept Text) (entry : Text) (mem : Bool) : Option (Kept Text) :=
  if entry.head? = some '-' then discard k fun m => caseEq m (entry.drop 1)
  else if k.n < maxSilence then
    push k (clip 256 (if entry.head? = some '+' then entry.drop 1 else entry)) mem
  else some k

/-- `cmd_silence`.  Without parameters it lists, and does not come to `client_list_idle`. -/
def cmdSilence (k : Kept Text) (params : List Text) (mem : Nat → Bool) : Option (Kept Text) :=
  if params.length < 1 then some k else (each silenceEntry k params mem).map freed

def maxAccept : Nat := 20

/-- An entry is bound to the account or the connection that had the nick. -/
structure AcceptEntry where
  nick : Text
  account : Text
  connId : Nat
deriving DecidableEq

/-- What `cmd_accept` reads of who has a nick now. -/
structure Holder where
  registered : Bool
  isService : Bool
  account : Text
  connId : Nat

/-- The entry for a nick that `who` has. -/
def acceptEntry (cf : Text) (who : Option Holder) : AcceptEntry :=
  match who with
  | some w =>
    if w.registered ∧ ¬ w.isService then
      if w.account ≠ [] then ⟨cf, clip 64 w.account, 0⟩ else ⟨cf, [], w.connId⟩
    else ⟨cf, [], 0⟩
  | none => ⟨cf, [], 0⟩

/-- One token of ACCEPT. -/
def acceptToken (findUser : Text → Option Holder) (k : Kept AcceptEntry) (tok : Text) (mem : Bool) :
    Option (Kept AcceptEntry) :=
  if tok = "*".toList then some k
  else
    let del := tok.head? = some '-'
    let nick := if del then tok.drop 1 else tok
    if ¬ ircValidNick nick (nickLen - 1) then some k
    else
      let cf := ircCasefold nickLen nick
      if del then discard k fun e => e.nick == cf
      else do
        let l ← k.entries
        if l.any fun e => e.nick == cf then some k
        else if maxAccept ≤ k.n then some k
        else push k (acceptEntry cf (findUser nick)) mem

/-- `cmd_accept`. -/
def cmdAccept (findUser : Text → Option Holder) (k : Kept AcceptEntry) (params : List Text)
    (mem : Nat → Bool) : Option (Kept AcceptEntry) :=
  let list := clip 400 (params.getD 0 "*".toList)
  (each (acceptToken findUser) k (strtok ',' list) mem).map freed

def chanMaxInvited : Nat := 64

/-- `channel_invite_add`. -/
def channelInviteAdd (k : Kept Text) (nick : Text) (mem : Bool) : Option (Kept Text) := do
  let l ← k.entries
  if l.contains nick then some k
  else if chanMaxInvited ≤ k.n then
    -- full: the oldest makes room
    let k ← k.shift 0 (chanMaxInvited - 1)
    push k (clip 64 nick) mem
  else push k (clip 64 nick) mem

/-- `channel_invite_remove`. -/
def channelInviteRemove (k : Kept Text) (nick : Text) : Option (Kept Text) := do
  let l ← k.entries
  match l.findIdx? (· == nick) with
  | some i => (k.removeAt i).map freed
  | none => some k

/-- The five lists, each as it is kept: a block that is allocated with the first entry and doubled
when it is full, and a count. -/
structure Lists where
  monitor : Kept Text
  watch : Kept Text
  silence : Kept Text
  accept : Kept AcceptEntry
  invited : Kept Text

def Lists.empty : Lists := ⟨.empty, .empty, .empty, .empty, .empty⟩

/-- What is done to them. `mem` says for each allocation whether there is memory for it, so a run
may fail at any of them. -/
inductive ListEvent
  | monitor (params : List Text) (mem : Nat → Bool)
  | watch (params : List Text) (mem : Nat → Bool)
  | silence (params : List Text) (mem : Nat → Bool)
  | accept (findUser : Text → Option Holder) (params : List Text) (mem : Nat → Bool)
  | inviteAdd (nick : Text) (mem : Bool)
  | inviteRemove (nick : Text)

def Lists.step (s : Lists) : ListEvent → Option Lists
  | .monitor params mem => (cmdMonitor s.monitor params mem).map ({ s with monitor := · })
  | .watch params mem => (cmdWatch s.watch params mem).map ({ s with watch := · })
  | .silence params mem => (cmdSilence s.silence params mem).map ({ s with silence := · })
  | .accept find params mem => (cmdAccept find s.accept params mem).map ({ s with accept := · })
  | .inviteAdd nick mem => (channelInviteAdd s.invited nick mem).map ({ s with invited := · })
  | .inviteRemove nick => (channelInviteRemove s.invited nick).map ({ s with invited := · })

/-! ## 3. Inside the block

The library says that an append is within the block when the block holds the list. What is left for
a command is that it appends to lists that are not full. -/

/-- `k` stands for a list of at most `max` entries. -/
def Within (max : Nat) (k : Kept α) : Prop := ∃ l, Holds 4 k l ∧ l.length ≤ max

/-- Nothing outside the block was touched, and the list is again one of at most `max` entries. -/
def Safe (max : Nat) (o : Option (Kept α)) : Prop := ∃ k, o = some k ∧ Within max k

variable {max : Nat} {k : Kept α}

theorem four_two_pow : ∃ k, 4 = 2 ^ k := ⟨2, rfl⟩

theorem within_empty : Within max (Kept.empty : Kept α) := ⟨[], .empty, Nat.zero_le _⟩

theorem Within.safe (h : Within max k) : Safe max (some k) := ⟨k, rfl, h⟩

theorem Within.clear (h : Within max k) : Within max k.clear := by
  obtain ⟨l, hl, -⟩ := h
  exact ⟨[], hl.clear, Nat.zero_le _⟩

theorem Within.freed (h : Within max k) : Within max (freed k) := by
  obtain ⟨l, hl, hle⟩ := h
  exact ⟨l, hl.settle, hle⟩

theorem Safe.freed {o : Option (Kept α)} (h : Safe max o) : Safe max (o.map freed) := by
  obtain ⟨k, rfl, hk⟩ := h
  exact hk.freed.safe

theorem Within.push (h : Within max k) (hn : k.n < max) (a : α) (mem : Bool) :
    Safe max (push k a mem) := by
  obtain ⟨l, hl, hle⟩ := h
  obtain ⟨m, hm, hheld | ⟨-, rfl⟩⟩ := hl.append four_two_pow a mem
  · refine ⟨m, hm, l ++ [a], hheld, ?_⟩
    have := hl.count
    rw [List.length_append, List.length_singleton]
    omega
  · exact ⟨m, hm, l, hl, hle⟩

theorem Within.discard (h : Within max k) (p : α → Bool) : Safe max (discard k p) := by
  obtain ⟨l, hl, hle⟩ := h
  obtain ⟨m, hm, hheld⟩ := hl.remove p
  exact ⟨m, hm, _, hheld, List.length_eraseP_le.trans hle⟩

/-- What is decided after a look at the entries. -/
theorem Within.entries_bind (h : Within max k) {f : List α → Option (Kept α)}
    (hf : ∀ l, Holds 4 k l → Safe max (f l)) : Safe max (k.entries >>= f) := by
  obtain ⟨l, hl, -⟩ := h
  rw [hl.entries]
  exact hf l hl

theorem Within.each {f : Kept α → β → Bool → Option (Kept α)}
    (hf : ∀ k t mem, Within max k → Safe max (f k t mem)) (ts : List β) (mem : Nat → Bool)
    (h : Within max k) : Safe max (each f k ts mem) := by
  induction ts generalizing k mem with
  | nil => exact h.safe
  | cons t ts ih =>
    obtain ⟨m, hm, hw⟩ := hf k t (mem 0) h
    unfold GrownLists.each
    rw [hm]
    exact ih _ hw

/-! ## 4. The commands -/

theorem monitorAddAll_safe (ts : List Text) (mem : Nat → Bool) {k : Kept Text}
    (h : Within maxMonitor k) : Safe maxMonitor (monitorAddAll k ts mem) := by
  induction ts generalizing k mem with
  | nil => exact h.safe
  | cons t ts ih =>
    unfold monitorAddAll
    split
    · exact h.safe
    · rename_i hroom
      have hadd : Safe maxMonitor (monitorAdd k (ircCasefold nickLen t) (mem 0)) := by
        refine h.entries_bind fun l _ => ?_
        split
        · exact h.safe
        · exact h.push (Nat.lt_of_not_le hroom) _ _
      obtain ⟨m, hm, hw⟩ := hadd
      rw [hm]
      exact ih _ hw

theorem cmdMonitor_safe {k : Kept Text} (h : Within maxMonitor k) (params : List Text)
    (mem : Nat → Bool) : Safe maxMonitor (cmdMonitor k params mem) := by
  refine Safe.freed ?_
  simp only [monitorImpl]
  split
  · split
    · exact h.safe
    · split
      · exact h.each (fun k t _ hk => hk.discard _) _ _
      · exact monitorAddAll_safe _ _ h
  · split
    · exact h.clear.safe
    · exact h.safe

theorem monitorAdd_holds {k : Kept Text} {l : List Text} (h : Holds 4 k l) (cf : Text) :
    ∃ m, monitorAdd k cf true = some m ∧
      Holds 4 m (if l.contains cf then l else l ++ [cf]) := by
  simp only [monitorAdd, h.entries, Option.bind_eq_bind, Option.bind_some]
  split
  · exact ⟨k, rfl, h⟩
  · obtain ⟨m, hm, hheld | ⟨hno, -⟩⟩ := h.append four_two_pow cf true
    · exact ⟨m, hm, hheld⟩
    · exact absurd hno (by simp)

theorem monitorAddAll_holds (ts : List Text) {k : Kept Text} {l : List Text} (h : Holds 4 k l) :
    ∃ m, monitorAddAll k ts (fun _ => true) = some m ∧ Holds 4 m (monitorListAdd l ts) := by
  induction ts generalizing k l with
  | nil => exact ⟨k, rfl, h⟩
  | cons t ts ih =>
    rw [monitorAddAll, monitorListAdd, h.count]
    split
    · exact ⟨k, rfl, h⟩
    · obtain ⟨m, hm, hheld⟩ := monitorAdd_holds h (ircCasefold nickLen t)
      rw [hm]
      exact ih hheld

theorem monitorDiscard_holds (ts : List Text) {k : Kept Text} {l : List Text} (h : Holds 4 k l) :
    ∃ m, each (fun k t _ => monitorDiscard k (ircCasefold nickLen t)) k ts (fun _ => true) =
      some m ∧ Holds 4 m (ts.foldl (fun l t => l.erase (ircCasefold nickLen t)) l) := by
  induction ts generalizing k l with
  | nil => exact ⟨k, rfl, h⟩
  | cons t ts ih =>
    obtain ⟨m, hm, hheld⟩ := h.remove (· == ircCasefold nickLen t)
    rw [← List.erase_eq_eraseP'] at hheld
    have hm : monitorDiscard k (ircCasefold nickLen t) = some m := hm
    rw [GrownLists.each, hm]
    exact ih hheld

theorem monitorImpl_holds {k : Kept Text} {l : List Text} (h : Holds 4 k l) (params : List Text) :
    ∃ m, monitorImpl k params (fun _ => true) = some m ∧ Holds 4 m (monitorList l params) := by
  simp only [monitorImpl, monitorList]
  split
  · split
    · exact ⟨k, rfl, h⟩
    · split
      · exact monitorDiscard_holds _ h
      · exact monitorAddAll_holds _ h
  · split
    · exact ⟨_, rfl, h.clear⟩
    · exact ⟨k, rfl, h⟩

/-- **While there is memory, the block holds the list that MONITOR is to make**, and it is given
back when that list is empty. -/
theorem cmdMonitor_holds {k : Kept Text} {l : List Text} (h : Holds 4 k l) (params : List Text) :
    ∃ m, cmdMonitor k params (fun _ => true) = some m ∧ Holds 4 m (monitorList l params) := by
  obtain ⟨m, hm, hheld⟩ := monitorImpl_holds h params
  exact ⟨freed m, by rw [cmdMonitor, hm]; rfl, hheld.settle⟩

theorem cmdWatch_safe {k : Kept Text} (h : Within maxWatch k) (params : List Text)
    (mem : Nat → Bool) : Safe maxWatch (cmdWatch k params mem) := by
  refine Safe.freed (h.each (fun k tok mem hk => ?_) _ _)
  simp only [watchToken]
  split
  · split
    · exact hk.safe
    · split
      · exact hk.discard _
      · refine hk.entries_bind fun l _ => ?_
        split
        · exact hk.safe
        · split
          · exact hk.safe
          · rename_i hroom
            exact hk.push (Nat.lt_of_not_le hroom) _ _
  · split
    · exact hk.clear.safe
    · exact hk.safe

theorem cmdSilence_safe {k : Kept Text} (h : Within maxSilence k) (params : List Text)
    (mem : Nat → Bool) : Safe maxSilence (cmdSilence k params mem) := by
  unfold cmdSilence
  split
  · exact h.safe
  · refine Safe.freed (h.each (fun k entry mem hk => ?_) _ _)
    unfold silenceEntry
    split
    · exact hk.discard _
    · split
      · rename_i hroom
        exact hk.push hroom _ _
      · exact hk.safe

theorem cmdAccept_safe {k : Kept AcceptEntry} (h : Within maxAccept k)
    (findUser : Text → Option Holder) (params : List Text) (mem : Nat → Bool) :
    Safe maxAccept (cmdAccept findUser k params mem) := by
  refine Safe.freed (h.each (fun k tok mem hk => ?_) _ _)
  simp only [acceptToken]
  split
  · exact hk.safe
  · generalize (if tok.head? = some '-' then tok.drop 1 else tok) = nick
    split
    · exact hk.safe
    · split
      · exact hk.discard _
      · refine hk.entries_bind fun l _ => ?_
        split
        · exact hk.safe
        · split
          · exact hk.safe
          · rename_i hroom
            exact hk.push (Nat.lt_of_not_le hroom) _ _

/-- Of a full list of invites the first goes, so that the count is again below the cap. -/
theorem channelInviteAdd_safe {k : Kept Text} (h : Within chanMaxInvited k) (nick : Text)
    (mem : Bool) : Safe chanMaxInvited (channelInviteAdd k nick mem) := by
  refine h.entries_bind fun l hl => ?_
  split
  · exact h.safe
  · split
    · rename_i hfull
      obtain ⟨l', hl', hle⟩ := h
      have hn : k.n = chanMaxInvited := by
        have := hl'.count
        omega
      have hpos : 0 < l'.length := by
        rw [← hl'.count, hn]
        decide
      obtain ⟨m, hm, hheld⟩ := hl'.removeAt hpos
      have hlen : (l'.eraseIdx 0).length = l'.length - 1 := List.length_eraseIdx_of_lt hpos
      have hw : Within chanMaxInvited m := ⟨_, hheld, by omega⟩
      have hlt : m.n < chanMaxInvited := by
        have := hheld.count
        omega
      have hshift : k.shift 0 (chanMaxInvited - 1) = some m := by
        rw [← hm, Kept.removeAt, hn]
        rfl
      rw [hshift]
      exact hw.push hlt _ _
    · rename_i hroom
      exact h.push (Nat.lt_of_not_le hroom) _ _

theorem channelInviteRemove_safe {k : Kept Text} (h : Within chanMaxInvited k) (nick : Text) :
    Safe chanMaxInvited (channelInviteRemove k nick) := by
  refine h.entries_bind fun l hl => ?_
  cases hfind : l.findIdx? (· == nick) with
  | none => exact h.safe
  | some i =>
    obtain ⟨m, hm, hheld⟩ := hl.removeAt (List.findIdx?_eq_some_iff_getElem.mp hfind).1
    have hw : Within chanMaxInvited m := by
      obtain ⟨l', hl', hle⟩ := h
      have := hl'.count.symm.trans hl.count
      exact ⟨_, hheld, (List.length_eraseIdx_le _ _).trans (this ▸ hle)⟩
    simp only [hm]
    exact hw.freed.safe

/-- Each list is at or below its own cap, inside its block, and every entry that counts has been
written. -/
structure Lists.Sound (s : Lists) : Prop where
  monitor : Within maxMonitor s.monitor
  watch : Within maxWatch s.watch
  silence : Within maxSilence s.silence
  accept : Within maxAccept s.accept
  invited : Within chanMaxInvited s.invited

theorem Lists.sound_empty : Lists.empty.Sound :=
  ⟨within_empty, within_empty, within_empty, within_empty, within_empty⟩

theorem Lists.Sound.step {s : Lists} (h : s.Sound) (ev : ListEvent) :
    ∃ t, s.step ev = some t ∧ t.Sound := by
  cases ev with
  | monitor params mem =>
    obtain ⟨k, hk, hw⟩ := cmdMonitor_safe h.monitor params mem
    exact ⟨{ s with monitor := k }, by rw [Lists.step, hk]; rfl, { h with monitor := hw }⟩
  | watch params mem =>
    obtain ⟨k, hk, hw⟩ := cmdWatch_safe h.watch params mem
    exact ⟨{ s with watch := k }, by rw [Lists.step, hk]; rfl, { h with watch := hw }⟩
  | silence params mem =>
    obtain ⟨k, hk, hw⟩ := cmdSilence_safe h.silence params mem
    exact ⟨{ s with silence := k }, by rw [Lists.step, hk]; rfl, { h with silence := hw }⟩
  | accept findUser params mem =>
    obtain ⟨k, hk, hw⟩ := cmdAccept_safe h.accept findUser params mem
    exact ⟨{ s with accept := k }, by rw [Lists.step, hk]; rfl, { h with accept := hw }⟩
  | inviteAdd nick mem =>
    obtain ⟨k, hk, hw⟩ := channelInviteAdd_safe h.invited nick mem
    exact ⟨{ s with invited := k }, by rw [Lists.step, hk]; rfl, { h with invited := hw }⟩
  | inviteRemove nick =>
    obtain ⟨k, hk, hw⟩ := channelInviteRemove_safe h.invited nick
    exact ⟨{ s with invited := k }, by rw [Lists.step, hk]; rfl, { h with invited := hw }⟩

theorem Lists.Sound.run (evs : List ListEvent) {s : Lists} (h : s.Sound) :
    ∃ t, evs.foldlM Lists.step s = some t ∧ t.Sound := by
  induction evs generalizing s with
  | nil => exact ⟨s, rfl, h⟩
  | cons ev evs ih =>
    obtain ⟨t, ht, hsound⟩ := h.step ev
    rw [List.foldlM_cons, ht]
    exact ih hsound

/-- **Lists stay in bounds.**  However one list is appended to, taken from, emptied and settled, in
whatever order and wherever memory runs out, no step leaves its block, and where memory did not run
out it holds what a plain list would.  The commands on the five lists never leave theirs either,
and no list passes its cap. -/
theorem grown_lists_in_bounds :
    (∀ ops : List (Op α), ∃ k l, ops.foldlM listStep (Kept.empty : Kept α) = some k ∧
      Holds 4 k l ∧ ((∀ op ∈ ops, op.served) → l = ops.foldl Op.on [])) ∧
    ∀ evs : List ListEvent, ∃ s, evs.foldlM Lists.step Lists.empty = some s ∧ s.Sound := by
  have hstep : (listStep : Kept α → Op α → Option (Kept α)) = Kept.step 4 :=
    funext fun k => funext (listStep_eq k)
  refine ⟨fun ops => ?_, fun evs => Lists.sound_empty.run evs⟩
  rw [hstep]
  exact Holds.empty.run four_two_pow ops

end SekurIRCd.GrownLists
