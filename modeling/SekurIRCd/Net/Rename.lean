/-
# Renaming a channel

`RENAME` gives a channel another name, and says so to the links; a server that hears of it does
the same to its own copy.  The two decide differently whether the name is free.  `cmd_rename` asks
whether another channel has it, `handle_rename` whether any channel has it: so a rename that
changes only the case of letters is made where it was typed, and nowhere else (`case_rename_stays`).

In all other cases the copies agree after the rename, whatever route the line took
(`rename_replicates`).
-/
import SekurIRCd.Net.Burst
import SekurIRCd.Net.Lines
import Mathlib.Logic.Function.Basic

namespace SekurIRCd

open CLib

/-! ## 1. The two ends

The two functions rename alike and differ in what they refuse. A channel is filed under its
casefolded name, so a change of case leaves it where it is. -/

/-- `channel_t` with the two names that a rename writes.  The history and the read markers, which
move along, are left out. -/
structure NamedChannel extends Settings where
  name : Text
  casefoldName : Text
  topic : Text
  created : Int
  members : List Member
deriving DecidableEq

/-- `srv->channels`, by `casefold_name`. -/
abbrev NamedTable := Text → Option NamedChannel

/-- `server_find_channel`. -/
def findNamed (t : NamedTable) (name : Text) : Option NamedChannel := t (ircCasefold chanNameLen name)

/-- `cmd_channel_rename_apply`. -/
def cmdChannelRenameApply (t : NamedTable) (chan : NamedChannel) (newname : Text) : NamedTable :=
  let ncf := ircCasefold chanNameLen newname
  Function.update (Function.update t chan.casefoldName none) ncf
    (some { chan with name := clip chanNameLen newname, casefoldName := clip chanNameLen ncf })

/-- The line of `netsync_chan_rename`, which `handle_rename` passes on in the same form. -/
def renameLine (uid oldname newname reason : Text) : Text :=
  (ircBuild 500 [] (some uid) "RENAME".toList [oldname, newname] (some reason)).text

/-- What becomes of a `RENAME`: a numeric, a `FAIL` with its code, or the new table with the line
for the links. -/
inductive RenameOutcome
  | numeric (number : Nat) (param text : Text)
  | fail (code oldname newname text : Text)
  | renamed (t : NamedTable) (line : Text)

/-- Why a new name is refused.  `reserved` is the debug channel. -/
def renameRefused (t : NamedTable) (reserved : Option Text) (chan : NamedChannel) (newname : Text) :
    Option (Text × Text) :=
  if ircValidChannel newname 50 = false then
    some ("CANNOT_RENAME".toList, "That is not a valid channel name".toList)
  else if (findNamed t newname).any (fun clash => clash.casefoldName ≠ chan.casefoldName) then
    some ("CHANNEL_NAME_IN_USE".toList, "A channel with that name already exists".toList)
  else if .r ∈ chan.modes then
    some ("CANNOT_RENAME".toList, "A registered channel can't be renamed".toList)
  else if reserved.map (ircCasefold chanNameLen) = some (ircCasefold chanNameLen newname) then
    some ("CANNOT_RENAME".toList, "That name is reserved".toList)
  else none

/-- `cmd_rename`, with the two names and what follows them. The channel itself may have the new
name already, in another case. -/
def cmdRename (t : NamedTable) (reserved : Option Text) (cl : Client) (oldname newname : Text)
    (rest : List Text) : RenameOutcome :=
  match findNamed t oldname with
  | none => .numeric 403 oldname "No such channel".toList
  | some chan =>
    match chan.members.find? (fun m => m.client == cl.uid), cl.oper with
    | none, false => .numeric 442 chan.name "You're not on that channel".toList
    | me, oper =>
      if !oper && !me.any (fun m => decide (.op ∈ m.rank.bits ∨ .halfop ∈ m.rank.bits)) then
        .numeric 482 chan.name "You're not channel operator".toList
      else match renameRefused t reserved chan newname with
      | some (code, text) => .fail code chan.name newname text
      | none => .renamed (cmdChannelRenameApply t chan newname)
          (renameLine cl.uid chan.name (clip chanNameLen newname)
            (rest.getLast?.getD "No reason".toList))

/-- `handle_rename`, with the line it passes on. A new name that any channel has is refused, also
if it is the channel's own. -/
def handleRename (srv : Server) (peer : Text) (t : NamedTable) (msg : IrcMessage) :
    NamedTable × Option Text :=
  match srcUser srv peer msg.pfx, msg.params with
  | some u, oldname :: newname :: rest =>
    (match findNamed t oldname with
      | some chan => if (findNamed t newname).isNone then cmdChannelRenameApply t chan newname else t
      | none => t,
      some (renameLine u.uid oldname newname (rest.getLast?.getD "No reason".toList)))
  | _, _ => (t, none)

/-- A `RENAME` line that arrives. -/
def receiveRename (srv : Server) (peer : Text) (t : NamedTable) (line : Text) :
    NamedTable × Option Text :=
  match ircParseLine line with
  | some msg => handleRename srv peer t msg
  | none => (t, none)

/-! ## 2. What a rename does to the table -/

/-- Channels are filed under their names, and the names are valid. So a channel is found by
whatever spelling of its name a line has. -/
structure NamesOk (t : NamedTable) : Prop where
  filed : ∀ key chan, t key = some chan → chan.casefoldName = key
  folded : ∀ key chan, t key = some chan → chan.casefoldName = ircCasefold chanNameLen chan.name
  valid : ∀ key chan, t key = some chan → ircValidChannel chan.name 50 = true

/-- The channel under its new name. -/
def NamedChannel.renamed (chan : NamedChannel) (newname : Text) : NamedChannel :=
  { chan with name := newname, casefoldName := ircCasefold chanNameLen newname }

section Apply

variable {t : NamedTable} {chan : NamedChannel} {newname : Text}

theorem apply_eq (hvalid : ircValidChannel newname 50 = true) :
    cmdChannelRenameApply t chan newname =
      Function.update (Function.update t chan.casefoldName none) (ircCasefold chanNameLen newname)
        (some (chan.renamed newname)) := by
  have hlen := valid_channel_length hvalid
  have hname : clip chanNameLen newname = newname := clip_of_fits (by simp only [chanNameLen]; omega)
  have hfold : clip chanNameLen (ircCasefold chanNameLen newname) =
      ircCasefold chanNameLen newname := by
    refine clip_of_fits ?_
    rw [ircCasefold, lower_length]
    have := clip_length_le chanNameLen newname
    simp only [chanNameLen] at *
    omega
  simp only [cmdChannelRenameApply, hname, hfold, NamedChannel.renamed]

theorem apply_new (hvalid : ircValidChannel newname 50 = true) :
    findNamed (cmdChannelRenameApply t chan newname) newname = some (chan.renamed newname) := by
  rw [apply_eq hvalid, findNamed, Function.update_self]

theorem apply_old (hvalid : ircValidChannel newname 50 = true)
    (hne : ircCasefold chanNameLen newname ≠ chan.casefoldName) :
    cmdChannelRenameApply t chan newname chan.casefoldName = none := by
  rw [apply_eq hvalid, Function.update_of_ne hne.symm, Function.update_self]

theorem NamesOk.apply (h : NamesOk t) (hvalid : ircValidChannel newname 50 = true) :
    NamesOk (cmdChannelRenameApply t chan newname) := by
  rw [apply_eq hvalid]
  have hcases : ∀ key c, Function.update (Function.update t chan.casefoldName none)
      (ircCasefold chanNameLen newname) (some (chan.renamed newname)) key = some c →
      (key = ircCasefold chanNameLen newname ∧ c = chan.renamed newname) ∨ t key = some c := by
    intro key c hc
    by_cases hnew : key = ircCasefold chanNameLen newname
    · rw [hnew, Function.update_self] at hc
      exact Or.inl ⟨hnew, (Option.some.inj hc).symm⟩
    · rw [Function.update_of_ne hnew] at hc
      by_cases hold : key = chan.casefoldName
      · rw [hold, Function.update_self] at hc
        cases hc
      · rw [Function.update_of_ne hold] at hc
        exact Or.inr hc
  constructor
  · intro key c hc
    rcases hcases key c hc with ⟨rfl, rfl⟩ | hc
    · rfl
    · exact h.filed key c hc
  · intro key c hc
    rcases hcases key c hc with ⟨rfl, rfl⟩ | hc
    · rfl
    · exact h.folded key c hc
  · intro key c hc
    rcases hcases key c hc with ⟨rfl, rfl⟩ | hc
    · exact hvalid
    · exact h.valid key c hc

end Apply

/-! ## 3. The line -/

/-- A line, and what it is where it arrives after some servers have passed it on. Each of them
parses it and builds it again. -/
inductive Relayed : Text → Text → Prop
  | here (line : Text) : Relayed line line
  | hop {line arrived passed : Text} {srv : Server} {peer : Text} {t : NamedTable}
      (h : Relayed line arrived) (hpass : (receiveRename srv peer t arrived).2 = some passed) :
      Relayed line passed

section Line

variable {uid oldname newname : Text}

theorem parse_renameLine (hu : UidShape uid) (hold : ircValidChannel oldname 50 = true)
    (hnew : ircValidChannel newname 50 = true) (reason : Text) :
    ∃ rest, ircParseLine (renameLine uid oldname newname reason) =
      some { tags := [], pfx := some uid, command := "RENAME".toList,
             params := [oldname, newname] ++ rest } := by
  have hplain : ∀ p ∈ [oldname, newname], Plain p := by
    intro p hp
    simp only [List.mem_cons, List.not_mem_nil, or_false] at hp
    rcases hp with rfl | rfl
    · exact plain_of_valid_channel hold
    · exact plain_of_valid_channel hnew
  have hlen : (ircLine uid "RENAME".toList [oldname, newname]).length + 2 < 500 := by
    have hol := valid_channel_length hold
    have hnl := valid_channel_length hnew
    have hul := hu.length
    have h6 : "RENAME".toList.length = 6 := by decide
    rw [sent_length hu.source (by decide) hplain]
    simp only [List.flatMap_cons, List.flatMap_nil, List.length_append, List.length_cons,
      List.length_nil, uidLen] at *
    omega
  exact parse_sent hu.source (show Command "RENAME".toList by decide) hplain
    (by simp [ircMaxParams]) hlen (some reason)

/-- A server passes the line on with the same names. -/
theorem receiveRename_passes (hu : UidShape uid) (hold : ircValidChannel oldname 50 = true)
    (hnew : ircValidChannel newname 50 = true) {reason passed : Text} {srv : Server} {peer : Text}
    {t : NamedTable}
    (h : (receiveRename srv peer t (renameLine uid oldname newname reason)).2 = some passed) :
    ∃ reason, passed = renameLine uid oldname newname reason := by
  obtain ⟨rest, hparse⟩ := parse_renameLine hu hold hnew reason
  simp only [receiveRename, hparse, handleRename, List.cons_append] at h
  cases hsrc : srcUser srv peer (some uid) with
  | none =>
    rw [hsrc] at h
    cases h
  | some u =>
    have huid : u.uid = uid := (netsyncFindUid_some (Option.eq_some_of_filter_eq_some hsrc)).2.1
    simp only [hsrc, huid] at h
    exact ⟨_, (Option.some.inj h).symm⟩

theorem Relayed.names (hu : UidShape uid) (hold : ircValidChannel oldname 50 = true)
    (hnew : ircValidChannel newname 50 = true) {reason line : Text}
    (h : Relayed (renameLine uid oldname newname reason) line) :
    ∃ reason, line = renameLine uid oldname newname reason := by
  generalize hstart : renameLine uid oldname newname reason = start at h
  induction h with
  | here => exact ⟨reason, hstart.symm⟩
  | hop _ hpass ih =>
    obtain ⟨reason, rfl⟩ := ih
    exact receiveRename_passes hu hold hnew hpass

/-- **What a server makes of the line.** -/
theorem receiveRename_table (hu : UidShape uid) (hold : ircValidChannel oldname 50 = true)
    (hnew : ircValidChannel newname 50 = true) (reason : Text) {srv : Server} {peer : Text}
    (hs : SpeaksFor srv peer uid) {t : NamedTable} {chan : NamedChannel}
    (hchan : findNamed t oldname = some chan) :
    (receiveRename srv peer t (renameLine uid oldname newname reason)).1 =
      if (findNamed t newname).isNone then cmdChannelRenameApply t chan newname else t := by
  obtain ⟨rest, hparse⟩ := parse_renameLine hu hold hnew reason
  obtain ⟨u, hsrc, -⟩ := hs
  simp only [receiveRename, hparse, handleRename, hsrc, List.cons_append, hchan]

end Line

/-! ## 4. Both ends

One server decides, the other follows, and in between the line has gone over any number
of servers. -/

/-- Two servers hold the same channel, under the same name, with the same settings and members. The
order of members is not kept between servers. -/
structure Copies (a b : NamedChannel) : Prop where
  name : a.name = b.name
  folded : a.casefoldName = b.casefoldName
  settings : a.toSettings = b.toSettings
  members : ∀ m, m ∈ a.members ↔ m ∈ b.members

/-- Both have it under the new name, and nothing under the old one unless that is the same. The new
name is spelled as it was given. -/
structure Replicated (t t' : NamedTable) (oldkey newname : Text) : Prop where
  copies : ∃ a b, findNamed t newname = some a ∧ findNamed t' newname = some b ∧
    a.name = newname ∧ Copies a b
  old_gone : ircCasefold chanNameLen newname ≠ oldkey → t oldkey = none ∧ t' oldkey = none

/-- What `RENAME` accepted. -/
theorem cmdRename_renamed {t t₁ : NamedTable} {reserved : Option Text} {cl : Client}
    {oldname newname line : Text} {rest : List Text}
    (h : cmdRename t reserved cl oldname newname rest = .renamed t₁ line) :
    ∃ chan reason, findNamed t oldname = some chan ∧ ircValidChannel newname 50 = true ∧
      t₁ = cmdChannelRenameApply t chan newname ∧
      line = renameLine cl.uid chan.name newname reason := by
  unfold cmdRename at h
  split at h
  · cases h
  · next chan hchan =>
    split at h
    · cases h
    · split at h
      · cases h
      · split at h
        · cases h
        · next hrefused =>
          have hvalid : ircValidChannel newname 50 = true := by
            by_contra hno
            rw [Bool.not_eq_true] at hno
            simp [renameRefused, hno] at hrefused
          have hlen := valid_channel_length hvalid
          obtain ⟨rfl, rfl⟩ := RenameOutcome.renamed.inj h
          rw [clip_of_fits (by simp only [chanNameLen]; omega)]
          exact ⟨chan, _, hchan, hvalid, rfl, rfl⟩

/-- **A rename is the same on every server**, if it is more than a change of case. The receiving
side looks for a channel under the new key before it renames, and for a change of case only it
finds the very channel that is renamed. -/
theorem rename_replicates {t t₁ t' : NamedTable} {reserved : Option Text} {cl : Client}
    {oldname newname sent line : Text} {rest : List Text} {srv : Server} {peer : Text}
    {chan chan' : NamedChannel} (ht : NamesOk t) (hu : UidShape cl.uid)
    (hout : cmdRename t reserved cl oldname newname rest = .renamed t₁ sent)
    (hline : Relayed sent line) (hs : SpeaksFor srv peer cl.uid)
    (hchan : findNamed t oldname = some chan) (hchan' : findNamed t' oldname = some chan')
    (hcopy : Copies chan chan')
    (hfree : ircCasefold chanNameLen newname ≠ chan.casefoldName → findNamed t' newname = none) :
    Replicated t₁ (receiveRename srv peer t' line).1 chan.casefoldName newname ↔
      ircCasefold chanNameLen newname ≠ chan.casefoldName ∨ newname = chan.name := by
  obtain ⟨chan₁, reason, hchan₁, hvalid, rfl, rfl⟩ := cmdRename_renamed hout
  obtain rfl : chan₁ = chan := Option.some.inj (hchan₁.symm.trans hchan)
  have hfiled : chan₁.casefoldName = ircCasefold chanNameLen oldname := ht.filed _ _ hchan
  have hfolded := ht.folded _ _ hchan
  have hvalidOld := ht.valid _ _ hchan
  have hkey : findNamed t' chan₁.name = some chan' := by
    rw [findNamed, ← hfolded, hfiled]
    exact hchan'
  obtain ⟨reason', rfl⟩ := hline.names hu hvalidOld hvalid
  rw [receiveRename_table hu hvalidOld hvalid reason' hs hkey]
  by_cases hne : ircCasefold chanNameLen newname = chan₁.casefoldName
  · -- the name is taken, by the channel itself
    have hfound : findNamed t' newname = some chan' := by
      rw [findNamed, hne, hfiled]
      exact hchan'
    simp only [hfound, Option.isNone_some, Bool.false_eq_true, if_false, hne, ne_eq,
      not_true_eq_false, false_or]
    constructor
    · intro h
      obtain ⟨a, b, -, hb, hname, hab⟩ := h.copies
      obtain rfl := Option.some.inj (hfound.symm.trans hb)
      rw [← hname, hab.name, hcopy.name]
    · intro hname
      refine ⟨⟨_, chan', apply_new hvalid, hfound, rfl, ?_, ?_, hcopy.settings, hcopy.members⟩,
        fun h => absurd hne h⟩
      · exact hname.trans hcopy.name
      · exact hne.trans hcopy.folded
  · simp only [hfree hne, Option.isNone_none, if_true]
    refine iff_of_true ⟨⟨_, _, apply_new hvalid, apply_new hvalid, rfl, rfl, rfl,
      hcopy.settings, hcopy.members⟩, fun h => ?_⟩ (Or.inl hne)
    have hold : cmdChannelRenameApply t' chan' newname chan'.casefoldName = none :=
      apply_old hvalid (hcopy.folded ▸ h)
    exact ⟨apply_old hvalid h, hcopy.folded ▸ hold⟩

/-- Alice's channel, where she is an op. -/
def demoRoom : NamedChannel :=
  { Settings.none with
    name := "#old".toList, casefoldName := "#old".toList, topic := [], created := 100
    members := [⟨demoOp.uid, by decide, ⟨{.op}, demoOp_closed⟩, false⟩] }

/-- A server that has no other channel. -/
def demoTable : NamedTable := fun key => if key = "#old".toList then some demoRoom else none

theorem demoTable_ok : NamesOk demoTable := by
  have honly : ∀ key chan, demoTable key = some chan → key = "#old".toList ∧ chan = demoRoom := by
    intro key chan h
    obtain ⟨hkey, hchan⟩ := Option.ite_none_right_eq_some.mp h
    exact ⟨hkey, (Option.some.inj hchan).symm⟩
  constructor
  · intro key chan h
    obtain ⟨rfl, rfl⟩ := honly key chan h
    rfl
  · intro key chan h
    obtain ⟨rfl, rfl⟩ := honly key chan h
    decide
  · intro key chan h
    obtain ⟨rfl, rfl⟩ := honly key chan h
    decide

theorem rename_replicates_demo :
    Replicated (cmdChannelRenameApply demoTable demoRoom "#new".toList)
      (receiveRename demoThere "1AA".toList demoTable
        (renameLine demoOp.uid "#old".toList "#new".toList "tidy".toList)).1
      "#old".toList "#new".toList := by
  have hout : cmdRename demoTable none demoOp "#Old".toList "#new".toList ["tidy".toList] =
      .renamed (cmdChannelRenameApply demoTable demoRoom "#new".toList)
        (renameLine demoOp.uid "#old".toList "#new".toList "tidy".toList) := rfl
  exact (rename_replicates demoTable_ok (by decide) hout (.here _)
    (speaksFor_of_isSome (by decide)) rfl rfl ⟨rfl, rfl, rfl, fun _ => Iff.rfl⟩
    fun _ => rfl).mpr (Or.inl (by decide))

/-- `RENAME #old #OLD` is made where Alice is, and not on the other server. -/
theorem case_rename_stays :
    cmdRename demoTable none demoOp "#old".toList "#OLD".toList [] =
        .renamed (cmdChannelRenameApply demoTable demoRoom "#OLD".toList)
          (renameLine demoOp.uid "#old".toList "#OLD".toList "No reason".toList) ∧
      (findNamed (cmdChannelRenameApply demoTable demoRoom "#OLD".toList) "#OLD".toList).map
        NamedChannel.name = some "#OLD".toList ∧
      (findNamed (receiveRename demoThere "1AA".toList demoTable
        (renameLine demoOp.uid "#old".toList "#OLD".toList "No reason".toList)).1
        "#OLD".toList).map NamedChannel.name = some "#old".toList := by
  refine ⟨rfl, ?_, ?_⟩ <;> decide +kernel

end SekurIRCd
