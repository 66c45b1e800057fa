/-
# `cmd_apply_channel_mode`: the MODE command

One loop over the mode string serves MODE, SAMODE and the services.  Each letter that changes
something is announced: it goes into `outflags` under its sign, and its parameter, if it has
one, into `outparams`.  At the end one line is built for the local members, and the same flags
and parameters go to `netsync_chan_mode` for the other servers (`Mode/Wire.lean`).

The functions below follow the branches of the loop one by one.  `applyLetter` is one pass of
the loop body without the bookkeeping of the two output buffers, which every branch of the
source repeats and which stands once in `modeChar`.  The loop stops early: after six parameters,
or when the flags have used up their 64 bytes.

`announced` is what a run announces, letter by letter.  It is the loop again with its output
kept apart as signed letters, so that conditions on a mode string can be stated on the changes
it makes; `modeLoop_buffers` says that the two buffers are exactly its encoding.
-/
import SekurIRCd.Client
import SekurIRCd.Channel
import SekurIRCd.Lib.SignedLetters

namespace SekurIRCd

open CLib CLib.Signed

/-- `MAX_MODE_PARAMS`, advertised as MODES=6. -/
def maxModeParams : Nat := 6

/-- A numeric reply to the setter: `client_reply`. -/
structure Reply where
  numeric : Text
  params : List Text
  text : Text
deriving DecidableEq, Repr

/-- `err_not_channel_op`. -/
def errNotChannelOp (chan : Text) : Reply :=
  ⟨"482".toList, [chan], "You're not channel operator".toList⟩

/-- `err_no_such_channel`. -/
def errNoSuchChannel (chan : Text) : Reply := ⟨"403".toList, [chan], "No such channel".toList⟩

/-- `err_no_such_nick`. -/
def errNoSuchNick (nick : Text) : Reply := ⟨"401".toList, [nick], "No such nick/channel".toList⟩

/-- What one letter did: the channel after it, the arguments left, the replies, and, when it is
announced, its parameter. -/
structure Letter where
  chan : Channel
  args : List Text
  emit : Option (Option Text)
  replies : List Reply
deriving DecidableEq

/-- A letter that changed nothing. -/
def Letter.skip (chan : Channel) (args : List Text) : Letter := ⟨chan, args, none, []⟩

/-- A letter refused with a reply. -/
def Letter.refuse (chan : Channel) (args : List Text) (r : Reply) : Letter :=
  ⟨chan, args, none, [r]⟩

/-- A letter that changed the channel, announced with the parameter `p`. -/
def Letter.done (chan : Channel) (args : List Text) (p : Option Text) : Letter :=
  ⟨chan, args, some p, []⟩

/-! ## 1. The branches

A branch is a function of the channel, the sign and the arguments that are left. It returns the
channel, what is left of the arguments, and what is announced or replied. -/

/-- The modes without a parameter.  One that is already so is not announced. -/
def applyFlag (chan : Channel) (sign : Bool) (bit : CMode) (args : List Text) : Letter :=
  if sign = decide (bit ∈ chan.modes) then .skip chan args
  else if sign then .done { chan with modes := insert bit chan.modes } args none
  else
    let chan := { chan with modes := chan.modes.erase bit }
    .done (if bit = .delayjoin then chan.revealAll else chan) args none

/-- `L`: the redirect target, a valid channel other than this one. -/
def applyRedirect (chan : Channel) (sign : Bool) (args : List Text) : Letter :=
  if sign then
    match args with
    | [] => .skip chan args
    | target :: args =>
      if ircValidChannel target 50 = false ∨ ircCasefold chanNameLen target = ircCasefold chanNameLen chan.name
      then .refuse chan args (errNoSuchChannel target)
      else .done { chan with modes := insert .redirect chan.modes
                             redirect := clip chanNameLen target } args (some (clip 256 target))
  else if .redirect ∉ chan.modes then .skip chan args
  else .done { chan with modes := chan.modes.erase .redirect, redirect := [] } args none

/-- `f`: a malformed parameter is consumed and ignored. -/
def applyFlood (chan : Channel) (sign : Bool) (args : List Text) : Letter :=
  if sign then
    match args with
    | [] => .skip chan args
    | a :: args =>
      match channelSetFlood chan a with
      | none => .skip chan args
      | some chan' => .done chan' args (some (clip 256 (channelFloodParam chan'.flood)))
  else if .flood ∉ chan.modes then .skip chan args
  else .done (channelClearFlood chan) args none

/-- `j`. -/
def applyJthrot (chan : Channel) (sign : Bool) (args : List Text) : Letter :=
  if sign then
    match args with
    | [] => .skip chan args
    | a :: args =>
      match parseRate a with
      | none => .skip chan args
      | some (n, secs) =>
        .done { chan with modes := insert .jthrot chan.modes, jtJoins := n, jtSecs := secs } args
          (some (clip 256 (intDecimal n ++ ':' :: intDecimal secs)))
  else if .jthrot ∉ chan.modes then .skip chan args
  else .done { chan with modes := chan.modes.erase .jthrot, jtJoins := 0, jtSecs := 0 } args none

/-- `k`: a key with a space is consumed and ignored; `-k` consumes an argument if there is one,
and is announced without any. -/
def applyKey (chan : Channel) (sign : Bool) (args : List Text) : Letter :=
  if sign then
    match args with
    | [] => .skip chan args
    | a :: args =>
      if ' ' ∈ a then .skip chan args
      else .done { chan with key := clip chanKeyLen a, modes := insert .k chan.modes } args
        (some (clip 256 a))
  else if .k ∉ chan.modes then .skip chan args.tail
  else .done { chan with modes := chan.modes.erase .k, key := [] } args.tail none

/-- `l`: a positive number that fits an `int`, nothing trailing. -/
def applyLimit (chan : Channel) (sign : Bool) (args : List Text) : Letter :=
  if sign then
    match args with
    | [] => .skip chan args
    | a :: args =>
      match strtol a with
      | some (lim, []) =>
        if lim < 1 ∨ intMax < lim then .skip chan args
        else .done { chan with limit := lim, modes := insert .l chan.modes } args
          (some (clip 256 (intDecimal lim)))
      | _ => .skip chan args
  else if .l ∉ chan.modes then .skip chan args
  else .done { chan with modes := chan.modes.erase .l, limit := 0 } args none

/-- The seniority of a setter: opers and services stand above every rank. -/
def setterLevel (chan : Channel) (cl : Client) : Nat :=
  if cl.oper || cl.isService then 99
  else match channelFindMember chan cl.uid with
    | some m => channelRankLevel m.rank
    | none => 0

/-- Only an owner may grant or take `q`, only an owner or admin `a`. -/
def rankNeed (bit : RankBit) : Nat := if bit = .owner then 5 else if bit = .admin then 4 else 0

/-- What the member at whom a rank letter is aimed becomes; a ranked member cannot stay
hidden. -/
def Member.setRank (sign : Bool) (b : RankBit) (m : Member) : Member :=
  if sign then { m with rank := Rank.grant m.rank b, hidden := false }
  else { m with rank := Rank.revoke m.rank b }

/-- `o h v q a`: who may touch whom, and the rank of a member. The member is looked up by nick, a
service loses its rank to services only, and the levels of both sides are those of the moment. -/
def applyRank (srv : Server) (cl : Client) (chan : Channel) (sign : Bool) (bit : RankBit)
    (args : List Text) : Letter :=
  match args with
  | [] => .skip chan args
  | a :: args =>
    match serverFindUser srv.users.clients a with
    | none => .refuse chan args (errNoSuchNick a)
    | some target =>
      match channelFindMember chan target.uid with
      | none => .refuse chan args
          ⟨"441".toList, [target.nick, chan.name], "They aren't on that channel".toList⟩
      | some tm =>
        if target.isService && !sign && !cl.isService then
          .refuse chan args ⟨"484".toList, [target.nick, chan.name],
            "Cannot kick or deop a network service".toList⟩
        else
          let selfDrop := decide (target.uid = cl.uid) && !sign
          if !selfDrop && (decide (setterLevel chan cl < rankNeed bit) ||
              (!sign && decide (setterLevel chan cl < channelRankLevel tm.rank))) then
            .refuse chan args ⟨"482".toList, [chan.name],
              "You are not senior enough to change that user's status".toList⟩
          else if sign = decide (bit ∈ tm.rank.bits) then .skip chan args
          else .done (chan.updateMember target.uid (Member.setRank sign bit)) args
            (some (clip 256 target.nick))

/-- `b e I`: a mask with a space is consumed and ignored; a full list is reported; a duplicate
or an absent mask is not announced. -/
def applyList (chan : Channel) (sign : Bool) (kind : ListKind) (args : List Text) : Letter :=
  match args with
  | [] => .skip chan args
  | a :: args =>
    if ' ' ∈ a then .skip chan args
    else
      let mask := channelNormalizeMask a
      if sign then
        if chanMaxMasklist ≤ (chan.list kind).length then
          .refuse chan args ⟨"478".toList, [chan.name, mask], "Channel list is full".toList⟩
        else match masklistAdd (chan.list kind) mask with
          | none => .skip chan args
          | some l => .done (chan.setList kind l) args (some (clip 256 mask))
      else match masklistDel (chan.list kind) mask with
        | none => .skip chan args
        | some l => .done (chan.setList kind l) args (some (clip 256 mask))

/-- One letter of the mode string, with the gates that come before the branches. A half-op gets
past them with `v` and the lists; `r` is for services, and `+P` for them and for opers. -/
def applyLetter (srv : Server) (cl : Client) (isFullOp : Bool) (chan : Channel) (sign : Bool)
    (c : Char) (args : List Text) : Letter :=
  if c = 'r' ∧ cl.isService = false then
    .refuse chan args ⟨"482".toList, [chan.name], "Mode +r is set by services only".toList⟩
  else if c = 'P' ∧ sign = true ∧ cl.isService = false ∧ cl.oper = false then
    .refuse chan args ⟨"482".toList, [chan.name], "Mode +P is set by operators only".toList⟩
  else if isFullOp = false ∧ c ∉ ['v', 'b', 'e', 'I'] ∧ c ≠ 'r' then
    .refuse chan args (errNotChannelOp chan.name)
  else match channelFlagBit c with
  | some bit => applyFlag chan sign bit args
  | none =>
    if c = 'L' then applyRedirect chan sign args
    else if c = 'f' then applyFlood chan sign args
    else if c = 'j' then applyJthrot chan sign args
    else if c = 'k' then applyKey chan sign args
    else if c = 'l' then applyLimit chan sign args
    else match rankBit c with
    | some bit => applyRank srv cl chan sign bit args
    | none =>
      match listKind c with
      | some kind => applyList chan sign kind args
      | none => .refuse chan args
          ⟨"472".toList, [chan.name, [c]], "is unknown mode char to me".toList⟩

/-! ## 2. The loop

The loop variables are a record, and the body is one function on it. The sign is a variable, too,
as `+` and `-` are letters like any other. -/

/-- The variables of the loop. `sign` is the sign that the next letter is read under, and `cursign`
the one that the announced letters stand under so far. -/
structure ModeRun where
  chan : Channel
  args : List Text
  sign : Bool
  cursign : Option Bool
  outflags : Text
  outparams : List Text
  replies : List Reply
deriving DecidableEq

/-- The loop variables at the start. -/
def ModeRun.start (chan : Channel) (args : List Text) : ModeRun :=
  ⟨chan, args, true, none, [], [], []⟩

/-- One pass of the loop body. -/
def modeChar (srv : Server) (cl : Client) (isFullOp : Bool) (s : ModeRun) (c : Char) : ModeRun :=
  if c = '+' then { s with sign := true }
  else if c = '-' then { s with sign := false }
  else
    let r := applyLetter srv cl isFullOp s.chan s.sign c s.args
    let s := { s with chan := r.chan, args := r.args, replies := s.replies ++ r.replies }
    match r.emit with
    | none => s
    | some p =>
      { s with
        outflags := s.outflags ++ encodeOne s.cursign ⟨s.sign, c, p⟩
        cursign := some s.sign
        outparams := s.outparams ++ p.toList }

/-- The two buffers have no room for another letter. The letters behind are not looked at, not even
those without a parameter. -/
def ModeRun.full (s : ModeRun) : Prop :=
  64 ≤ s.outflags.length + 2 ∨ maxModeParams ≤ s.outparams.length

instance (s : ModeRun) : Decidable s.full := inferInstanceAs (Decidable (_ ∨ _))

/-- The loop over the mode string. -/
def modeLoop (srv : Server) (cl : Client) (isFullOp : Bool) : Text → ModeRun → ModeRun
  | [], s => s
  | c :: cs, s =>
    if s.full then s else modeLoop srv cl isFullOp cs (modeChar srv cl isFullOp s c)

/-- The command's effect: the channel, the replies to the setter, the flags and parameters it
announces, and the line for the local members, when one is sent. -/
structure ModeOutcome where
  chan : Channel
  replies : List Reply
  outflags : Text
  outparams : List Text
  line : Option Text
deriving DecidableEq

/-- The line for the local members; not sent when it does not fit. -/
def modeLine (cl : Client) (chan : Channel) (outflags : Text) (outparams : List Text) :
    Option Text :=
  let b := ircBuild 510 [] (some (clientSource cl)) "MODE".toList
    (chan.name :: outflags :: outparams.take 16) none
  if b.ok then some b.text else none

/-- `cmd_apply_channel_mode`. When nothing is announced nothing is sent; else the members get the
line if it fits, and the other servers get theirs either way. -/
def cmdApplyChannelMode (srv : Server) (cl : Client) (chan : Channel) (modestring : Text)
    (args : List Text) (isFullOp : Bool) : ModeOutcome :=
  let s := modeLoop srv cl isFullOp modestring (ModeRun.start chan args)
  if s.outflags.length ≤ 1 then ⟨s.chan, s.replies, [], [], none⟩
  else ⟨s.chan, s.replies, s.outflags, s.outparams, modeLine cl s.chan s.outflags s.outparams⟩

/-- The command's channel is the one its loop ends with. -/
theorem cmdApplyChannelMode_chan (srv : Server) (cl : Client) (chan : Channel) (ms : Text)
    (args : List Text) (full : Bool) :
    (cmdApplyChannelMode srv cl chan ms args full).chan =
      (modeLoop srv cl full ms (ModeRun.start chan args)).chan := by
  unfold cmdApplyChannelMode
  simp only
  split <;> rfl

/-! ## 3. What a run announces

The loop leaves two buffers. The list of signed letters that they encode is computed beside it, by
the same recursion. -/

/-- The letters a run announces, each with its sign and its parameter. -/
def announcedFrom (srv : Server) (cl : Client) (isFullOp : Bool) : Text → ModeRun →
    List (Signed Text)
  | [], _ => []
  | c :: cs, s =>
    if s.full then []
    else
      let rest := announcedFrom srv cl isFullOp cs (modeChar srv cl isFullOp s c)
      if c = '+' ∨ c = '-' then rest
      else match (applyLetter srv cl isFullOp s.chan s.sign c s.args).emit with
        | some p => ⟨s.sign, c, p⟩ :: rest
        | none => rest

/-- The changes a mode string and its arguments make, as they are announced. -/
def announced (srv : Server) (cl : Client) (chan : Channel) (modestring : Text)
    (args : List Text) (isFullOp : Bool) : List (Signed Text) :=
  announcedFrom srv cl isFullOp modestring (ModeRun.start chan args)

/-- A letter that is not announced changes neither buffer. -/
theorem modeChar_of_emit_none {srv : Server} {cl : Client} {full : Bool} {s : ModeRun} {c : Char}
    (hc : IsLetter c) (he : (applyLetter srv cl full s.chan s.sign c s.args).emit = none) :
    modeChar srv cl full s c =
      { s with
        chan := (applyLetter srv cl full s.chan s.sign c s.args).chan
        args := (applyLetter srv cl full s.chan s.sign c s.args).args
        replies := s.replies ++ (applyLetter srv cl full s.chan s.sign c s.args).replies } := by
  simp only [modeChar, if_neg hc.1, if_neg hc.2, he]

/-- A letter that is announced goes into the flags, and its parameter into the parameters. -/
theorem modeChar_of_emit_some {srv : Server} {cl : Client} {full : Bool} {s : ModeRun} {c : Char}
    (hc : IsLetter c) {p : Option Text}
    (he : (applyLetter srv cl full s.chan s.sign c s.args).emit = some p) :
    modeChar srv cl full s c =
      { s with
        chan := (applyLetter srv cl full s.chan s.sign c s.args).chan
        args := (applyLetter srv cl full s.chan s.sign c s.args).args
        replies := s.replies ++ (applyLetter srv cl full s.chan s.sign c s.args).replies
        outflags := s.outflags ++ encodeOne s.cursign ⟨s.sign, c, p⟩
        cursign := some s.sign
        outparams := s.outparams ++ p.toList } := by
  simp only [modeChar, if_neg hc.1, if_neg hc.2, he]

/-- **The buffers hold the encoding of what was announced.** So whoever reads them back letter by
letter reads the changes. -/
theorem modeLoop_buffers (srv : Server) (cl : Client) (isFullOp : Bool) (cs : Text)
    (s : ModeRun) :
    (modeLoop srv cl isFullOp cs s).outflags =
        s.outflags ++ encode s.cursign (announcedFrom srv cl isFullOp cs s) ∧
      (modeLoop srv cl isFullOp cs s).outparams =
        s.outparams ++ argsOf (announcedFrom srv cl isFullOp cs s) := by
  induction cs generalizing s with
  | nil => simp [modeLoop, announcedFrom]
  | cons c cs ih =>
    rw [modeLoop, announcedFrom]
    by_cases hf : s.full
    · simp [hf]
    · rw [if_neg hf, if_neg hf]
      obtain ⟨ih1, ih2⟩ := ih (modeChar srv cl isFullOp s c)
      rw [ih1, ih2]
      by_cases hp : c = '+'
      · simp [hp, modeChar]
      · by_cases hm : c = '-'
        · simp [hm, modeChar]
        · simp only [hp, hm, or_self, if_false, modeChar]
          cases (applyLetter srv cl isFullOp s.chan s.sign c s.args).emit with
          | none => simp
          | some p => simp [encode, argsOf_cons]

/-- The parameters stay within the six that are advertised. -/
theorem modeLoop_outparams_le (srv : Server) (cl : Client) (isFullOp : Bool) (cs : Text)
    (s : ModeRun) (h : s.outparams.length ≤ maxModeParams) :
    (modeLoop srv cl isFullOp cs s).outparams.length ≤ maxModeParams := by
  induction cs generalizing s with
  | nil => exact h
  | cons c cs ih =>
    rw [modeLoop]
    by_cases hf : s.full
    · rw [if_pos hf]; exact h
    · rw [if_neg hf]
      refine ih _ ?_
      have hlt : s.outparams.length < maxModeParams := by
        by_contra hge
        exact hf (Or.inr (by omega))
      unfold modeChar
      split
      · exact h
      · split
        · exact h
        · simp only
          split
          · exact h
          · rename_i p _
            simp only [List.length_append]
            have : p.toList.length ≤ 1 := by cases p <;> simp
            omega

theorem modeLoop_outflags_le (srv : Server) (cl : Client) (isFullOp : Bool) (cs : Text)
    (s : ModeRun) (h : s.outflags.length ≤ 63) :
    (modeLoop srv cl isFullOp cs s).outflags.length ≤ 63 := by
  induction cs generalizing s with
  | nil => exact h
  | cons c cs ih =>
    rw [modeLoop]
    by_cases hf : s.full
    · rw [if_pos hf]; exact h
    · rw [if_neg hf]
      refine ih _ ?_
      have hlt : s.outflags.length + 2 < 64 := by
        by_contra hge
        exact hf (Or.inl (by omega))
      unfold modeChar
      split
      · exact h
      · split
        · exact h
        · simp only
          split
          · exact h
          · rename_i p _
            have := (encodeOne_length s.cursign (⟨s.sign, c, p⟩ : Signed Text)).2
            simp only [List.length_append]
            omega

section Announced

variable (srv : Server) (cl : Client) (chan : Channel) (ms : Text) (args : List Text)
  (full : Bool)

/-- What the command hands on, from what it announced. -/
theorem cmdApplyChannelMode_out (h : announced srv cl chan ms args full ≠ []) :
    (cmdApplyChannelMode srv cl chan ms args full).outflags =
        encode none (announced srv cl chan ms args full) ∧
      (cmdApplyChannelMode srv cl chan ms args full).outparams =
        argsOf (announced srv cl chan ms args full) ∧
      (cmdApplyChannelMode srv cl chan ms args full).line =
        modeLine cl (cmdApplyChannelMode srv cl chan ms args full).chan
          (encode none (announced srv cl chan ms args full))
          (argsOf (announced srv cl chan ms args full)) := by
  obtain ⟨h1, h2⟩ := modeLoop_buffers srv cl full ms (ModeRun.start chan args)
  have hlen := two_le_encode_none h
  simp only [ModeRun.start, List.nil_append] at h1 h2
  have hout : ¬ (modeLoop srv cl full ms (ModeRun.start chan args)).outflags.length ≤ 1 := by
    rw [ModeRun.start, h1]
    simp only [announced, ModeRun.start] at hlen
    omega
  simp only [cmdApplyChannelMode, if_neg hout]
  simp only [announced, ModeRun.start, h1, h2, and_self]

/-- A command that announces nothing sends nothing. -/
theorem cmdApplyChannelMode_silent (h : announced srv cl chan ms args full = []) :
    (cmdApplyChannelMode srv cl chan ms args full).line = none ∧
      (cmdApplyChannelMode srv cl chan ms args full).outflags = [] := by
  obtain ⟨h1, -⟩ := modeLoop_buffers srv cl full ms (ModeRun.start chan args)
  have hout : (modeLoop srv cl full ms (ModeRun.start chan args)).outflags.length ≤ 1 := by
    rw [h1, show announcedFrom srv cl full ms (ModeRun.start chan args) = [] from h]
    simp [ModeRun.start]
  simp only [cmdApplyChannelMode, if_pos hout, and_self]

theorem announced_args_le : (argsOf (announced srv cl chan ms args full)).length ≤ maxModeParams := by
  have h := modeLoop_outparams_le srv cl full ms (ModeRun.start chan args) (Nat.zero_le _)
  rwa [(modeLoop_buffers srv cl full ms (ModeRun.start chan args)).2, ModeRun.start,
    List.nil_append] at h

theorem announced_flags_le : (encode none (announced srv cl chan ms args full)).length ≤ 63 := by
  have h := modeLoop_outflags_le srv cl full ms (ModeRun.start chan args) (Nat.zero_le _)
  rwa [(modeLoop_buffers srv cl full ms (ModeRun.start chan args)).1, ModeRun.start,
    List.nil_append] at h

end Announced

end SekurIRCd
