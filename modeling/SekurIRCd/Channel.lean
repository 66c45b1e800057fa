/-
# Channels

`channel_t` holds the modes with their parameters, the three mask lists and the members with
their ranks, besides its name, topic and creation time.  The modes and parameters are one
structure of their own (`Settings`), since "the same modes" is a statement about all of them.

Sets of flags and ranks are finite sets rather than bit masks, and a member is known by its UID.
The counters of running windows, the invitations and the cached ban verdicts are not modelled.
-/
import SekurIRCd.Flood
import SekurIRCd.Mask
import SekurIRCd.Proto
import Mathlib.Data.Finset.Basic

namespace SekurIRCd

open CLib

/-! ## 1. Modes and ranks

The bits of the modes and of the ranks. A rank carries the proof that owners and admins are ops, so
that no function on it has to show it again. -/

/-- The `CMODE_*` bits. A set of modes is a `Finset` of them, and so is a mask to be kept or
removed. -/
inductive CMode
  | n | i | p | t | s | m | k | l | z | r | perm | noctcp | nonotice | stripcolor | noinvite
  | nokick | nonick | regonly | operonly | modreg | nocolor | flood | jthrot | redirect
  | delayjoin | auditorium | censor | noknock
deriving DecidableEq, Repr

/-- The `RANK_*` bits. -/
inductive RankBit
  | voice | halfop | op | admin | owner
deriving DecidableEq, Repr

/-- A member's rank.  Owners and admins are ops too, so that every op check covers them. -/
structure Rank where
  bits : Finset RankBit
  closed : .owner ∈ bits ∨ .admin ∈ bits → .op ∈ bits
deriving DecidableEq

@[ext] theorem Rank.ext {r r' : Rank} (h : r.bits = r'.bits) : r = r' := by
  cases r
  cases r'
  simp only at h
  subst h
  rfl

/-- No rank. -/
def Rank.none : Rank := ⟨∅, by simp⟩

/-- The letters of the modes without a parameter, in the order of `channel_modes_string`. -/
def flagLetters : List (Char × CMode) :=
  [('n', .n), ('i', .i), ('p', .p), ('t', .t), ('s', .s), ('m', .m), ('z', .z), ('r', .r),
    ('P', .perm), ('C', .noctcp), ('T', .nonotice), ('S', .stripcolor), ('V', .noinvite),
    ('Q', .nokick), ('N', .nonick), ('R', .regonly), ('O', .operonly), ('M', .modreg),
    ('c', .nocolor), ('D', .delayjoin), ('u', .auditorium), ('G', .censor), ('K', .noknock)]

/-- `channel_flag_bit`. -/
def channelFlagBit (c : Char) : Option CMode := flagLetters.lookup c

/-- The rank a mode letter stands for. -/
def rankBit (c : Char) : Option RankBit :=
  if c = 'o' then some .op else if c = 'h' then some .halfop else if c = 'v' then some .voice
  else if c = 'q' then some .owner else if c = 'a' then some .admin else none

/-- `channel_rank_level`: 0 none, 1 voice, 2 halfop, 3 op, 4 admin, 5 owner. -/
def channelRankLevel (rank : Rank) : Nat :=
  if .owner ∈ rank.bits then 5 else if .admin ∈ rank.bits then 4 else if .op ∈ rank.bits then 3
  else if .halfop ∈ rank.bits then 2 else if .voice ∈ rank.bits then 1 else 0

/-- `channel_rank_prefix(rank, 1, out)`: every status character, highest first. -/
def channelRankMarks (rank : Rank) : Text :=
  ([(RankBit.owner, '~'), (.admin, '&'), (.op, '@'), (.halfop, '%'), (.voice, '+')].filter
    fun x => x.1 ∈ rank.bits).map Prod.snd

/-- Granting a rank: `+q` and `+a` imply op. -/
def Rank.grant (rank : Rank) (b : RankBit) : Rank where
  bits := if b = .owner ∨ b = .admin then insert .op (insert b rank.bits) else insert b rank.bits
  closed := by
    have h := rank.closed
    split
    · simp
    · rename_i hb
      rw [not_or] at hb
      simp only [Finset.mem_insert, Ne.symm hb.1, Ne.symm hb.2, false_or]
      exact fun hx => Or.inr (h hx)

/-- Taking a rank away: `-o` is a full demotion. -/
def Rank.revoke (rank : Rank) (b : RankBit) : Rank where
  bits := if b = .op then ((rank.bits.erase .op).erase .admin).erase .owner
    else rank.bits.erase b
  closed := by
    have h := rank.closed
    split
    · simp
    · rename_i hb
      simp only [Finset.mem_erase]
      exact fun hx => ⟨Ne.symm hb, h (hx.imp And.right And.right)⟩

/-! ## 2. The channel

The fields of `channel_t` that the modes, the lists and the members need. The members are a list in
the order in which the code's hash is walked. -/

def chanNameLen : Nat := 64

def chanKeyLen : Nat := 64

def topicMaxLen : Nat := 307

/-- The modes of a channel, with their parameters and lists. Two channels have the same modes when
these records are equal. -/
structure Settings where
  modes : Finset CMode
  key : Text
  limit : Int
  redirect : Text
  flood : Flood
  jtJoins : Int
  jtSecs : Int
  bans : List Text
  exceptions : List Text
  invex : List Text
deriving DecidableEq

/-- What a new channel starts from. -/
def Settings.none : Settings := ⟨∅, [], 0, [], Flood.clear, 0, 0, [], [], []⟩

/-- `member_t`, with its client known by the UID.  A client gets one when it registers; that SAJOIN
puts a connection without one into a channel as well is the subject of `Net.Membership`. -/
structure Member where
  client : Text
  named : client ≠ []
  rank : Rank
  hidden : Bool
deriving DecidableEq

/-- `channel_t`. A channel is created under a name that `irc_valid_channel` accepts, and keeps this
name through all that is modelled here; a rename has a model of its own. -/
structure Channel extends Settings where
  name : Text
  nameValid : ircValidChannel name 50 = true
  topic : Text
  topicSetter : Text
  topicTime : Int
  created : Int
  members : List Member
deriving DecidableEq

/-- `casefold_name`. -/
def Channel.casefoldName (chan : Channel) : Text := ircCasefold chanNameLen chan.name

/-- `channel_find_member`. -/
def channelFindMember (chan : Channel) (uid : Text) : Option Member :=
  chan.members.find? fun m => m.client == uid

/-- `channel_add_member`, at the end of the iteration order. -/
def channelAddMember (chan : Channel) (m : Member) : Channel :=
  if (channelFindMember chan m.client).isSome then chan
  else { chan with members := chan.members ++ [m] }

/-- `channel_remove_member`. -/
def channelRemoveMember (chan : Channel) (uid : Text) : Channel :=
  { chan with members := chan.members.filter fun m => m.client != uid }

/-- The rank a UID has in the channel, if it is there. -/
def Channel.rankOf (chan : Channel) (uid : Text) : Option Rank :=
  (channelFindMember chan uid).map Member.rank

/-- Changing one member in place. -/
def Channel.updateMember (chan : Channel) (uid : Text) (f : Member → Member) : Channel :=
  { chan with members := chan.members.map fun m => if m.client = uid then f m else m }

/-- `-D`: everyone still hidden becomes visible. -/
def Channel.revealAll (chan : Channel) : Channel :=
  { chan with members := chan.members.map fun m => { m with hidden := false } }

/-- `channel_clear_flood`. -/
def channelClearFlood (chan : Channel) : Channel :=
  { chan with modes := chan.modes.erase .flood, flood := Flood.clear }

/-- `channel_set_flood`; `none` is its `-1`. -/
def channelSetFlood (chan : Channel) (param : Text) : Option Channel :=
  (parseFlood param).map fun f => { chan with modes := insert .flood chan.modes, flood := f }

/-- The three mask lists, by their mode letters. -/
inductive ListKind
  | ban | exception | invex
deriving DecidableEq, Repr

def listKind (c : Char) : Option ListKind :=
  if c = 'b' then some .ban else if c = 'e' then some .exception
  else if c = 'I' then some .invex else none

def ListKind.letter : ListKind → Char
  | .ban => 'b'
  | .exception => 'e'
  | .invex => 'I'

def Channel.list (chan : Channel) : ListKind → List Text
  | .ban => chan.bans
  | .exception => chan.exceptions
  | .invex => chan.invex

def Channel.setList (chan : Channel) : ListKind → List Text → Channel
  | .ban, l => { chan with bans := l }
  | .exception, l => { chan with exceptions := l }
  | .invex, l => { chan with invex := l }

/-- `strncat` into a buffer of `n` bytes. -/
def strncat (n : Nat) (s t : Text) : Text := clip n (s ++ t)

/-- The parameters of a channel's modes in the order of `channel_modes_string`, each with whether
it is shown and with its letter. -/
def Channel.shownParams (chan : Channel) : List (Bool × Char × Text) :=
  [(decide (.k ∈ chan.modes ∧ chan.key ≠ []), 'k', chan.key),
    (decide (.l ∈ chan.modes ∧ 0 < chan.limit), 'l', intDecimal chan.limit),
    (decide (.redirect ∈ chan.modes ∧ chan.redirect ≠ []), 'L', chan.redirect),
    (decide (.flood ∈ chan.modes), 'f', clip 99 (channelFloodParam chan.flood)),
    (decide (.jthrot ∈ chan.modes ∧ 0 < chan.jtJoins), 'j',
      intDecimal chan.jtJoins ++ ':' :: intDecimal chan.jtSecs)]

/-- One parameter goes behind the flags and the arguments so far. -/
def appendParam (s : Text × Text) (p : Bool × Char × Text) : Text × Text :=
  if p.1 then (s.1 ++ [p.2.1], strncat 256 s.2 (' ' :: p.2.2)) else s

/-- `channel_modes_string(chan, out, outsz)`: the flags, then the parameters. -/
def channelModesString (chan : Channel) (outsz : Nat) : Text :=
  let flags := '+' :: (flagLetters.filter fun x => x.2 ∈ chan.modes).map Prod.fst
  let s := chan.shownParams.foldl appendParam (flags, [])
  clip outsz (s.1 ++ s.2)

/-- The letter of a mode. -/
def flagLetter : CMode → Char
  | .n => 'n' | .i => 'i' | .p => 'p' | .t => 't' | .s => 's' | .m => 'm' | .k => 'k' | .l => 'l'
  | .z => 'z' | .r => 'r' | .perm => 'P' | .noctcp => 'C' | .nonotice => 'T' | .stripcolor => 'S'
  | .noinvite => 'V' | .nokick => 'Q' | .nonick => 'N' | .regonly => 'R' | .operonly => 'O'
  | .modreg => 'M' | .nocolor => 'c' | .flood => 'f' | .jthrot => 'j' | .redirect => 'L'
  | .delayjoin => 'D' | .auditorium => 'u' | .censor => 'G' | .noknock => 'K'

theorem mem_flagLetters {c : Char} {b : CMode} (h : channelFlagBit c = some b) :
    (c, b) ∈ flagLetters := by
  have hall : ∀ l : List (Char × CMode), l.lookup c = some b → (c, b) ∈ l := by
    intro l
    induction l with
    | nil => simp
    | cons x l ih =>
      intro hl
      rw [List.lookup_cons] at hl
      split at hl
      · rename_i hx
        simp only [beq_iff_eq] at hx
        simp [hx, ← Option.some.inj hl]
      · exact List.mem_cons_of_mem _ (ih hl)
  exact hall _ h

theorem flagLetter_of_bit {c : Char} {b : CMode} (h : channelFlagBit c = some b) :
    flagLetter b = c := by
  have hall : ∀ x ∈ flagLetters, flagLetter x.2 = x.1 := by decide
  exact hall (c, b) (mem_flagLetters h)

/-! ## 3. Members -/

theorem channelAddMember_frame (c : Channel) (m : Member) :
    (channelAddMember c m).toSettings = c.toSettings ∧
      (channelAddMember c m).created = c.created := by
  unfold channelAddMember
  split <;> exact ⟨rfl, rfl⟩

theorem channelAddMember_ne_nil (c : Channel) (m : Member) :
    (channelAddMember c m).members ≠ [] := by
  unfold channelAddMember
  split
  · rename_i h
    intro hnil
    rw [channelFindMember, hnil] at h
    exact absurd h (by simp)
  · simp

theorem channelFindMember_updateMember (chan : Channel) (uid v : Text) {f : Member → Member}
    (hf : ∀ m, (f m).client = m.client) :
    channelFindMember (chan.updateMember uid f) v =
      if v = uid then (channelFindMember chan v).map f else channelFindMember chan v := by
  have hcomp : ((fun m : Member => m.client == v) ∘ fun m => if m.client = uid then f m else m) =
      fun m => m.client == v := by
    funext m
    simp only [Function.comp_apply]
    split
    · rw [hf]
    · rfl
  rw [channelFindMember, Channel.updateMember, List.find?_map, hcomp]
  have hm : ∀ m, channelFindMember chan v = some m → m.client = v := fun m h => by
    simpa using List.find?_some h
  cases h : channelFindMember chan v with
  | none =>
    rw [channelFindMember] at h
    simp [h]
  | some m =>
    have hc := hm m h
    rw [channelFindMember] at h
    by_cases hv : v = uid
    · rw [if_pos hv, h, Option.map_some, Option.map_some, if_pos (hc.trans hv)]
    · rw [if_neg hv, h, Option.map_some, if_neg (hc ▸ hv)]

/-- A change of one member's rank is seen under that member's UID only. -/
theorem rankOf_updateMember (chan : Channel) (uid v : Text) {f : Member → Member} {g : Rank → Rank}
    (hf : ∀ m, (f m).client = m.client ∧ (f m).rank = g m.rank) :
    (chan.updateMember uid f).rankOf v =
      if v = uid then (chan.rankOf v).map g else chan.rankOf v := by
  rw [Channel.rankOf, channelFindMember_updateMember chan uid v fun m => (hf m).1]
  split
  · simp only [Channel.rankOf, Option.map_map]
    congr 1
    funext m
    exact (hf m).2
  · rfl

theorem rankOf_revealAll (chan : Channel) (v : Text) : chan.revealAll.rankOf v = chan.rankOf v := by
  have hcomp : ((fun m : Member => m.client == v) ∘ fun m : Member => { m with hidden := false }) =
      fun m => m.client == v := rfl
  rw [Channel.rankOf, channelFindMember, Channel.revealAll, List.find?_map, hcomp]
  simp only [Channel.rankOf, channelFindMember, Option.map_map]
  rfl

theorem rankOf_isSome_iff (chan : Channel) (v : Text) :
    (chan.rankOf v).isSome = true ↔ ∃ m ∈ chan.members, m.client = v := by
  simp [Channel.rankOf, channelFindMember, List.find?_isSome]

theorem list_setList (chan : Channel) (k j : ListKind) (l : List Text) :
    (chan.setList k l).list j = if j = k then l else chan.list j := by
  cases k <;> cases j <;> rfl

@[simp] theorem setList_self (chan : Channel) (k : ListKind) : chan.setList k (chan.list k) = chan := by
  cases k <;> rfl

@[simp] theorem setList_setList (chan : Channel) (k : ListKind) (l l' : List Text) :
    (chan.setList k l).setList k l' = chan.setList k l' := by
  cases k <;> rfl

@[simp] theorem modes_setList (chan : Channel) (k : ListKind) (l : List Text) :
    (chan.setList k l).modes = chan.modes := by
  cases k <;> rfl

/-! ## 4. Setting `+f`

`channel_set_flood` works on a copy, and the channel is changed at the end only. So a parameter
that is refused leaves the channel as it was. -/

/-- `channel_set_flood` with its result: the channel is changed at the end only, when the whole
parameter is known to be right. -/
def setFlood (chan : Channel) (param : Text) : Int × Channel :=
  match parseFlood param with
  | none => (-1, chan)
  | some f =>
    let chan' := channelClearFlood chan
    (0, { chan' with modes := insert .flood chan'.modes, flood := f })

theorem channelSetFlood_eq (chan : Channel) (param : Text) :
    channelSetFlood chan param =
      if (setFlood chan param).1 = 0 then some (setFlood chan param).2 else none := by
  unfold channelSetFlood setFlood
  cases parseFlood param with
  | none => rfl
  | some f =>
    have hmodes : insert CMode.flood (chan.modes.erase .flood) = insert CMode.flood chan.modes := by
      ext c
      by_cases hc : c = .flood <;> simp [hc]
    simp [channelClearFlood, hmodes]

/-- **The spec of `+f` is canonical**: what a channel reports is taken by any channel, which then
has the same and reports the same; and a parameter that is refused changes nothing. So the text may
go through bursts, locks and files and need not be kept as it was typed. -/
theorem flood_canonical (chan other : Channel) (param : Text) :
    ((setFlood chan param).1 = 0 ∧ .flood ∈ (setFlood chan param).2.modes ∧
        (setFlood other (channelFloodParam (setFlood chan param).2.flood)).1 = 0 ∧
        (setFlood other (channelFloodParam (setFlood chan param).2.flood)).2.flood =
          (setFlood chan param).2.flood ∧
        .flood ∈ (setFlood other (channelFloodParam (setFlood chan param).2.flood)).2.modes ∧
        channelFloodParam (setFlood other (channelFloodParam (setFlood chan param).2.flood)).2.flood =
          channelFloodParam (setFlood chan param).2.flood) ∨
      (setFlood chan param = (-1, chan)) := by
  cases hf : parseFlood param with
  | none => exact Or.inr (by rw [setFlood, hf])
  | some f =>
    have hagain := parseFlood_floodParam hf
    refine Or.inl ?_
    simp only [setFlood, hf, hagain, Finset.mem_insert_self, and_self]
end SekurIRCd
