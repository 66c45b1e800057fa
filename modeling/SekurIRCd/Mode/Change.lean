/-
# What a mode letter means

Four programs read mode letters: the MODE command, the other servers, the clients and ChanServ.
A `Change` is what they have to agree on: a channel's modes, parameters, lists and ranks are
registers, and a change writes one of them.  `Change.apply` says what it writes, and
`Change.signed` how it is announced.

This is the statement of what the command is for, beside its code.  Section 3 connects the two:
every letter that the command announces makes one change that the channel admits
(`applyLetter_change`), and a whole run makes the changes it announces, in their order
(`modeLoop_changes`).  The other programs are compared with the changes and not with the
command.
-/
import SekurIRCd.Mode.Command

namespace SekurIRCd

open CLib CLib.Signed

/-! ## 1. Changes -/

/-- One change of a channel's modes. `none` clears a parameter; a rank change names its member by
UID and by nick, as the one is what the servers know and the other what is announced. -/
inductive Change
  | flag (on : Bool) (b : CMode)
  | key (v : Option Text)
  | limit (v : Option Int)
  | redirect (v : Option Text)
  | flood (v : Option Flood)
  | jthrot (v : Option (Int × Int))
  | mask (on : Bool) (kind : ListKind) (m : Text)
  | rank (on : Bool) (b : RankBit) (uid nick : Text)
deriving DecidableEq

/-- What the change writes. -/
def Change.apply (chan : Channel) : Change → Channel
  | .flag true b => { chan with modes := insert b chan.modes }
  | .flag false b =>
    let chan := { chan with modes := chan.modes.erase b }
    if b = .delayjoin then chan.revealAll else chan
  | .key (some v) => { chan with key := clip chanKeyLen v, modes := insert .k chan.modes }
  | .key none => { chan with key := [], modes := chan.modes.erase .k }
  | .limit (some n) => { chan with limit := n, modes := insert .l chan.modes }
  | .limit none => { chan with limit := 0, modes := chan.modes.erase .l }
  | .redirect (some t) =>
    { chan with redirect := clip chanNameLen t, modes := insert .redirect chan.modes }
  | .redirect none => { chan with redirect := [], modes := chan.modes.erase .redirect }
  | .flood (some f) => { chan with flood := f, modes := insert .flood chan.modes }
  | .flood none => { chan with flood := Flood.clear, modes := chan.modes.erase .flood }
  | .jthrot (some (n, secs)) =>
    { chan with jtJoins := n, jtSecs := secs, modes := insert .jthrot chan.modes }
  | .jthrot none => { chan with jtJoins := 0, jtSecs := 0, modes := chan.modes.erase .jthrot }
  | .mask true kind m => chan.setList kind (chan.list kind ++ [clip 256 m])
  | .mask false kind m => chan.setList kind ((chan.list kind).eraseP (caseEq · m))
  | .rank on b uid _ => chan.updateMember uid (Member.setRank on b)

/-- The letter of a rank. -/
def rankLetter : RankBit → Char
  | .voice => 'v' | .halfop => 'h' | .op => 'o' | .admin => 'a' | .owner => 'q'

/-- The sign, the letter and the parameter a change is announced with.  `-k` has none. -/
def Change.signed : Change → Signed Text
  | .flag on b => ⟨on, flagLetter b, none⟩
  | .key v => ⟨v.isSome, 'k', v.map (clip 256)⟩
  | .limit v => ⟨v.isSome, 'l', v.map fun n => clip 256 (intDecimal n)⟩
  | .redirect v => ⟨v.isSome, 'L', v.map (clip 256)⟩
  | .flood v => ⟨v.isSome, 'f', v.map fun f => clip 256 (channelFloodParam f)⟩
  | .jthrot v =>
    ⟨v.isSome, 'j', v.map fun p => clip 256 (intDecimal p.1 ++ ':' :: intDecimal p.2)⟩
  | .mask on kind m => ⟨on, kind.letter, some (clip 256 m)⟩
  | .rank on b _ nick => ⟨on, rankLetter b, some (clip 256 nick)⟩

/-! ## 2. Which changes a channel admits

A change that is already so is not admitted, so an announcement says nothing that was not done. -/

/-- **The changes the command makes**: a parameter that passed its check, and a flag, a mask or a
rank that is not already so. A parameter may be set to what it is, and is then announced again. -/
def Change.Admitted (users : List Client) (chan : Channel) : Change → Prop
  | .flag on b => channelFlagBit (flagLetter b) = some b ∧ on ≠ decide (b ∈ chan.modes)
  | .key (some v) => ' ' ∉ v
  | .key none => .k ∈ chan.modes
  | .limit (some n) => 1 ≤ n ∧ n ≤ intMax
  | .limit none => .l ∈ chan.modes
  | .redirect (some t) => ircValidChannel t 50 = true
  | .redirect none => .redirect ∈ chan.modes
  | .flood (some f) => Parsed f
  | .flood none => .flood ∈ chan.modes
  | .jthrot (some p) => (1 ≤ p.1 ∧ p.1 ≤ 100) ∧ 1 ≤ p.2 ∧ p.2 ≤ 600
  | .jthrot none => .jthrot ∈ chan.modes
  | .mask on kind m => (∃ a, ' ' ∉ a ∧ m = channelNormalizeMask a) ∧
      if on then masklistAdd (chan.list kind) m = some (chan.list kind ++ [clip 256 m])
      else masklistDel (chan.list kind) m = some ((chan.list kind).eraseP (caseEq · m))
  | .rank on b uid nick => (∃ u ∈ users, u.uid = uid ∧ u.nick = nick) ∧
      ∃ m, channelFindMember chan uid = some m ∧ on ≠ decide (b ∈ m.rank.bits)

/-- A list of changes, each admitted where it applies. -/
def AllAdmitted (users : List Client) : Channel → List Change → Prop
  | _, [] => True
  | chan, ch :: chs => ch.Admitted users chan ∧ AllAdmitted users (ch.apply chan) chs

/-- A change leaves the channel's identity alone. -/
theorem apply_name (chan : Channel) (ch : Change) : (ch.apply chan).name = chan.name := by
  cases ch with
  | flag on b =>
    cases on with
    | true => rfl
    | false =>
      simp only [Change.apply]
      split <;> rfl
  | key v => cases v <;> rfl
  | limit v => cases v <;> rfl
  | redirect v => cases v <;> rfl
  | flood v => cases v <;> rfl
  | jthrot v => cases v <;> rfl
  | mask on kind m => cases on <;> cases kind <;> rfl
  | rank on b uid nick => rfl

theorem foldl_apply_name (chs : List Change) (chan : Channel) :
    (chs.foldl Change.apply chan).name = chan.name := by
  induction chs generalizing chan with
  | nil => rfl
  | cons ch chs ih => rw [List.foldl_cons, ih, apply_name]

theorem masklistAdd_eq {ml ml' : List Text} {mask : Text} (h : masklistAdd ml mask = some ml') :
    ml' = ml ++ [clip 256 mask] := by
  unfold masklistAdd at h
  split at h
  · exact absurd h (by simp)
  · split at h
    · exact absurd h (by simp)
    · exact (Option.some.inj h).symm

theorem masklistDel_eq {ml ml' : List Text} {mask : Text} (h : masklistDel ml mask = some ml') :
    ml' = ml.eraseP (caseEq · mask) := by
  unfold masklistDel at h
  split at h
  · exact (Option.some.inj h).symm
  · exact absurd h (by simp)

/-! ## 3. The command makes changes

Branch by branch: each of them either leaves the channel and is silent, or makes one change and is
announced as that. -/

/-- What a letter did, as a change: nothing and silence, or one admitted change announced as
such. -/
def Letter.Makes (users : List Client) (chan : Channel) (sign : Bool) (c : Char) (r : Letter) :
    Prop :=
  (r.emit = none → r.chan = chan) ∧
    ∀ p, r.emit = some p →
      ∃ ch : Change, ch.Admitted users chan ∧ ch.apply chan = r.chan ∧ ch.signed = ⟨sign, c, p⟩

section Makes

variable {users : List Client} {chan : Channel} {sign : Bool} {c : Char} {args : List Text}

theorem makes_skip : (Letter.skip chan args).Makes users chan sign c :=
  ⟨fun _ => rfl, fun p hp => absurd hp (by simp [Letter.skip])⟩

theorem makes_refuse (r : Reply) : (Letter.refuse chan args r).Makes users chan sign c :=
  ⟨fun _ => rfl, fun p hp => absurd hp (by simp [Letter.refuse])⟩

theorem makes_done {chan' : Channel} {p : Option Text} (ch : Change)
    (ha : ch.Admitted users chan) (hc : ch.apply chan = chan')
    (hs : ch.signed = ⟨sign, c, p⟩) : (Letter.done chan' args p).Makes users chan sign c := by
  refine ⟨fun h => absurd h (by simp [Letter.done]), fun q hq => ?_⟩
  obtain rfl := Option.some.inj hq
  exact ⟨ch, ha, hc, hs⟩

theorem applyFlag_makes {b : CMode} (hb : channelFlagBit c = some b) :
    (applyFlag chan sign b args).Makes users chan sign c := by
  have hl : flagLetter b = c := flagLetter_of_bit hb
  unfold applyFlag
  by_cases hso : sign = decide (b ∈ chan.modes)
  · rw [if_pos hso]
    exact makes_skip
  · rw [if_neg hso]
    have hadm : (Change.flag sign b).Admitted users chan := ⟨by rw [hl]; exact hb, hso⟩
    cases sign with
    | true => exact makes_done _ hadm rfl (by rw [Change.signed, hl])
    | false => exact makes_done _ hadm rfl (by rw [Change.signed, hl])

theorem applyRedirect_makes : (applyRedirect chan sign args).Makes users chan sign 'L' := by
  unfold applyRedirect
  cases sign with
  | true =>
    rw [if_pos rfl]
    cases args with
    | nil => exact makes_skip
    | cons t args =>
      simp only
      split
      · exact makes_refuse _
      · rename_i h
        rw [not_or] at h
        exact makes_done (.redirect (some t)) (by simpa [Change.Admitted] using h.1) rfl rfl
  | false =>
    rw [if_neg (by simp)]
    by_cases hm : .redirect ∈ chan.modes
    · rw [if_neg (by simpa using hm)]
      exact makes_done (.redirect none) hm rfl rfl
    · rw [if_pos hm]
      exact makes_skip

theorem applyFlood_makes : (applyFlood chan sign args).Makes users chan sign 'f' := by
  unfold applyFlood
  cases sign with
  | true =>
    rw [if_pos rfl]
    cases args with
    | nil => exact makes_skip
    | cons a args =>
      simp only
      split
      · exact makes_skip
      · rename_i chan' h
        obtain ⟨f, hf, rfl⟩ := Option.map_eq_some_iff.mp h
        exact makes_done (.flood (some f)) (parseFlood_parsed hf) rfl rfl
  | false =>
    rw [if_neg (by simp)]
    by_cases hm : .flood ∈ chan.modes
    · rw [if_neg (by simpa using hm)]
      exact makes_done (.flood none) hm rfl rfl
    · rw [if_pos hm]
      exact makes_skip

theorem applyJthrot_makes : (applyJthrot chan sign args).Makes users chan sign 'j' := by
  unfold applyJthrot
  cases sign with
  | true =>
    rw [if_pos rfl]
    cases args with
    | nil => exact makes_skip
    | cons a args =>
      simp only
      split
      · exact makes_skip
      · rename_i n secs h
        exact makes_done (.jthrot (some (n, secs))) (parseRate_range h) rfl rfl
  | false =>
    rw [if_neg (by simp)]
    by_cases hm : .jthrot ∈ chan.modes
    · rw [if_neg (by simpa using hm)]
      exact makes_done (.jthrot none) hm rfl rfl
    · rw [if_pos hm]
      exact makes_skip

theorem applyKey_makes : (applyKey chan sign args).Makes users chan sign 'k' := by
  unfold applyKey
  cases sign with
  | true =>
    rw [if_pos rfl]
    cases args with
    | nil => exact makes_skip
    | cons a args =>
      simp only
      split
      · exact makes_skip
      · rename_i h
        exact makes_done (.key (some a)) h rfl rfl
  | false =>
    rw [if_neg (by simp)]
    by_cases hm : .k ∈ chan.modes
    · rw [if_neg (by simpa using hm)]
      exact makes_done (.key none) hm rfl rfl
    · rw [if_pos hm]
      exact makes_skip

theorem applyLimit_makes : (applyLimit chan sign args).Makes users chan sign 'l' := by
  unfold applyLimit
  cases sign with
  | true =>
    rw [if_pos rfl]
    cases args with
    | nil => exact makes_skip
    | cons a args =>
      simp only
      split
      · rename_i lim _
        split
        · exact makes_skip
        · rename_i h
          exact makes_done (.limit (some lim)) (by simp only [Change.Admitted]; omega) rfl rfl
      · exact makes_skip
  | false =>
    rw [if_neg (by simp)]
    by_cases hm : .l ∈ chan.modes
    · rw [if_neg (by simpa using hm)]
      exact makes_done (.limit none) hm rfl rfl
    · rw [if_pos hm]
      exact makes_skip

theorem rankLetter_of_bit {c : Char} {b : RankBit} (h : rankBit c = some b) :
    rankLetter b = c := by
  unfold rankBit at h
  split at h
  · rename_i hc; rw [← Option.some.inj h, hc]; rfl
  · split at h
    · rename_i hc; rw [← Option.some.inj h, hc]; rfl
    · split at h
      · rename_i hc; rw [← Option.some.inj h, hc]; rfl
      · split at h
        · rename_i hc; rw [← Option.some.inj h, hc]; rfl
        · split at h
          · rename_i hc; rw [← Option.some.inj h, hc]; rfl
          · exact absurd h (by simp)

theorem applyRank_makes {srv : Server} {cl : Client} {b : RankBit} (hb : rankBit c = some b) :
    (applyRank srv cl chan sign b args).Makes srv.users.clients chan sign c := by
  unfold applyRank
  cases args with
  | nil => exact makes_skip
  | cons a args =>
    simp only
    split
    · exact makes_refuse _
    · rename_i target htarget
      split
      · exact makes_refuse _
      · rename_i tm htm
        split
        · exact makes_refuse _
        · split
          · exact makes_refuse _
          · split
            · exact makes_skip
            · rename_i hso
              refine makes_done (.rank sign b target.uid target.nick)
                ⟨⟨target, (serverFindUser_some htarget).1, rfl, rfl⟩, tm, htm, hso⟩ rfl ?_
              rw [Change.signed, rankLetter_of_bit hb]

theorem listLetter_of_kind {c : Char} {kind : ListKind} (h : listKind c = some kind) :
    kind.letter = c := by
  unfold listKind at h
  split at h
  · rename_i hc; rw [← Option.some.inj h, hc]; rfl
  · split at h
    · rename_i hc; rw [← Option.some.inj h, hc]; rfl
    · split at h
      · rename_i hc; rw [← Option.some.inj h, hc]; rfl
      · exact absurd h (by simp)

theorem applyList_makes {kind : ListKind} (hk : listKind c = some kind) :
    (applyList chan sign kind args).Makes users chan sign c := by
  unfold applyList
  cases args with
  | nil => exact makes_skip
  | cons a args =>
    simp only
    by_cases hsp : ' ' ∈ a
    · rw [if_pos hsp]
      exact makes_skip
    · rw [if_neg hsp]
      have hl := listLetter_of_kind hk
      cases sign with
      | true =>
        rw [if_pos rfl]
        split
        · exact makes_refuse _
        · split
          · exact makes_skip
          · rename_i l hadd
            obtain rfl := masklistAdd_eq hadd
            exact makes_done (.mask true kind (channelNormalizeMask a))
              ⟨⟨a, hsp, rfl⟩, by simpa using hadd⟩ rfl (by rw [Change.signed, hl])
      | false =>
        rw [if_neg (by simp)]
        split
        · exact makes_skip
        · rename_i l hdel
          obtain rfl := masklistDel_eq hdel
          exact makes_done (.mask false kind (channelNormalizeMask a))
            ⟨⟨a, hsp, rfl⟩, by simpa using hdel⟩ rfl (by rw [Change.signed, hl])

end Makes

/-- **Every letter the command announces is one admitted change**, and a letter that is not
announced changes nothing. Later modules reason about changes and do not come back to
the branches. -/
theorem applyLetter_change (srv : Server) (cl : Client) (full : Bool) (chan : Channel)
    (sign : Bool) (c : Char) (args : List Text) :
    (applyLetter srv cl full chan sign c args).Makes srv.users.clients chan sign c := by
  unfold applyLetter
  split
  · exact makes_refuse _
  · split
    · exact makes_refuse _
    · split
      · exact makes_refuse _
      · split
        · rename_i b hb
          exact applyFlag_makes hb
        · split
          · rename_i h; rw [h]; exact applyRedirect_makes
          · split
            · rename_i h; rw [h]; exact applyFlood_makes
            · split
              · rename_i h; rw [h]; exact applyJthrot_makes
              · split
                · rename_i h; rw [h]; exact applyKey_makes
                · split
                  · rename_i h; rw [h]; exact applyLimit_makes
                  · split
                    · rename_i b hb
                      exact applyRank_makes hb
                    · split
                      · rename_i kind hk
                        exact applyList_makes hk
                      · exact makes_refuse _

/-- **A run makes the changes it announces, in order**, and nothing else. -/
theorem modeLoop_changes (srv : Server) (cl : Client) (full : Bool) : ∀ (cs : Text) (s : ModeRun),
    ∃ chs : List Change, chs.map Change.signed = announcedFrom srv cl full cs s ∧
      AllAdmitted srv.users.clients s.chan chs ∧
      chs.foldl Change.apply s.chan = (modeLoop srv cl full cs s).chan
  | [], s => ⟨[], rfl, trivial, rfl⟩
  | c :: cs, s => by
    rw [announcedFrom, modeLoop]
    by_cases hf : s.full
    · rw [if_pos hf, if_pos hf]
      exact ⟨[], rfl, trivial, rfl⟩
    · rw [if_neg hf, if_neg hf]
      obtain ⟨chs, hsig, hadm, hfold⟩ := modeLoop_changes srv cl full cs (modeChar srv cl full s c)
      by_cases hp : c = '+'
      · rw [if_pos (Or.inl hp)]
        simp only [modeChar, if_pos hp] at hsig hadm hfold ⊢
        exact ⟨chs, hsig, hadm, hfold⟩
      · by_cases hm : c = '-'
        · rw [if_pos (Or.inr hm)]
          simp only [modeChar, if_neg hp, if_pos hm] at hsig hadm hfold ⊢
          exact ⟨chs, hsig, hadm, hfold⟩
        · rw [if_neg (by simp [hp, hm])]
          have hl : IsLetter c := ⟨hp, hm⟩
          have hmk := applyLetter_change srv cl full s.chan s.sign c s.args
          cases he : (applyLetter srv cl full s.chan s.sign c s.args).emit with
          | none =>
            have hc := hmk.1 he
            rw [modeChar_of_emit_none hl he] at hsig hadm hfold ⊢
            simp only [hc] at hsig hadm hfold ⊢
            exact ⟨chs, hsig, hadm, hfold⟩
          | some p =>
            obtain ⟨ch, ha, hc, hs⟩ := hmk.2 p he
            rw [modeChar_of_emit_some hl he] at hsig hadm hfold ⊢
            simp only [← hc] at hsig hadm hfold ⊢
            exact ⟨ch :: chs, by rw [List.map_cons, hs, hsig], ⟨ha, hadm⟩, hfold⟩

/-- The command makes the changes it announces. -/
theorem cmdApplyChannelMode_changes (srv : Server) (cl : Client) (chan : Channel) (ms : Text)
    (args : List Text) (full : Bool) :
    ∃ chs : List Change, chs.map Change.signed = announced srv cl chan ms args full ∧
      AllAdmitted srv.users.clients chan chs ∧
      chs.foldl Change.apply chan = (cmdApplyChannelMode srv cl chan ms args full).chan := by
  obtain ⟨chs, h1, h2, h3⟩ := modeLoop_changes srv cl full ms (ModeRun.start chan args)
  exact ⟨chs, h1, h2, h3.trans (cmdApplyChannelMode_chan srv cl chan ms args full).symm⟩

theorem cmdApplyChannelMode_name (srv : Server) (cl : Client) (chan : Channel) (ms : Text)
    (args : List Text) (full : Bool) :
    (cmdApplyChannelMode srv cl chan ms args full).chan.name = chan.name := by
  obtain ⟨chs, -, -, h⟩ := cmdApplyChannelMode_changes srv cl chan ms args full
  rw [← h, foldl_apply_name]

/-! ## 4. How changes are written

One table says which letters take an argument, and three programs use it. What it says is compared
here with what a change is announced with. -/

/-- Which letters take an argument, for `netsync_chan_mode`, `handle_mode` and ChanServ:
`strchr("kbeIohvqa", c) || (sign == '+' && strchr("lfjL", c))`. -/
def takesArg (add : Bool) (c : Char) : Bool :=
  decide (c ∈ "kbeIohvqa".toList) || (add && decide (c ∈ "lfjL".toList))

/-- The letters of all modes. -/
def modeLetters : Text := "nipstmzrPCTSVQNROMcDuGKklLfjbeIvhoaq".toList

/-- A removal of the key: the one change that is announced without the argument its letter is
said to take. -/
def IsUnkey (t : Signed Text) : Prop := t.letter = 'k' ∧ t.add = false

instance (t : Signed Text) : Decidable (IsUnkey t) := inferInstanceAs (Decidable (_ ∧ _))

theorem Change.Admitted.letter_mem {users : List Client} {chan : Channel} {ch : Change}
    (h : ch.Admitted users chan) : ch.signed.letter ∈ modeLetters := by
  cases ch with
  | flag on b =>
    have hall : ∀ x ∈ flagLetters, x.1 ∈ modeLetters := by decide
    exact hall _ (mem_flagLetters h.1)
  | key v => exact (by decide : 'k' ∈ modeLetters)
  | limit v => exact (by decide : 'l' ∈ modeLetters)
  | redirect v => exact (by decide : 'L' ∈ modeLetters)
  | flood v => exact (by decide : 'f' ∈ modeLetters)
  | jthrot v => exact (by decide : 'j' ∈ modeLetters)
  | mask on kind m =>
    have hall : ∀ k ∈ [ListKind.ban, .exception, .invex], k.letter ∈ modeLetters := by decide
    exact hall kind (by cases kind <;> simp)
  | rank on b uid nick =>
    have hall : ∀ b ∈ [RankBit.voice, .halfop, .op, .admin, .owner], rankLetter b ∈ modeLetters := by
      decide
    exact hall b (by cases b <;> simp)

/-- **The table is right about every change but `-k`.** -/
theorem Change.Admitted.takes {users : List Client} {chan : Channel} {ch : Change}
    (h : ch.Admitted users chan) :
    ch.signed.arg.isSome = takesArg ch.signed.add ch.signed.letter ∨
      (IsUnkey ch.signed ∧ ch.signed.arg = none) := by
  cases ch with
  | flag on b =>
    have hall : ∀ x ∈ flagLetters, ∀ on, takesArg on x.1 = false := by decide
    exact Or.inl (hall _ (mem_flagLetters h.1) on).symm
  | key v =>
    cases v with
    | none => exact Or.inr ⟨⟨rfl, rfl⟩, rfl⟩
    | some v => exact Or.inl rfl
  | limit v => cases v <;> exact Or.inl rfl
  | redirect v => cases v <;> exact Or.inl rfl
  | flood v => cases v <;> exact Or.inl rfl
  | jthrot v => cases v <;> exact Or.inl rfl
  | mask on kind m => cases on <;> cases kind <;> exact Or.inl rfl
  | rank on b uid nick => cases on <;> cases b <;> exact Or.inl rfl

theorem Change.unkey_arg {ch : Change} (h : IsUnkey ch.signed) : ch.signed.arg = none := by
  cases ch with
  | flag on b => rfl
  | key v =>
    cases v with
    | none => rfl
    | some v => exact absurd h.2 (by simp [Change.signed])
  | limit v => exact absurd h.1 (by simp [Change.signed])
  | redirect v => exact absurd h.1 (by simp [Change.signed])
  | flood v => exact absurd h.1 (by simp [Change.signed])
  | jthrot v => exact absurd h.1 (by simp [Change.signed])
  | mask on kind m => cases kind <;> exact absurd h.1 (by simp [Change.signed, ListKind.letter])
  | rank on b uid nick => cases b <;> exact absurd h.1 (by simp [Change.signed, rankLetter])

/-- Whatever holds of every admitted change holds of every letter that was announced. -/
theorem announced_forall {srv : Server} {cl : Client} {chan : Channel} {ms : Text}
    {args : List Text} {full : Bool} {p : Signed Text → Prop}
    (h : ∀ c ch, Change.Admitted srv.users.clients c ch → p ch.signed) :
    ∀ t ∈ announced srv cl chan ms args full, p t := by
  obtain ⟨chs, hsig, hadm, -⟩ := cmdApplyChannelMode_changes srv cl chan ms args full
  rw [← hsig]
  clear hsig
  induction chs generalizing chan with
  | nil => simp
  | cons ch chs ih =>
    intro t ht
    rcases List.mem_cons.mp ht with rfl | ht
    · exact h chan ch hadm.1
    · exact ih hadm.2 t ht

theorem announced_letter {srv : Server} {cl : Client} {chan : Channel} {ms : Text}
    {args : List Text} {full : Bool} :
    ∀ t ∈ announced srv cl chan ms args full, t.letter ∈ modeLetters :=
  announced_forall fun _ _ h => h.letter_mem

theorem isLetter_of_mem {c : Char} (h : c ∈ modeLetters) : IsLetter c := by
  have hall : ∀ c ∈ modeLetters, IsLetter c := by decide
  exact hall c h

/-- The flags of an announcement travel as they are. -/
theorem plain_flags {srv : Server} {cl : Client} {chan : Channel} {ms : Text}
    {args : List Text} {full : Bool} (h : announced srv cl chan ms args full ≠ []) :
    Plain (encode none (announced srv cl chan ms args full)) := by
  have hmem : ∀ c ∈ encode none (announced srv cl chan ms args full),
      c ∈ '+' :: '-' :: modeLetters := by
    intro c hc
    rcases mem_encode hc with rfl | rfl | ⟨t, ht, rfl⟩
    · simp
    · simp
    · exact List.mem_cons_of_mem _ (List.mem_cons_of_mem _ (announced_letter t ht))
  have hno : ∀ d, d ∉ '+' :: '-' :: modeLetters →
      d ∉ encode none (announced srv cl chan ms args full) := fun d hd hm => hd (hmem d hm)
  have hlen := announced_flags_le srv cl chan ms args full
  have htwo := two_le_encode_none h
  refine ⟨?_, ?_, hno ' ' (by decide), hno '\r' (by decide), hno '\n' (by decide), by omega⟩
  · intro hnil
    rw [hnil] at htwo
    exact absurd htwo (by decide)
  · rintro c hc rfl
    exact absurd (hmem ':' (List.mem_of_mem_head? hc)) (by decide)

theorem plain_name (chan : Channel) : Plain chan.name := plain_of_valid_channel chan.nameValid

/-! ## 5. A channel to look at -/

def demoOp : Client :=
  ⟨"alice".toList, "alice".toList, "al".toList, "host.a".toList, "1AA000001".toList,
    "1AA".toList, false, false, false, true⟩

def demoGuest : Client :=
  ⟨"bob".toList, "bob".toList, "bo".toList, "host.b".toList, "1AA000002".toList,
    "1AA".toList, false, false, false, true⟩

def demoService : Client :=
  ⟨"ChanServ".toList, "chanserv".toList, "cs".toList, "services".toList, "1AA000003".toList,
    "1AA".toList, false, true, false, true⟩

/-- Two users and a service. -/
def demoUsers : Users := ⟨[demoOp, demoGuest, demoService], by decide⟩

def demoServer : Server := ⟨"1AA".toList, "irc.a".toList, [], demoUsers, "nt".toList⟩

theorem demoName_valid : ircValidChannel "#c".toList 50 = true := by decide

theorem demoUid_ne_nil : "1AA000001".toList ≠ [] := by decide

theorem demoOp_closed : RankBit.owner ∈ ({.op} : Finset RankBit) ∨ RankBit.admin ∈ ({.op} : Finset RankBit) →
    RankBit.op ∈ ({.op} : Finset RankBit) := by decide

/-- Alice is the channel's op, Bob a plain member, and the key is `x`. -/
def demoChan : Channel :=
  { Settings.none with
    modes := {.n, .k}
    key := "x".toList
    name := "#c".toList, nameValid := demoName_valid, topic := [], topicSetter := [], topicTime := 0
    created := 100
    members := [⟨"1AA000001".toList, demoUid_ne_nil, ⟨{.op}, demoOp_closed⟩, false⟩,
      ⟨"1AA000002".toList, by decide, Rank.none, false⟩] }

end SekurIRCd
