/-
# The buffers of the mode loops

Three loops walk a string of mode letters and write what they make of it into arrays on the stack:
`cmd_apply_channel_mode` into `outflags[64]` and `outparams[16]`, `handle_mode` into `outflags[64]`
and `outparams[8]`, `netsync_chan_mode` into `p[14]`.  Here each write is checked against its array.
None is ever outside, and the loops do what they do in `Mode/Command.lean` and `Mode/Wire.lean`:
the one check at their head leaves room for a sign, a letter, a parameter and the final NUL.

What was written is to be read back: each letter that takes a parameter has its own at its place
(`Placed`).  Here the loops differ, and each has its own way to fail (`mode_buffers_iff`): the
command writes `-k` without a parameter, `handle_mode` writes `+l` and `+L` that found none, and
`netsync_chan_mode` has none to give when it was handed too few.
-/
import SekurIRCd.Mode.Wire

namespace SekurIRCd

open CLib CLib.Signed

/-! ## 1. Checked writes

An array is the list of what has been written to it, and a write behind its end is `none`, which
the whole loop then is. -/

section Writes

variable {α : Type*}

/-- `buf[n++] = x` in an array of `cap` places; `none` is a write behind its end. -/
def put (cap : Nat) (buf : List α) (x : α) : Option (List α) :=
  if buf.length < cap then some (buf ++ [x]) else none

/-- The sign of a letter, written where it changes. -/
def putSign (cap : Nat) (flags : Text) (cursign : Option Bool) (sign : Bool) : Option Text :=
  if cursign = some sign then some flags else put cap flags (signChar sign)

/-- The parameter of a letter, if it has one. -/
def putParam (cap : Nat) (params : List α) : Option α → Option (List α)
  | none => some params
  | some a => put cap params a

/-- The final NUL of the flags. -/
def closed (cap : Nat) (flags : Text) : Prop := (put cap flags '\x00').isSome = true

theorem put_of_lt {cap : Nat} {buf : List α} (h : buf.length < cap) (x : α) :
    put cap buf x = some (buf ++ [x]) := if_pos h

theorem putParam_of_lt {cap : Nat} {params : List α} (h : params.length < cap) (p : Option α) :
    putParam cap params p = some (params ++ p.toList) := by
  cases p with
  | none => rw [putParam, Option.toList_none, List.append_nil]
  | some a => exact put_of_lt h a

/-- Two free places are enough for a sign and a letter. -/
theorem putSign_put_of_lt {cap : Nat} {flags : Text} (h : flags.length + 2 ≤ cap)
    (cursign : Option Bool) (t : Signed Text) :
    (putSign cap flags cursign t.add >>= fun flags => put cap flags t.letter) =
      some (flags ++ encodeOne cursign t) := by
  unfold putSign encodeOne
  split
  · exact put_of_lt (by omega) _
  · rw [put_of_lt (by omega), Option.bind_eq_bind, Option.bind_some,
      put_of_lt (by rw [List.length_append, List.length_singleton]; omega), List.append_assoc]

theorem closed_of_lt {cap : Nat} {flags : Text} (h : flags.length < cap) : closed cap flags := by
  rw [closed, put_of_lt h]
  rfl

end Writes

/-! ## 2. `cmd_apply_channel_mode`

The loop with its writes checked is the loop: one check at its head has made sure of the room. `-k`
is the one letter that is written without its parameter. -/

section Command

variable (srv : Server) (cl : Client) (full : Bool)

/-- One pass of the loop body, with its writes checked. -/
def modeCharChecked (s : ModeRun) (c : Char) : Option ModeRun :=
  if c = '+' then some { s with sign := true }
  else if c = '-' then some { s with sign := false }
  else
    let r := applyLetter srv cl full s.chan s.sign c s.args
    let s := { s with chan := r.chan, args := r.args, replies := s.replies ++ r.replies }
    match r.emit with
    | none => some s
    | some p => do
      let flags ← putSign 64 s.outflags s.cursign s.sign >>= fun flags => put 64 flags c
      let params ← putParam 16 s.outparams p
      some { s with outflags := flags, cursign := some s.sign, outparams := params }

def modeLoopChecked : Text → ModeRun → Option ModeRun
  | [], s => some s
  | c :: cs, s => if s.full then some s else modeCharChecked srv cl full s c >>= modeLoopChecked cs

/-- The `-k` branch is taken on a channel with a key. -/
def Unkeys : Text → ModeRun → Prop
  | [], _ => False
  | c :: cs, s =>
    ¬ s.full ∧ ((c = 'k' ∧ s.sign = false ∧ full = true ∧ .k ∈ s.chan.modes) ∨
      Unkeys cs (modeChar srv cl full s c))

variable {srv cl full}

theorem modeCharChecked_eq {s : ModeRun} (h : ¬ s.full) (c : Char) :
    modeCharChecked srv cl full s c = some (modeChar srv cl full s c) := by
  simp only [ModeRun.full, not_or, maxModeParams] at h
  unfold modeCharChecked modeChar
  split
  · rfl
  · split
    · rfl
    · simp only
      cases (applyLetter srv cl full s.chan s.sign c s.args).emit with
      | none => rfl
      | some p =>
        have hflags := @putSign_put_of_lt 64 s.outflags (by omega) s.cursign ⟨s.sign, c, p⟩
        simp only at hflags ⊢
        rw [hflags, putParam_of_lt (by omega)]
        rfl

theorem modeLoopChecked_eq : ∀ (cs : Text) (s : ModeRun),
    modeLoopChecked srv cl full cs s = some (modeLoop srv cl full cs s)
  | [], _ => rfl
  | c :: cs, s => by
    rw [modeLoopChecked, modeLoop]
    split
    · rfl
    · rename_i hfull
      rw [modeCharChecked_eq hfull, Option.bind_eq_bind, Option.bind_some]
      exact modeLoopChecked_eq cs _

/-- The only letter that announces `-k` is the branch itself. -/
theorem emit_unkey {chan : Channel} {sign : Bool} {c : Char} {args : List Text} :
    ((applyLetter srv cl full chan sign c args).emit.isSome = true ∧ c = 'k' ∧ sign = false) ↔
      (c = 'k' ∧ sign = false ∧ full = true ∧ .k ∈ chan.modes) := by
  constructor
  · rintro ⟨h, rfl, rfl⟩
    refine ⟨rfl, rfl, ?_⟩
    cases full with
    | false => exact absurd h (by simp [applyLetter, Letter.refuse])
    | true =>
      refine ⟨rfl, ?_⟩
      by_contra hk
      have hflag : channelFlagBit 'k' = none := by decide
      simp [applyLetter, hflag, applyKey, hk, Letter.skip] at h
  · rintro ⟨rfl, rfl, rfl, hk⟩
    have hflag : channelFlagBit 'k' = none := by decide
    refine ⟨?_, rfl, rfl⟩
    simp [applyLetter, hflag, applyKey, hk, Letter.done]

/-- A removed key is announced exactly when the branch is taken. -/
theorem unkeys_iff : ∀ (cs : Text) (s : ModeRun),
    Unkeys srv cl full cs s ↔ ∃ t ∈ announcedFrom srv cl full cs s, IsUnkey t
  | [], _ => by simp [Unkeys, announcedFrom]
  | c :: cs, s => by
    have ih := unkeys_iff cs (modeChar srv cl full s c)
    rw [Unkeys, announcedFrom]
    by_cases hfull : s.full
    · simp [hfull]
    · rw [if_neg hfull, ih]
      by_cases hsign : c = '+' ∨ c = '-'
      · have hk : c ≠ 'k' := by rintro rfl; exact absurd hsign (by decide)
        simp [hfull, hk, if_pos hsign]
      · rw [if_neg hsign, ← @emit_unkey srv cl full s.chan s.sign c s.args]
        cases (applyLetter srv cl full s.chan s.sign c s.args).emit with
        | none => simp [hfull]
        | some p => simp [hfull, IsUnkey]

end Command

/-! ## 3. `handle_mode`

The receiver writes what it passes on, and it passes on a limit also if it found no argument for
it. -/

section Receive

variable (users : List Client)

/-- A letter, with its writes checked. -/
def recvLetterChecked (s : ModeRecv) (c : Char) : Option ModeRecv :=
  let arg := if takesArg s.sign c then s.args.head? else none
  let r := remoteLetter users s.chan s.sign c arg
  let s := { s with chan := r.1, args := if takesArg s.sign c then s.args.tail else s.args }
  match r.2 with
  | none => some s
  | some p => do
    let flags ← putSign 64 s.outflags s.cursign s.sign >>= fun flags => put 64 flags c
    let params ← putParam 8 s.outparams (p.map (clip 260))
    some { s with outflags := flags, cursign := some s.sign, outparams := params }

def recvLoopChecked : Text → ModeRecv → Option ModeRecv
  | [], s => some s
  | c :: cs, s =>
    if s.full then some s
    else if c = '+' then recvLoopChecked cs { s with sign := true }
    else if c = '-' then recvLoopChecked cs { s with sign := false }
    else recvLetterChecked users s c >>= recvLoopChecked cs

/-- What the loop passes on to the local members, letter by letter. -/
def passedOn : Text → ModeRecv → List (Signed Text)
  | [], _ => []
  | c :: cs, s =>
    if s.full then []
    else
      let rest := passedOn cs (recvChar users s c)
      if c = '+' ∨ c = '-' then rest
      else
        let arg := if takesArg s.sign c then s.args.head? else none
        match (remoteLetter users s.chan s.sign c arg).2 with
        | some p => ⟨s.sign, c, p.map (clip 260)⟩ :: rest
        | none => rest

/-- A limit or a redirect target is set, and there is no argument left for it. This is asked at the
moment the letter is reached. -/
def Starves : Text → ModeRecv → Prop
  | [], _ => False
  | c :: cs, s =>
    ¬ s.full ∧ ((s.sign = true ∧ (c = 'l' ∨ c = 'L') ∧ s.args = []) ∨
      Starves cs (recvChar users s c))

variable {users}

theorem recvLetterChecked_eq {s : ModeRecv} (h : ¬ s.full) (c : Char) :
    recvLetterChecked users s c = some (recvLetter users s c) := by
  simp only [ModeRecv.full, not_or] at h
  unfold recvLetterChecked recvLetter
  simp only
  cases (remoteLetter users s.chan s.sign c
    (if takesArg s.sign c then s.args.head? else none)).2 with
  | none => rfl
  | some p =>
    have hflags := @putSign_put_of_lt 64 s.outflags (by omega) s.cursign ⟨s.sign, c, none⟩
    simp only at hflags ⊢
    rw [hflags, putParam_of_lt (by omega), encodeOne, ← List.append_assoc]
    rfl

theorem recvLoopChecked_eq : ∀ (cs : Text) (s : ModeRecv),
    recvLoopChecked users cs s = some (recvLoop users cs s)
  | [], _ => rfl
  | c :: cs, s => by
    rw [recvLoopChecked, recvLoop, recvChar]
    split
    · rfl
    · rename_i hfull
      split
      · exact recvLoopChecked_eq cs _
      · split
        · exact recvLoopChecked_eq cs _
        · rw [recvLetterChecked_eq hfull, Option.bind_eq_bind, Option.bind_some]
          exact recvLoopChecked_eq cs _

theorem recvLoop_outflags_lt : ∀ (cs : Text) {s : ModeRecv}, s.outflags.length < 64 →
    (recvLoop users cs s).outflags.length < 64
  | [], _, h => h
  | c :: cs, s, h => by
    rw [recvLoop]
    split
    · exact h
    · rename_i hfull
      simp only [ModeRecv.full, not_or] at hfull
      refine recvLoop_outflags_lt cs ?_
      unfold recvChar
      split
      · exact h
      · split
        · exact h
        · unfold recvLetter
          simp only
          split
          · exact h
          · have hone := (encodeOne_length s.cursign (⟨s.sign, c, none⟩ : Signed Text)).2
            simp only [encodeOne] at hone
            rw [List.append_assoc, List.length_append]
            omega

/-- The buffers hold the encoding of what is passed on. -/
theorem recvLoop_buffers : ∀ (cs : Text) (s : ModeRecv),
    (recvLoop users cs s).outflags = s.outflags ++ encode s.cursign (passedOn users cs s) ∧
      (recvLoop users cs s).outparams = s.outparams ++ argsOf (passedOn users cs s)
  | [], s => by simp [recvLoop, passedOn]
  | c :: cs, s => by
    rw [recvLoop, passedOn]
    split
    · simp
    · obtain ⟨ih1, ih2⟩ := recvLoop_buffers cs (recvChar users s c)
      rw [ih1, ih2]
      by_cases hp : c = '+'
      · simp [hp, recvChar]
      · by_cases hm : c = '-'
        · simp [hm, recvChar]
        · simp only [hp, hm, or_self, if_false, recvChar, recvLetter]
          cases (remoteLetter users s.chan s.sign c
            (if takesArg s.sign c then s.args.head? else none)).2 with
          | none => simp
          | some p => simp [encode, encodeOne, argsOf_cons]

theorem isLetter_of_passedOn : ∀ {cs : Text} {s : ModeRecv},
    ∀ t ∈ passedOn users cs s, IsLetter t.letter
  | [], _, t, ht => by simp [passedOn] at ht
  | c :: cs, s, t, ht => by
    rw [passedOn] at ht
    split at ht
    · cases ht
    · simp only at ht
      split at ht
      · exact isLetter_of_passedOn t ht
      · rename_i hsign
        split at ht
        · rcases List.mem_cons.mp ht with rfl | ht
          · exact not_or.mp hsign
          · exact isLetter_of_passedOn t ht
        · exact isLetter_of_passedOn t ht

theorem takesArg_flag {c : Char} {b : CMode} (h : channelFlagBit c = some b) (sign : Bool) :
    takesArg sign c = false := by
  have hall : ∀ x ∈ flagLetters, ∀ on, takesArg on x.1 = false := by decide
  exact hall _ (mem_flagLetters h) sign

/-- **What a letter is passed on with.**  It has a parameter exactly when it takes one, but for a
limit or a redirect target that found none. -/
theorem remoteLetter_exact {chan : Channel} {sign : Bool} {c : Char} {arg : Option Text}
    (harg : takesArg sign c = false → arg = none) {p : Option Text}
    (h : (remoteLetter users chan sign c arg).2 = some p) :
    p.isSome = takesArg sign c ↔ ¬ (sign = true ∧ (c = 'l' ∨ c = 'L') ∧ arg = none) := by
  have hright : ∀ {q : Prop}, p.isSome = takesArg sign c → ¬ q →
      (p.isSome = takesArg sign c ↔ ¬ q) := fun h1 h2 => ⟨fun _ => h2, fun _ => h1⟩
  unfold remoteLetter at h
  split at h
  · rename_i b hb
    have hno := takesArg_flag hb sign
    have hpn : p = none := by
      split at h <;> exact (Option.some.inj h).symm
    refine hright (by rw [hpn, hno]; rfl) ?_
    rintro ⟨-, hc, -⟩
    rw [show channelFlagBit c = none by rcases hc with rfl | rfl <;> decide] at hb
    cases hb
  · split at h
    · rename_i hk
      subst hk
      refine hright ?_ (fun hq => absurd hq.2.1 (by decide))
      rw [show takesArg sign 'k' = true by cases sign <;> rfl]
      split at h <;> rw [← Option.some.inj h] <;> rfl
    · split at h
      · rename_i hl
        subst hl
        cases sign <;> cases arg <;> cases h <;> simp [takesArg]
      · split at h
        · rename_i hf
          subst hf
          refine hright ?_ (fun hq => absurd hq.2.1 (by decide))
          split at h
          · split at h
            · rw [← Option.some.inj h]; rfl
            · cases h
          · cases h
          · rw [← Option.some.inj h]; rfl
        · split at h
          · rename_i hj
            subst hj
            refine hright ?_ (fun hq => absurd hq.2.1 (by decide))
            split at h
            · split at h
              · rw [← Option.some.inj h]; rfl
              · cases h
            · cases h
            · rw [← Option.some.inj h]; rfl
          · split at h
            · rename_i hL
              subst hL
              cases sign <;> cases arg <;> cases h <;> simp [takesArg]
            · rename_i hnl _ _ hnL
              have hne : ¬ (sign = true ∧ (c = 'l' ∨ c = 'L') ∧ arg = none) := fun hq =>
                hq.2.1.elim hnl hnL
              have hyes : ∀ {a : Text}, arg = some a → takesArg sign c = true := fun ha => by
                by_contra hno
                rw [harg (Bool.eq_false_of_not_eq_true hno)] at ha
                cases ha
              refine hright ?_ hne
              split at h
              · rw [hyes rfl]
                split at h
                · rw [← Option.some.inj h]; rfl
                · cases h
              · rw [hyes rfl]
                split at h
                · rw [← Option.some.inj h]; rfl
                · cases h
              · cases h

/-- Every letter that is passed on has its parameter exactly when none was left without. -/
theorem exact_passedOn_iff : ∀ (cs : Text) (s : ModeRecv),
    Exact takesArg (passedOn users cs s) ↔ ¬ Starves users cs s
  | [], _ => by simp [Exact, passedOn, Starves]
  | c :: cs, s => by
    have ih := exact_passedOn_iff cs (recvChar users s c)
    rw [passedOn, Starves]
    by_cases hfull : s.full
    · simp [hfull, Exact]
    · rw [if_neg hfull]
      by_cases hsign : c = '+' ∨ c = '-'
      · have hl : ¬ (c = 'l' ∨ c = 'L') := by
          rintro (rfl | rfl) <;> exact absurd hsign (by decide)
        simp only [if_pos hsign, ih, hfull, hl, false_and, and_false, false_or, not_false_eq_true,
          true_and]
      · rw [if_neg hsign]
        have harg : takesArg s.sign c = false →
            (if takesArg s.sign c then s.args.head? else none) = none := fun h => by rw [h]; rfl
        have hempty : (s.sign = true ∧ (c = 'l' ∨ c = 'L') ∧
            (if takesArg s.sign c then s.args.head? else none) = none) ↔
            (s.sign = true ∧ (c = 'l' ∨ c = 'L') ∧ s.args = []) := by
          refine and_congr_right fun hs => and_congr_right fun hc => ?_
          have htakes : takesArg s.sign c = true := by
            rw [hs]
            rcases hc with rfl | rfl <;> decide
          rw [if_pos htakes, List.head?_eq_none_iff]
        cases hemit : (remoteLetter users s.chan s.sign c
            (if takesArg s.sign c then s.args.head? else none)).2 with
        | none =>
          have hno : ¬ (s.sign = true ∧ (c = 'l' ∨ c = 'L') ∧ s.args = []) := by
            rw [← hempty]
            rintro ⟨hs, hc, hnone⟩
            have hflag : channelFlagBit c = none := by rcases hc with rfl | rfl <;> decide
            rw [hnone, hs] at hemit
            rcases hc with rfl | rfl <;> exact absurd hemit (by simp [remoteLetter, hflag])
          simp only [hemit, ih, hno, hfull, false_or, not_false_eq_true, true_and]
        | some p =>
          have hone := remoteLetter_exact harg hemit
          rw [hempty] at hone
          have hcons : ∀ ts, Exact takesArg (⟨s.sign, c, p.map (clip 260)⟩ :: ts) ↔
              p.isSome = takesArg s.sign c ∧ Exact takesArg ts := fun ts => by simp [Exact]
          simp only [hemit, hcons, hone, ih, hfull, not_false_eq_true, true_and, not_or]

end Receive

/-! ## 4. `netsync_chan_mode`

The sender reads the flags that it was handed and takes an argument for each letter that has one,
while there are any. -/

/-- The loop, with its writes into `p` checked. -/
def netsyncLoop (srv : Server) : Text → Bool → List Text → List Text → Option (List Text)
  | [], _, _, p => some p
  | c :: cs, sign, args, p =>
    if 14 ≤ p.length then some p
    else if c = '+' then netsyncLoop srv cs true args p
    else if c = '-' then netsyncLoop srv cs false args p
    else if takesArg sign c then
      match args with
      | [] => netsyncLoop srv cs sign [] p
      | a :: args => put 14 p (wireArg srv c a) >>= netsyncLoop srv cs sign args
    else netsyncLoop srv cs sign args p

/-- The letters of `modes` with the arguments they were given, as they travel. -/
def netsyncTaken (srv : Server) (sign : Bool) (modes : Text) (args : List Text) :
    List (Signed Text) := (walk takesArg sign modes args).map (mapArg (wireArg srv))

theorem netsyncLoop_eq (srv : Server) : ∀ (cs : Text) (sign : Bool) (args p : List Text),
    p.length ≤ 14 → netsyncLoop srv cs sign args p =
      some (p ++ (argsOf (netsyncTaken srv sign cs args)).take (14 - p.length))
  | [], _, _, p, _ => by simp [netsyncLoop, netsyncTaken, walk]
  | c :: cs, sign, args, p, hp => by
    unfold netsyncLoop netsyncTaken walk
    split
    · rename_i hfull
      rw [show 14 - p.length = 0 by omega]
      simp
    · rename_i hfull
      split
      · exact netsyncLoop_eq srv cs true args p hp
      · split
        · exact netsyncLoop_eq srv cs false args p hp
        · split
          · cases args with
            | nil =>
              rw [netsyncLoop_eq srv cs sign [] p hp]
              simp [netsyncTaken, mapArg, argsOf_cons]
            | cons a args =>
              change (put 14 p (wireArg srv c a) >>= netsyncLoop srv cs sign args) = _
              rw [put_of_lt (by omega), Option.bind_eq_bind, Option.bind_some,
                netsyncLoop_eq srv cs sign args _ (by
                  rw [List.length_append, List.length_singleton]
                  omega),
                show 14 - p.length = (14 - (p ++ [wireArg srv c a]).length) + 1 by
                  rw [List.length_append, List.length_singleton]; omega]
              simp [netsyncTaken, mapArg, argsOf_cons]
          · rw [netsyncLoop_eq srv cs sign args p hp]
            simp [netsyncTaken, mapArg, argsOf_cons]

/-- The line is built of what the loop leaves in `p`. -/
theorem netsyncChanMode_of_loop {srv : Server} {chan : Channel} {modes : Text} {args p : List Text}
    (setter : Client) (h : netsyncLoop srv modes true args [chan.name, modes] = some p) :
    netsyncChanMode srv chan setter modes args =
      (ircBuild 900 [] (some (wireSource srv setter)) "MODE".toList p none).text := by
  rw [netsyncLoop_eq srv modes true args _ (by simp)] at h
  obtain rfl := Option.some.inj h
  simp only [netsyncChanMode, argsOf, netsyncTaken, List.filterMap_map]
  rfl

/-! ## 5. What was written is read back

A reader takes the flags apart again and gives each letter the next parameter. That this gives back
what was written needs each letter to have brought its own. -/

/-- Read back, each letter of `flags` that takes a parameter has its own: the letters are `ts`.
Nothing is left over and nothing is missing. -/
def Placed (ts : List (Signed Text)) (flags : Text) (params : List Text) : Prop :=
  strictWalk takesArg true flags params = some ts

theorem exact_announced_iff (srv : Server) (cl : Client) (chan : Channel) (ms : Text)
    (args : List Text) (full : Bool) :
    Exact takesArg (announced srv cl chan ms args full) ↔
      ¬ Unkeys srv cl full ms (ModeRun.start chan args) := by
  rw [unkeys_iff]
  constructor
  · rintro hexact ⟨t, ht, hu⟩
    have hnone : t.arg = none := announced_forall (p := fun t => IsUnkey t → t.arg = none)
      (fun _ _ _ => Change.unkey_arg) t ht hu
    have htakes := hexact t ht
    rw [hnone, hu.1, hu.2] at htakes
    exact absurd htakes (by decide)
  · intro hno t ht
    have htakes := announced_forall (p := fun t => t.arg.isSome = takesArg t.add t.letter ∨
      (IsUnkey t ∧ t.arg = none)) (fun _ _ h => h.takes) t ht
    exact htakes.resolve_right fun h => hno ⟨t, ht, h.1⟩

/-- **The buffers of the mode loops.**  Whatever the mode string and the arguments, every write of
the three loops is inside its array, the final NUL included.  What the command writes gives every
letter its parameter unless it takes the `-k` branch on a keyed channel; what `handle_mode` writes,
unless it sets a limit or a redirect target without an argument; what `netsync_chan_mode` writes,
unless more letters take an argument than it was given or than the twelve it has room for. -/
theorem mode_buffers_iff (srv : Server) (users : List Client) (cl : Client) (full : Bool)
    (chan : Channel) (ms : Text) (args : List Text) :
    let start := ModeRun.start chan args
    let s := modeLoop srv cl full ms start
    let start' : ModeRecv := ⟨chan, args, true, none, [], []⟩
    let s' := recvLoop users ms start'
    (modeLoopChecked srv cl full ms start = some s ∧ closed 64 s.outflags ∧
      (Placed (announced srv cl chan ms args full) s.outflags s.outparams ↔
        ¬ Unkeys srv cl full ms start)) ∧
    (recvLoopChecked users ms start' = some s' ∧ closed 64 s'.outflags ∧
      (Placed (passedOn users ms start') s'.outflags s'.outparams ↔ ¬ Starves users ms start')) ∧
    ∃ ps, netsyncLoop srv ms true args [chan.name, ms] = some (chan.name :: ms :: ps) ∧
      (Placed (netsyncTaken srv true ms args) ms ps ↔
        takers takesArg true ms ≤ args.length ∧ takers takesArg true ms ≤ 12) := by
  refine ⟨?_, ?_, ?_⟩
  · obtain ⟨hflags, hparams⟩ := modeLoop_buffers srv cl full ms (ModeRun.start chan args)
    have hlen := modeLoop_outflags_le srv cl full ms (ModeRun.start chan args) (Nat.zero_le _)
    refine ⟨modeLoopChecked_eq ms _, closed_of_lt (by omega), ?_⟩
    rw [Placed, hflags, hparams, ← exact_announced_iff]
    exact strictWalk_encode_iff (fun t ht => isLetter_of_mem (announced_letter t ht))
      (by simp [ModeRun.start])
  · obtain ⟨hflags, hparams⟩ :=
      @recvLoop_buffers users ms ⟨chan, args, true, none, [], []⟩
    refine ⟨recvLoopChecked_eq ms _, closed_of_lt (recvLoop_outflags_lt ms (by simp)), ?_⟩
    rw [Placed, hflags, hparams, ← exact_passedOn_iff]
    exact strictWalk_encode_iff isLetter_of_passedOn (by simp)
  · refine ⟨_, netsyncLoop_eq srv ms true args [chan.name, ms] (by simp), ?_⟩
    exact strictWalk_take_iff (wireArg srv) 12 ms true args

/-- Behind the removed key Bob's nick is taken for the key. -/
theorem unkey_leaves_gap :
    ¬ Placed (announced demoServer demoOp demoChan "-k+o".toList ["x".toList, "bob".toList] true)
      (modeLoop demoServer demoOp true "-k+o".toList
        (ModeRun.start demoChan ["x".toList, "bob".toList])).outflags
      (modeLoop demoServer demoOp true "-k+o".toList
        (ModeRun.start demoChan ["x".toList, "bob".toList])).outparams := by
  unfold Placed
  decide

end SekurIRCd
