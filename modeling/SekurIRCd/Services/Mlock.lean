/-
# MLOCK: what is accepted, and its letters at the ircd

`mlock_parse` reads a mode lock as a user gives it, checks the parameters and stores them.  What a
lock asks for is a list of signed letters; at the ircd a service's letters are met one by one, each
exactly when the ircd takes its argument (`meets_run`).
-/
import SekurIRCd.Services.Reset
import SekurIRCd.Services.Sweep

namespace SekurIRCd

open CLib CLib.Signed

/-! ## 1. What is accepted

What comes is a text of a user. What is stored are two strings of letters and a parameter for each
of five. -/

/-- `MLOCK_FLAGS`. -/
def mlockFlags : Text := "nimpstzCNPQSTVROMcDuGK".toList

/-- The letters of `MLOCK_PARAMS`. -/
def mlockParams : Text := "klfjL".toList

/-- What `mlock_parse` fills in: the letters forced on and off, and the parameters. -/
structure Mlock where
  on : Text
  off : Text
  key : Text
  limit : Text
  flood : Text
  jt : Text
  redirect : Text
deriving DecidableEq

/-- An empty value clears everything. -/
def Mlock.none : Mlock := ⟨[], [], [], [], [], [], []⟩

/-- The parameter stored for a letter, 80 bytes of it. -/
def Mlock.store (m : Mlock) (c : Char) (arg : Text) : Mlock :=
  let v := clip 80 arg
  if c = 'k' then { m with key := v } else if c = 'l' then { m with limit := v }
  else if c = 'f' then { m with flood := v } else if c = 'j' then { m with jt := v }
  else if c = 'L' then { m with redirect := v } else m

/-- What `cmd_set` stores. -/
def ChanRec.withMlock (rec : ChanRec) (m : Mlock) : ChanRec :=
  { rec with
    mlock := m.on, mlockOff := m.off, mlockKey := m.key, mlockLimit := m.limit
    mlockFlood := m.flood, mlockJt := m.jt, mlockRedirect := m.redirect }

/-- The loop over the letters: the sign, and the letters so far.  `plus` has the parameters that
are wanted. -/
structure MlockScan where
  sign : Bool
  on : Text
  off : Text
  plus : Text

/-- One letter. -/
def mlockLetter (s : MlockScan) (c : Char) : Except Text MlockScan :=
  if c = '+' then .ok { s with sign := true }
  else if c = '-' then .ok { s with sign := false }
  else if c ∉ mlockParams ∧ c ∉ mlockFlags then
    .error ("MLOCK letters must be from: ".toList ++ mlockFlags ++ " plus k l f j L".toList)
  else if c ∈ s.on ∨ c ∈ s.off ∨ c ∈ s.plus then
    .error ("Letter '".toList ++ c :: "' given twice".toList)
  else if s.sign then
    if c ∈ mlockParams then
      .ok { s with plus := if s.plus.length < 7 then s.plus ++ [c] else s.plus }
    else .ok { s with on := if s.on.length + 1 < 32 then s.on ++ [c] else s.on }
  else .ok { s with off := if s.off.length + 1 < 32 then s.off ++ [c] else s.off }

/-- `sscanf(arg, "%d:%d%c", &a, &b, &x) == 2`: two numbers and nothing behind them. -/
def scanRate (arg : Text) : Option (Int × Int) :=
  match strtol arg with
  | some (a, ':' :: r) =>
    match strtol r with
    | some (b, []) => some (a.bmod (2 ^ 32), b.bmod (2 ^ 32))
    | _ => none
  | _ => none

/-- The check of `+f` and `+j`. -/
def mlockRate (arg : Text) : Bool :=
  (scanRate arg).any fun p => decide (1 ≤ p.1 ∧ p.1 ≤ 100 ∧ 1 ≤ p.2 ∧ p.2 ≤ 600)

/-- The check of a parameter.  Of UnrealIRCd's form of `+f` it only looks for the end of the
brackets: "the ircd checks the rest". -/
def mlockArg (c : Char) (arg : Text) : Bool :=
  if c = 'k' then decide (arg.length < 60)
  else if c = 'l' then
    match strtol arg with
    | some (n, []) => decide (1 ≤ n ∧ n ≤ 1000000)
    | _ => false
  else if c = 'f' then
    if arg.head? = some '[' then decide (arg.length < 96) && (strstr [']', ':'] arg).isSome
    else mlockRate arg
  else if c = 'j' then mlockRate arg
  else if c = 'L' then ircValidChannel arg 50
  else true

/-- The loop over the parameters. -/
def mlockArgs : Text → List Text → Mlock → Except Text Mlock
  | [], _, m => .ok m
  | c :: _, [], _ => .error ('+' :: c :: " needs a parameter".toList)
  | c :: cs, arg :: args, m =>
    if mlockArg c arg then mlockArgs cs args (m.store c arg)
    else .error ("Bad parameter for +".toList ++ [c])

/-- `mlock_parse`. What is refused is refused with a text, and then nothing is stored. -/
def mlockParse (value : Text) : Except Text Mlock :=
  match strtok ' ' (clip 300 value) with
  | [] => .ok .none
  | spec :: args => do
    let s ← spec.foldlM mlockLetter ⟨true, [], [], []⟩
    mlockArgs s.plus args { Mlock.none with on := s.on, off := s.off }

/-- The parameters that are locked, in the order of `MLOCK_PARAMS`. -/
def Mlock.locked (m : Mlock) : List (Char × Text) :=
  [('k', m.key), ('l', m.limit), ('f', m.flood), ('j', m.jt), ('L', m.redirect)].filter (·.2 ≠ [])

/-- A parameter that was accepted, as it is stored. -/
def Stored (c : Char) (v : Text) : Prop :=
  ∃ arg, arg ≠ [] ∧ ' ' ∉ arg ∧ mlockArg c arg = true ∧ v = clip 80 arg

/-- What is true of every lock that was accepted: only letters that may be locked, each under one
sign, and a parameter for each that takes one. -/
structure Mlock.Accepted (m : Mlock) : Prop where
  on_flags : ∀ c ∈ m.on, c ∈ mlockFlags
  off_letters : ∀ c ∈ m.off, c ∈ mlockFlags ∨ c ∈ mlockParams
  nodup : (m.on ++ m.off).Nodup
  stored : ∀ x ∈ m.locked, Stored x.1 x.2 ∧ x.1 ∉ m.off

/-- The loop over the letters, on its way. -/
structure Scanned (s : MlockScan) : Prop where
  on_flags : ∀ c ∈ s.on, c ∈ mlockFlags
  off_letters : ∀ c ∈ s.off, c ∈ mlockFlags ∨ c ∈ mlockParams
  nodup : ((s.on ++ s.off) ++ s.plus).Nodup

theorem nodup_concat {l : Text} {c : Char} (h : l.Nodup) (hc : c ∉ l) : (l ++ [c]).Nodup :=
  h.append (List.nodup_singleton c) (List.disjoint_singleton.mpr hc)

theorem mlockLetter_scanned {s s' : MlockScan} {c : Char} (hs : Scanned s)
    (h : mlockLetter s c = .ok s') : Scanned s' := by
  unfold mlockLetter at h
  split at h
  · obtain rfl := Except.ok.inj h
    exact ⟨hs.on_flags, hs.off_letters, hs.nodup⟩
  split at h
  · obtain rfl := Except.ok.inj h
    exact ⟨hs.on_flags, hs.off_letters, hs.nodup⟩
  split at h
  · exact absurd h (by simp)
  split at h
  · exact absurd h (by simp)
  rename_i hknown htwice
  simp only [not_or] at htwice
  obtain ⟨hon, hoff, hplus⟩ := htwice
  have hnew : c ∉ (s.on ++ s.off) ++ s.plus := by
    simp only [List.mem_append, not_or]
    exact ⟨⟨hon, hoff⟩, hplus⟩
  have hcons : ((s.on ++ s.off) ++ s.plus ++ [c]).Nodup := nodup_concat hs.nodup hnew
  split at h
  · split at h
    · obtain rfl := Except.ok.inj h
      refine ⟨hs.on_flags, hs.off_letters, ?_⟩
      split
      · rwa [← List.append_assoc]
      · exact hs.nodup
    · rename_i hparam
      have hflag : c ∈ mlockFlags := by
        by_contra hf
        exact hknown ⟨hparam, hf⟩
      obtain rfl := Except.ok.inj h
      split
      · refine ⟨fun x hx => ?_, hs.off_letters, ?_⟩
        · rcases List.mem_append.mp hx with hx | hx
          · exact hs.on_flags x hx
          · exact List.mem_singleton.mp hx ▸ hflag
        · refine (List.Perm.nodup_iff ?_).mp hcons
          simp only [List.append_assoc]
          have hmove : (s.off ++ (s.plus ++ [c])).Perm ([c] ++ (s.off ++ s.plus)) := by
            rw [← List.append_assoc]
            exact List.perm_append_comm
          exact hmove.append_left _
      · exact hs
  · obtain rfl := Except.ok.inj h
    split
    · refine ⟨hs.on_flags, fun x hx => ?_, ?_⟩
      · rcases List.mem_append.mp hx with hx | hx
        · exact hs.off_letters x hx
        · rw [List.mem_singleton.mp hx]
          by_contra hno
          rw [not_or] at hno
          exact hknown ⟨hno.2, hno.1⟩
      · refine (List.Perm.nodup_iff ?_).mp hcons
        simp only [List.append_assoc]
        exact List.Perm.append_left _ (List.Perm.append_left _ List.perm_append_comm)
    · exact hs

theorem scanned_foldlM : ∀ {spec : Text} {s s' : MlockScan}, Scanned s →
    spec.foldlM mlockLetter s = .ok s' → Scanned s'
  | [], s, s', hs, h => by
    obtain rfl := Except.ok.inj h
    exact hs
  | c :: spec, s, s', hs, h => by
    rw [List.foldlM_cons] at h
    cases hc : mlockLetter s c with
    | error e =>
      rw [hc] at h
      exact absurd h (by simp [bind, Except.bind])
    | ok t =>
      rw [hc] at h
      exact scanned_foldlM (mlockLetter_scanned hs hc) h

theorem mem_locked {m : Mlock} {x : Char × Text} : x ∈ m.locked ↔
    x ∈ [('k', m.key), ('l', m.limit), ('f', m.flood), ('j', m.jt), ('L', m.redirect)] ∧
      x.2 ≠ [] := by
  rw [Mlock.locked, List.mem_filter]
  simp

theorem locked_store {m : Mlock} {c : Char} {arg : Text} {x : Char × Text}
    (h : x ∈ (m.store c arg).locked) : x ∈ m.locked ∨ x = (c, clip 80 arg) := by
  rw [mem_locked] at h ⊢
  obtain ⟨h, hne⟩ := h
  have hfield : x ∈ [('k', m.key), ('l', m.limit), ('f', m.flood), ('j', m.jt), ('L', m.redirect)] ∨
      x = (c, clip 80 arg) := by
    simp only [Mlock.store] at h
    repeat' split at h
    all_goals simp only [List.mem_cons, List.not_mem_nil, or_false] at h ⊢
    all_goals grind
  exact hfield.imp_left fun hx => ⟨hx, hne⟩

/-- The parameters that are locked passed their checks. -/
theorem mlockArgs_stored : ∀ {cs : Text} {args : List Text} {m m' : Mlock},
    (∀ a ∈ args, a ≠ [] ∧ ' ' ∉ a) → mlockArgs cs args m = .ok m' →
    m'.on = m.on ∧ m'.off = m.off ∧
      ∀ x ∈ m'.locked, x ∈ m.locked ∨ (x.1 ∈ cs ∧ Stored x.1 x.2)
  | [], _, m, m', _, h => by
    obtain rfl := Except.ok.inj h
    exact ⟨rfl, rfl, fun x hx => Or.inl hx⟩
  | _ :: _, [], _, _, _, h => absurd h (by simp [mlockArgs])
  | c :: cs, arg :: args, m, m', hargs, h => by
    rw [mlockArgs] at h
    split at h
    · rename_i hok
      obtain ⟨hon, hoff, hlocked⟩ := mlockArgs_stored
        (fun a ha => hargs a (List.mem_cons_of_mem _ ha)) h
      have hkeep : (m.store c arg).on = m.on ∧ (m.store c arg).off = m.off := by
        simp only [Mlock.store]
        repeat' split
        all_goals exact ⟨rfl, rfl⟩
      refine ⟨hon.trans hkeep.1, hoff.trans hkeep.2, fun x hx => ?_⟩
      rcases hlocked x hx with hx | ⟨hx, hstored⟩
      · rcases locked_store hx with hx | rfl
        · exact Or.inl hx
        · obtain ⟨hne, hsp⟩ := hargs arg List.mem_cons_self
          exact Or.inr ⟨List.mem_cons_self, arg, hne, hsp, hok, rfl⟩
      · exact Or.inr ⟨List.mem_cons_of_mem _ hx, hstored⟩
    · exact absurd h (by simp)

/-- **What `mlock_parse` accepts.** -/
theorem mlockParse_accepted {value : Text} {m : Mlock} (h : mlockParse value = .ok m) :
    m.Accepted := by
  unfold mlockParse at h
  split at h
  · obtain rfl := Except.ok.inj h
    exact ⟨fun c hc => absurd hc (by simp [Mlock.none]),
      fun c hc => absurd hc (by simp [Mlock.none]), by simp [Mlock.none],
      fun x hx => absurd hx (by simp [Mlock.locked, Mlock.none])⟩
  · rename_i spec args htok
    cases hs : spec.foldlM mlockLetter ⟨true, [], [], []⟩ with
    | error e =>
      rw [hs] at h
      exact absurd h (by simp [bind, Except.bind])
    | ok s =>
      rw [hs] at h
      have hscan : Scanned s := scanned_foldlM ⟨by simp, by simp, by simp⟩ hs
      obtain ⟨hon, hoff, hlocked⟩ := mlockArgs_stored
        (fun a ha => mem_strtok (htok ▸ List.mem_cons_of_mem _ ha)) h
      have hdisj := List.disjoint_of_nodup_append hscan.nodup
      refine ⟨hon ▸ hscan.on_flags, hoff ▸ hscan.off_letters, ?_, fun x hx => ?_⟩
      · rw [hon, hoff]
        exact hscan.nodup.of_append_left
      · rcases hlocked x hx with hx | ⟨hplus, hstored⟩
        · exact absurd hx (by simp [Mlock.locked, Mlock.none])
        · refine ⟨hstored, fun hx' => ?_⟩
          rw [hoff] at hx'
          exact hdisj (List.mem_append_right _ hx') hplus

/-! ## 2. What a letter does

A letter is met when the channel is as it asks. Whether it will be is up to what the ircd makes of
its argument. -/

/-- The value that goes with a parameter mode. -/
def Channel.HasValue (chan : Channel) (b : CMode) (arg : Option Text) : Prop :=
  match b with
  | .k => arg = some chan.key
  | .l => arg.bind strtol = some (chan.limit, [])
  | .flood => arg.bind parseFlood = some chan.flood
  | .jthrot => arg.bind parseRate = some (chan.jtJoins, chan.jtSecs)
  | .redirect => arg = some chan.redirect
  | _ => True

/-- The mode of the letter is as its sign says, and a parameter that is wanted has its value. A
letter that the ircd does not know wants nothing. -/
def Channel.Meets (chan : Channel) (t : Signed Text) : Prop :=
  ∀ b, removes t.letter = some b →
    (b ∈ chan.modes ↔ t.add = true) ∧ (t.add = true → chan.HasValue b t.arg)

/-- The ircd takes the argument for a mode, on the channel of this name. -/
def ValueTaken (name : Text) (b : CMode) (arg : Option Text) : Prop :=
  match b with
  | .k => ∃ a, arg = some a ∧ ' ' ∉ a
  | .l => ∃ n, arg.bind strtol = some (n, []) ∧ 1 ≤ n ∧ n ≤ intMax
  | .flood => (arg.bind parseFlood).isSome = true
  | .jthrot => (arg.bind parseRate).isSome = true
  | .redirect => ∃ a, arg = some a ∧ ircValidChannel a 50 = true ∧
      ircCasefold chanNameLen a ≠ ircCasefold chanNameLen name
  | _ => True

/-- The ircd takes the letter, with the parameter that comes with it. A letter that is only taken
off always is. -/
def Taken (name : Text) (t : Signed Text) : Prop :=
  t.add = true → ∀ b, removes t.letter = some b → ValueTaken name b t.arg

instance decidableValueTaken (name : Text) :
    (b : CMode) → (arg : Option Text) → Decidable (ValueTaken name b arg)
  | .k, arg => decidable_of_iff (∃ a ∈ arg, ' ' ∉ a) Iff.rfl
  | .l, arg => decidable_of_iff
      (∃ r ∈ arg.bind strtol, r.2 = [] ∧ 1 ≤ r.1 ∧ r.1 ≤ intMax)
      ⟨fun ⟨(n, _), hr, hrest, hn⟩ => ⟨n, hrest ▸ hr, hn⟩, fun ⟨n, hr, hn⟩ => ⟨(n, []), hr, rfl, hn⟩⟩
  | .flood, _ => inferInstanceAs (Decidable (_ = true))
  | .jthrot, _ => inferInstanceAs (Decidable (_ = true))
  | .redirect, arg => decidable_of_iff (∃ a ∈ arg, ircValidChannel a 50 = true ∧
      ircCasefold chanNameLen a ≠ ircCasefold chanNameLen name) Iff.rfl
  | .n, _ | .i, _ | .p, _ | .t, _ | .s, _ | .m, _ | .z, _ | .r, _ | .perm, _ | .noctcp, _
  | .nonotice, _ | .stripcolor, _ | .noinvite, _ | .nokick, _ | .nonick, _ | .regonly, _
  | .operonly, _ | .modreg, _ | .nocolor, _ | .delayjoin, _ | .auditorium, _ | .censor, _
  | .noknock, _ => inferInstanceAs (Decidable True)

instance (name : Text) (t : Signed Text) : Decidable (Taken name t) :=
  decidable_of_iff (t.add = true → ∀ b ∈ removes t.letter, ValueTaken name b t.arg) Iff.rfl

theorem flagLetter_of_removes {c : Char} {b : CMode} (h : removes c = some b) :
    flagLetter b = c := by
  unfold removes at h
  cases hf : channelFlagBit c with
  | some b' =>
    rw [hf] at h
    obtain rfl := Option.some.inj h
    exact flagLetter_of_bit hf
  | none =>
    rw [hf] at h
    simp only at h
    repeat' split at h
    all_goals first
      | (obtain rfl := Option.some.inj h; subst_vars; rfl)
      | exact absurd h (by simp)

/-- A change leaves the modes of the other letters alone, and their values. -/
theorem Change.apply_frame {users : List Client} {chan : Channel} {ch : Change}
    (h : ch.Admitted users chan) {b : CMode} (hb : removes ch.signed.letter ≠ some b)
    (arg : Option Text) :
    (b ∈ (ch.apply chan).modes ↔ b ∈ chan.modes) ∧
      ((ch.apply chan).HasValue b arg ↔ chan.HasValue b arg) := by
  cases ch with
  | flag on b' =>
    have hne : b ≠ b' := by
      rintro rfl
      exact hb (removes_of_bit h.1)
    have hb' : b' ≠ .k ∧ b' ≠ .l ∧ b' ≠ .flood ∧ b' ≠ .jthrot ∧ b' ≠ .redirect := by
      have hall : ∀ x ∈ flagLetters, x.2 ≠ .k ∧ x.2 ≠ .l ∧ x.2 ≠ .flood ∧ x.2 ≠ .jthrot ∧
          x.2 ≠ .redirect := by decide
      exact hall _ (mem_flagLetters h.1)
    cases on with
    | true => exact ⟨by simp [Change.apply, hne], Iff.rfl⟩
    | false =>
      simp only [Change.apply]
      split
      · exact ⟨by simp [Channel.revealAll, hne], Iff.rfl⟩
      · exact ⟨by simp [hne], Iff.rfl⟩
  | key v =>
    have hne : b ≠ .k := by
      rintro rfl
      exact hb rfl
    refine ⟨?_, ?_⟩
    · cases v <;> simp [Change.apply, hne]
    · cases v <;> cases b <;> first | exact Iff.rfl | exact absurd rfl hne
  | limit v =>
    have hne : b ≠ .l := by
      rintro rfl
      exact hb rfl
    refine ⟨?_, ?_⟩
    · cases v <;> simp [Change.apply, hne]
    · cases v <;> cases b <;> first | exact Iff.rfl | exact absurd rfl hne
  | redirect v =>
    have hne : b ≠ .redirect := by
      rintro rfl
      exact hb rfl
    refine ⟨?_, ?_⟩
    · cases v <;> simp [Change.apply, hne]
    · cases v <;> cases b <;> first | exact Iff.rfl | exact absurd rfl hne
  | flood v =>
    have hne : b ≠ .flood := by
      rintro rfl
      exact hb rfl
    refine ⟨?_, ?_⟩
    · cases v <;> simp [Change.apply, hne]
    · cases v <;> cases b <;> first | exact Iff.rfl | exact absurd rfl hne
  | jthrot v =>
    have hne : b ≠ .jthrot := by
      rintro rfl
      exact hb rfl
    refine ⟨?_, ?_⟩
    · cases v <;> simp [Change.apply, hne]
    · cases v <;> cases b <;> first | exact Iff.rfl | exact absurd rfl hne
  | mask on kind m =>
    cases on <;> cases kind <;> exact ⟨Iff.rfl, Iff.rfl⟩
  | rank on b' uid nick => exact ⟨Iff.rfl, Iff.rfl⟩

/-- A letter that MLOCK knows. -/
def Lockable (c : Char) : Prop := c ∈ mlockFlags ∨ c ∈ mlockParams

instance (c : Char) : Decidable (Lockable c) := inferInstanceAs (Decidable (_ ∨ _))

theorem flagBit_of_mem {c : Char} (h : c ∈ mlockFlags) : ∃ b, channelFlagBit c = some b := by
  have hall : ∀ c ∈ mlockFlags, (channelFlagBit c).isSome := by decide
  exact Option.isSome_iff_exists.mp (hall c h)

/-- A mode without a parameter has nothing to be taken. -/
theorem flag_trivial {c : Char} {b : CMode} (hb : channelFlagBit c = some b) {name : Text}
    {arg : Option Text} : ValueTaken name b arg := by
  have hall : ∀ x ∈ flagLetters, x.2 ≠ .k ∧ x.2 ≠ .l ∧ x.2 ≠ .flood ∧ x.2 ≠ .jthrot ∧
      x.2 ≠ .redirect := by decide
  obtain ⟨h1, h2, h3, h4, h5⟩ := hall _ (mem_flagLetters hb)
  cases b <;> first | exact trivial | contradiction

section Letter

variable (srv : Server) (svc : Client)

/-- A letter from the services, with the argument that it takes. -/
def svcLetter (chan : Channel) (t : Signed Text) : Channel :=
  (applyLetter srv svc true chan t.add t.letter t.arg.toList).chan

variable {srv svc} {chan : Channel}

theorem name_svcLetter (chan : Channel) (t : Signed Text) :
    (svcLetter srv svc chan t).name = chan.name := by
  obtain ⟨hnone, hsome⟩ := applyLetter_change srv svc true chan t.add t.letter t.arg.toList
  cases he : (applyLetter srv svc true chan t.add t.letter t.arg.toList).emit with
  | none => rw [svcLetter, hnone he]
  | some p =>
    obtain ⟨ch, -, happ, -⟩ := hsome p he
    rw [svcLetter, ← happ, apply_name]

/-- A letter leaves what is wanted of another as it was. -/
theorem meets_svcLetter_of_ne {t u : Signed Text} (h : u.letter ≠ t.letter) :
    (svcLetter srv svc chan t).Meets u ↔ chan.Meets u := by
  obtain ⟨hnone, hsome⟩ := applyLetter_change srv svc true chan t.add t.letter t.arg.toList
  cases he : (applyLetter srv svc true chan t.add t.letter t.arg.toList).emit with
  | none => rw [svcLetter, hnone he]
  | some p =>
    obtain ⟨ch, hadm, happ, hsig⟩ := hsome p he
    have hletter : ch.signed.letter = t.letter := by rw [hsig]
    have hframe : ∀ b, removes u.letter = some b →
        ((b ∈ (ch.apply chan).modes ↔ b ∈ chan.modes) ∧
          ((ch.apply chan).HasValue b u.arg ↔ chan.HasValue b u.arg)) := by
      intro b hb
      refine ch.apply_frame hadm (fun hb' => h ?_) u.arg
      rw [← flagLetter_of_removes hb, ← hletter, flagLetter_of_removes hb']
    rw [svcLetter, ← happ, Channel.Meets, Channel.Meets]
    refine forall_congr' fun b => forall_congr' fun hb => ?_
    rw [(hframe b hb).1, (hframe b hb).2]

theorem applyLetter_svc (hsvc : svc.isService = true) (chan : Channel) (sign : Bool) {c : Char}
    (args : List Text) {b : CMode} (hb : channelFlagBit c = some b) :
    applyLetter srv svc true chan sign c args = applyFlag chan sign b args := by
  simp [applyLetter, hsvc, hb]

theorem applyLetter_svc_param (hsvc : svc.isService = true) (chan : Channel) (sign : Bool)
    (args : List Text) :
    applyLetter srv svc true chan sign 'k' args = applyKey chan sign args ∧
      applyLetter srv svc true chan sign 'l' args = applyLimit chan sign args ∧
      applyLetter srv svc true chan sign 'f' args = applyFlood chan sign args ∧
      applyLetter srv svc true chan sign 'j' args = applyJthrot chan sign args ∧
      applyLetter srv svc true chan sign 'L' args = applyRedirect chan sign args := by
  have hk : channelFlagBit 'k' = none := by decide
  have hl : channelFlagBit 'l' = none := by decide
  have hf : channelFlagBit 'f' = none := by decide
  have hj : channelFlagBit 'j' = none := by decide
  have hL : channelFlagBit 'L' = none := by decide
  simp [applyLetter, hsvc, hk, hl, hf, hj, hL]

theorem meets_iff {t : Signed Text} {b : CMode} (hb : removes t.letter = some b) :
    chan.Meets t ↔ (b ∈ chan.modes ↔ t.add = true) ∧ (t.add = true → chan.HasValue b t.arg) := by
  constructor
  · exact fun h => h b hb
  · intro h b' hb'
    obtain rfl := Option.some.inj (hb.symm.trans hb')
    exact h

theorem taken_iff {name : Text} {c : Char} {arg : Option Text} {b : CMode}
    (hb : removes c = some b) : Taken name ⟨true, c, arg⟩ ↔ ValueTaken name b arg := by
  constructor
  · exact fun h => h rfl b hb
  · intro h _ b' hb'
    obtain rfl := Option.some.inj (hb.symm.trans hb')
    exact h

/-- What is wanted under a minus sign is always met. -/
theorem meets_svcLetter_off (c : Char) (arg : Option Text) (hr : c ≠ 'r') :
    (svcLetter srv svc chan ⟨false, c, arg⟩).Meets ⟨false, c, arg⟩ := by
  intro b hb
  obtain ⟨hmodes, -, -⟩ := applyLetter_removes srv svc chan arg.toList hb hr
  refine ⟨?_, fun h => absurd h (by simp)⟩
  rw [svcLetter, hmodes]
  simp

theorem meets_svcLetter_flag (hsvc : svc.isService = true) {c : Char} {b : CMode}
    (hb : channelFlagBit c = some b) (arg : Option Text) :
    (svcLetter srv svc chan ⟨true, c, arg⟩).Meets ⟨true, c, arg⟩ := by
  rw [meets_iff (removes_of_bit hb)]
  have hval : ∀ chan' : Channel, chan'.HasValue b arg := by
    have hall : ∀ x ∈ flagLetters, x.2 ≠ .k ∧ x.2 ≠ .l ∧ x.2 ≠ .flood ∧ x.2 ≠ .jthrot ∧
        x.2 ≠ .redirect := by decide
    obtain ⟨h1, h2, h3, h4, h5⟩ := hall _ (mem_flagLetters hb)
    intro chan'
    cases b <;> first | exact trivial | contradiction
  refine ⟨?_, fun _ => hval _⟩
  rw [svcLetter, applyLetter_svc hsvc chan true _ hb, applyFlag]
  by_cases hset : b ∈ chan.modes
  · simp [hset, Letter.skip]
  · simp [hset, Letter.done]

theorem meets_svcLetter_key (hsvc : svc.isService = true) (arg : Option Text)
    (hlen : ∀ a, arg = some a → a.length < chanKeyLen) :
    (svcLetter srv svc chan ⟨true, 'k', arg⟩).Meets ⟨true, 'k', arg⟩ ↔
      Taken chan.name ⟨true, 'k', arg⟩ ∨ chan.Meets ⟨true, 'k', arg⟩ := by
  rw [taken_iff (b := .k) rfl, svcLetter, (applyLetter_svc_param hsvc chan true _).1]
  cases arg with
  | none => simp [ValueTaken, applyKey, Letter.skip]
  | some a =>
    by_cases hsp : ' ' ∈ a
    · simp [ValueTaken, applyKey, Letter.skip, hsp]
    · have hmeets : (applyKey chan true [a]).chan.Meets ⟨true, 'k', some a⟩ := by
        rw [meets_iff (b := .k) rfl]
        simp [applyKey, hsp, Letter.done, Channel.HasValue, clip_of_fits (hlen a rfl)]
      exact iff_of_true hmeets (Or.inl ⟨a, rfl, hsp⟩)

theorem meets_svcLetter_limit (hsvc : svc.isService = true) (arg : Option Text) :
    (svcLetter srv svc chan ⟨true, 'l', arg⟩).Meets ⟨true, 'l', arg⟩ ↔
      Taken chan.name ⟨true, 'l', arg⟩ ∨ chan.Meets ⟨true, 'l', arg⟩ := by
  rw [taken_iff (b := .l) rfl, svcLetter, (applyLetter_svc_param hsvc chan true _).2.1]
  cases arg with
  | none => simp [ValueTaken, applyLimit, Letter.skip]
  | some a =>
    cases hn : strtol a with
    | none => simp [ValueTaken, applyLimit, Letter.skip, hn]
    | some r =>
      obtain ⟨n, rest⟩ := r
      cases rest with
      | cons c rest => simp [ValueTaken, applyLimit, Letter.skip, hn]
      | nil =>
        by_cases hrange : n < 1 ∨ intMax < n
        · have hno : ¬ (1 ≤ n ∧ n ≤ intMax) := by omega
          simp [ValueTaken, applyLimit, Letter.skip, hn, hrange, hno]
        · have hmeets : (applyLimit chan true [a]).chan.Meets ⟨true, 'l', some a⟩ := by
            rw [meets_iff (b := .l) rfl]
            simp [applyLimit, hn, hrange, Letter.done, Channel.HasValue]
          refine iff_of_true hmeets (Or.inl ⟨n, by simp [hn], ?_, ?_⟩) <;> omega

theorem meets_svcLetter_flood (hsvc : svc.isService = true) (arg : Option Text) :
    (svcLetter srv svc chan ⟨true, 'f', arg⟩).Meets ⟨true, 'f', arg⟩ ↔
      Taken chan.name ⟨true, 'f', arg⟩ ∨ chan.Meets ⟨true, 'f', arg⟩ := by
  rw [taken_iff (b := .flood) rfl, svcLetter, (applyLetter_svc_param hsvc chan true _).2.2.1]
  cases arg with
  | none => simp [ValueTaken, applyFlood, Letter.skip]
  | some a =>
    cases hf : parseFlood a with
    | none => simp [ValueTaken, applyFlood, Letter.skip, channelSetFlood, hf]
    | some f =>
      have hmeets : (applyFlood chan true [a]).chan.Meets ⟨true, 'f', some a⟩ := by
        rw [meets_iff (b := .flood) rfl]
        simp [applyFlood, channelSetFlood, hf, Letter.done, Channel.HasValue]
      exact iff_of_true hmeets (Or.inl (by simp [ValueTaken, hf]))

theorem meets_svcLetter_jthrot (hsvc : svc.isService = true) (arg : Option Text) :
    (svcLetter srv svc chan ⟨true, 'j', arg⟩).Meets ⟨true, 'j', arg⟩ ↔
      Taken chan.name ⟨true, 'j', arg⟩ ∨ chan.Meets ⟨true, 'j', arg⟩ := by
  rw [taken_iff (b := .jthrot) rfl, svcLetter, (applyLetter_svc_param hsvc chan true _).2.2.2.1]
  cases arg with
  | none => simp [ValueTaken, applyJthrot, Letter.skip]
  | some a =>
    cases hr : parseRate a with
    | none => simp [ValueTaken, applyJthrot, Letter.skip, hr]
    | some r =>
      have hmeets : (applyJthrot chan true [a]).chan.Meets ⟨true, 'j', some a⟩ := by
        rw [meets_iff (b := .jthrot) rfl]
        simp [applyJthrot, hr, Letter.done, Channel.HasValue]
      exact iff_of_true hmeets (Or.inl (by simp [ValueTaken, hr]))

theorem meets_svcLetter_redirect (hsvc : svc.isService = true) (arg : Option Text) :
    (svcLetter srv svc chan ⟨true, 'L', arg⟩).Meets ⟨true, 'L', arg⟩ ↔
      Taken chan.name ⟨true, 'L', arg⟩ ∨ chan.Meets ⟨true, 'L', arg⟩ := by
  rw [taken_iff (b := .redirect) rfl, svcLetter, (applyLetter_svc_param hsvc chan true _).2.2.2.2]
  cases arg with
  | none => simp [ValueTaken, applyRedirect, Letter.skip]
  | some a =>
    by_cases hbad : ircValidChannel a 50 = false ∨
        ircCasefold chanNameLen a = ircCasefold chanNameLen chan.name
    · have hno : ¬ (ircValidChannel a 50 = true ∧
          ircCasefold chanNameLen a ≠ ircCasefold chanNameLen chan.name) := by
        rintro ⟨h1, h2⟩
        rcases hbad with h | h
        · exact absurd (h1.symm.trans h) (by decide)
        · exact h2 h
      simp [ValueTaken, applyRedirect, Letter.refuse, hbad, hno]
    · obtain ⟨hvalid, hother⟩ := not_or.mp hbad
      have hvalid : ircValidChannel a 50 = true := by simpa using hvalid
      have hlen : a.length < chanNameLen :=
        Nat.lt_of_le_of_lt (valid_channel_length hvalid) (by decide)
      have hmeets : (applyRedirect chan true [a]).chan.Meets ⟨true, 'L', some a⟩ := by
        rw [meets_iff (b := .redirect) rfl]
        simp [applyRedirect, hbad, Letter.done, Channel.HasValue, clip_of_fits hlen]
      exact iff_of_true hmeets (Or.inl ⟨a, rfl, hvalid, hother⟩)

/-- **A letter is met afterwards exactly when the ircd takes it or it was met before.** -/
theorem meets_svcLetter (hsvc : svc.isService = true) {t : Signed Text} (hc : Lockable t.letter)
    (hkey : t.letter = 'k' → ∀ a, t.arg = some a → a.length < chanKeyLen) :
    (svcLetter srv svc chan t).Meets t ↔ Taken chan.name t ∨ chan.Meets t := by
  obtain ⟨add, c, arg⟩ := t
  cases add with
  | false =>
    have hr : c ≠ 'r' := by
      rintro rfl
      exact absurd (show Lockable 'r' from hc) (by decide)
    exact iff_of_true (meets_svcLetter_off c arg hr) (Or.inl fun h => absurd h (by simp))
  | true =>
    rcases hc with hc | hc
    · obtain ⟨b, hb⟩ := flagBit_of_mem hc
      refine iff_of_true (meets_svcLetter_flag hsvc hb arg) (Or.inl ?_)
      rw [taken_iff (removes_of_bit hb)]
      exact flag_trivial hb
    · have hparams : mlockParams = ['k', 'l', 'f', 'j', 'L'] := rfl
      simp only [hparams, List.mem_cons, List.not_mem_nil, or_false] at hc
      rcases hc with rfl | rfl | rfl | rfl | rfl
      · exact meets_svcLetter_key hsvc arg (hkey rfl)
      · exact meets_svcLetter_limit hsvc arg
      · exact meets_svcLetter_flood hsvc arg
      · exact meets_svcLetter_jthrot hsvc arg
      · exact meets_svcLetter_redirect hsvc arg

/-! ## 3. A run of letters

Different letters do not get into each other's way, so a run of them is judged letter by letter. -/

theorem name_run (ts : List (Signed Text)) (chan : Channel) :
    (ts.foldl (svcLetter srv svc) chan).name = chan.name := by
  induction ts generalizing chan with
  | nil => rfl
  | cons t ts ih => rw [List.foldl_cons, ih, name_svcLetter]

theorem meets_run_of_notMem {u : Signed Text} (ts : List (Signed Text)) (chan : Channel)
    (h : ∀ t ∈ ts, u.letter ≠ t.letter) :
    (ts.foldl (svcLetter srv svc) chan).Meets u ↔ chan.Meets u := by
  induction ts generalizing chan with
  | nil => exact Iff.rfl
  | cons t ts ih =>
    have hrest := ih (svcLetter srv svc chan t) fun t' ht' => h t' (List.mem_cons_of_mem _ ht')
    rw [List.foldl_cons, hrest]
    exact meets_svcLetter_of_ne (h t List.mem_cons_self)

/-- Only the letter itself decides what becomes of it. -/
theorem meets_run_split {pre post : List (Signed Text)} {t u : Signed Text} (chan : Channel)
    (hpost : ∀ v ∈ post, u.letter ≠ v.letter) :
    ((pre ++ t :: post).foldl (svcLetter srv svc) chan).Meets u ↔
      (svcLetter srv svc (pre.foldl (svcLetter srv svc) chan) t).Meets u := by
  rw [List.foldl_append, List.foldl_cons]
  exact meets_run_of_notMem post _ hpost

/-- **In a run of different letters each is met that the ircd takes, or that was met before.** -/
theorem meets_run (hsvc : svc.isService = true) {ts : List (Signed Text)}
    (hdistinct : (ts.map Signed.letter).Nodup) (hlock : ∀ t ∈ ts, Lockable t.letter)
    (hkey : ∀ t ∈ ts, t.letter = 'k' → ∀ a, t.arg = some a → a.length < chanKeyLen)
    (chan : Channel) {t : Signed Text} (ht : t ∈ ts) :
    (ts.foldl (svcLetter srv svc) chan).Meets t ↔ Taken chan.name t ∨ chan.Meets t := by
  obtain ⟨pre, post, rfl⟩ := List.append_of_mem ht
  rw [List.map_append, List.map_cons] at hdistinct
  have hdisj := List.disjoint_of_nodup_append hdistinct
  have hpre : ∀ v ∈ pre, t.letter ≠ v.letter := fun v hv heq =>
    hdisj (heq ▸ List.mem_map_of_mem hv) List.mem_cons_self
  have hpost : ∀ v ∈ post, t.letter ≠ v.letter := fun v hv heq =>
    (List.nodup_cons.mp hdistinct.of_append_right).1 (heq ▸ List.mem_map_of_mem hv)
  rw [meets_run_split chan hpost, meets_svcLetter hsvc (hlock t ht) (hkey t ht), name_run,
    meets_run_of_notMem pre chan hpre]

/-- The loop's output buffers with a letter still to come: the sign may be written too. -/
def ModeRun.used (s : ModeRun) : Nat :=
  s.outflags.length + if s.cursign = some s.sign then 0 else 1

/-- The part of an argument list that a letter takes, and the rest. -/
def Pairs (f : List Text → Letter) (takes : Bool) (args : List Text) : Prop :=
  (f args).chan = (f (if takes then args.head? else none).toList).chan ∧
    (f args).args = if takes then args.tail else args

theorem applyKey_pairs (chan : Channel) (sign : Bool) (args : List Text) :
    Pairs (applyKey chan sign) true args := by
  cases sign with
  | true =>
    cases args with
    | nil => exact ⟨rfl, rfl⟩
    | cons a args => by_cases h : ' ' ∈ a <;> simp [Pairs, applyKey, h, Letter.skip, Letter.done]
  | false => by_cases h : .k ∈ chan.modes <;> simp [Pairs, applyKey, h, Letter.skip, Letter.done]

theorem applyLimit_pairs (chan : Channel) (sign : Bool) (args : List Text) :
    Pairs (applyLimit chan sign) sign args := by
  cases sign with
  | true =>
    cases args with
    | nil => exact ⟨rfl, rfl⟩
    | cons a args =>
      cases h : strtol a with
      | none => simp [Pairs, applyLimit, h, Letter.skip]
      | some r =>
        obtain ⟨n, rest⟩ := r
        cases rest with
        | nil =>
          by_cases hn : n < 1 ∨ intMax < n <;>
            simp [Pairs, applyLimit, h, hn, Letter.skip, Letter.done]
        | cons c rest => simp [Pairs, applyLimit, h, Letter.skip]
  | false => by_cases h : .l ∈ chan.modes <;> simp [Pairs, applyLimit, h, Letter.skip, Letter.done]

theorem applyFlood_pairs (chan : Channel) (sign : Bool) (args : List Text) :
    Pairs (applyFlood chan sign) sign args := by
  cases sign with
  | true =>
    cases args with
    | nil => exact ⟨rfl, rfl⟩
    | cons a args =>
      cases h : channelSetFlood chan a <;> simp [Pairs, applyFlood, h, Letter.skip, Letter.done]
  | false =>
    by_cases h : .flood ∈ chan.modes <;> simp [Pairs, applyFlood, h, Letter.skip, Letter.done]

theorem applyJthrot_pairs (chan : Channel) (sign : Bool) (args : List Text) :
    Pairs (applyJthrot chan sign) sign args := by
  cases sign with
  | true =>
    cases args with
    | nil => exact ⟨rfl, rfl⟩
    | cons a args =>
      cases h : parseRate a <;> simp [Pairs, applyJthrot, h, Letter.skip, Letter.done]
  | false =>
    by_cases h : .jthrot ∈ chan.modes <;> simp [Pairs, applyJthrot, h, Letter.skip, Letter.done]

theorem applyRedirect_pairs (chan : Channel) (sign : Bool) (args : List Text) :
    Pairs (applyRedirect chan sign) sign args := by
  cases sign with
  | true =>
    cases args with
    | nil => exact ⟨rfl, rfl⟩
    | cons a args =>
      by_cases h : ircValidChannel a 50 = false ∨
          ircCasefold chanNameLen a = ircCasefold chanNameLen chan.name <;>
        simp [Pairs, applyRedirect, h, Letter.refuse, Letter.done]
  | false =>
    by_cases h : .redirect ∈ chan.modes <;> simp [Pairs, applyRedirect, h, Letter.skip, Letter.done]

/-- A parameter takes the next argument, if there is one. -/
theorem applyParam_pairs (hsvc : svc.isService = true) (chan : Channel) (sign : Bool) {c : Char}
    (hc : c ∈ mlockParams) (args : List Text) :
    Pairs (applyLetter srv svc true chan sign c) (takesArg sign c) args := by
  have heq := fun args => @applyLetter_svc_param srv svc hsvc chan sign args
  have hparams : mlockParams = ['k', 'l', 'f', 'j', 'L'] := rfl
  simp only [hparams, List.mem_cons, List.not_mem_nil, or_false] at hc
  have hkey : takesArg sign 'k' = true := by cases sign <;> decide
  have hothers : ∀ c ∈ ['l', 'f', 'j', 'L'], takesArg sign c = sign := by cases sign <;> decide
  rcases hc with rfl | rfl | rfl | rfl | rfl
  · simp only [Pairs, (heq _).1, hkey]
    exact applyKey_pairs chan sign args
  · simp only [Pairs, (heq _).2.1, hothers 'l' (by decide)]
    exact applyLimit_pairs chan sign args
  · simp only [Pairs, (heq _).2.2.1, hothers 'f' (by decide)]
    exact applyFlood_pairs chan sign args
  · simp only [Pairs, (heq _).2.2.2.1, hothers 'j' (by decide)]
    exact applyJthrot_pairs chan sign args
  · simp only [Pairs, (heq _).2.2.2.2, hothers 'L' (by decide)]
    exact applyRedirect_pairs chan sign args

theorem applyParam_taken (hsvc : svc.isService = true) (chan : Channel) {c : Char}
    (hc : c ∈ mlockParams) (args : List Text) {p : Option Text}
    (h : (applyLetter srv svc true chan true c args).emit = some p) :
    Taken chan.name ⟨true, c, args.head?⟩ := by
  obtain ⟨hk, hl, hf, hj, hL⟩ := @applyLetter_svc_param srv svc hsvc chan true args
  have hparams : mlockParams = ['k', 'l', 'f', 'j', 'L'] := rfl
  simp only [hparams, List.mem_cons, List.not_mem_nil, or_false] at hc
  rcases hc with rfl | rfl | rfl | rfl | rfl
  · rw [hk] at h
    rw [taken_iff (b := .k) rfl]
    cases args with
    | nil => exact absurd h (by simp [applyKey, Letter.skip])
    | cons a args =>
      by_cases hsp : ' ' ∈ a
      · exact absurd h (by simp [applyKey, Letter.skip, hsp])
      · exact ⟨a, rfl, hsp⟩
  · rw [hl] at h
    rw [taken_iff (b := .l) rfl]
    cases args with
    | nil => exact absurd h (by simp [applyLimit, Letter.skip])
    | cons a args =>
      cases hn : strtol a with
      | none => exact absurd h (by simp [applyLimit, Letter.skip, hn])
      | some r =>
        obtain ⟨n, rest⟩ := r
        cases rest with
        | cons c rest => exact absurd h (by simp [applyLimit, Letter.skip, hn])
        | nil =>
          by_cases hrange : n < 1 ∨ intMax < n
          · exact absurd h (by simp [applyLimit, Letter.skip, hn, hrange])
          · exact ⟨n, hn, by omega, by omega⟩
  · rw [hf] at h
    rw [taken_iff (b := .flood) rfl]
    cases args with
    | nil => exact absurd h (by simp [applyFlood, Letter.skip])
    | cons a args =>
      cases hp : parseFlood a with
      | none => exact absurd h (by simp [applyFlood, Letter.skip, channelSetFlood, hp])
      | some f => simp [ValueTaken, hp]
  · rw [hj] at h
    rw [taken_iff (b := .jthrot) rfl]
    cases args with
    | nil => exact absurd h (by simp [applyJthrot, Letter.skip])
    | cons a args =>
      cases hp : parseRate a with
      | none => exact absurd h (by simp [applyJthrot, Letter.skip, hp])
      | some f => simp [ValueTaken, hp]
  · rw [hL] at h
    rw [taken_iff (b := .redirect) rfl]
    cases args with
    | nil => exact absurd h (by simp [applyRedirect, Letter.skip])
    | cons a args =>
      by_cases hbad : ircValidChannel a 50 = false ∨
          ircCasefold chanNameLen a = ircCasefold chanNameLen chan.name
      · exact absurd h (by simp [applyRedirect, Letter.refuse, hbad])
      · obtain ⟨hvalid, hother⟩ := not_or.mp hbad
        exact ⟨a, rfl, by simpa using hvalid, hother⟩

/-- The letter, with what it takes of the arguments, sets a parameter. -/
def SetsParam (name : Text) (t : Signed Text) : Prop :=
  t.add = true ∧ t.letter ∈ mlockParams ∧ Taken name t

instance (name : Text) (t : Signed Text) : Decidable (SetsParam name t) :=
  inferInstanceAs (Decidable (_ ∧ _))

/-- What one letter of a lock takes of the arguments and of the buffers. -/
theorem applyLetter_lockable (hsvc : svc.isService = true) (chan : Channel) (sign : Bool) {c : Char}
    (hc : Lockable c) (args : List Text) :
    (applyLetter srv svc true chan sign c args).chan =
        svcLetter srv svc chan ⟨sign, c, if takesArg sign c then args.head? else none⟩ ∧
      (applyLetter srv svc true chan sign c args).args =
        (if takesArg sign c then args.tail else args) ∧
      ∀ p, (applyLetter srv svc true chan sign c args).emit = some p →
        p.toList.length ≤ if SetsParam chan.name
          ⟨sign, c, if takesArg sign c then args.head? else none⟩ then 1 else 0 := by
  rcases hc with hc | hc
  · obtain ⟨b, hb⟩ := flagBit_of_mem hc
    have htakes : ∀ c ∈ mlockFlags, takesArg sign c = false ∧ c ∉ mlockParams := by
      cases sign <;> decide
    obtain ⟨hno, hnp⟩ := htakes c hc
    have hcount : ¬ SetsParam chan.name ⟨sign, c, none⟩ := fun h => hnp h.2.1
    rw [if_neg (show ¬ takesArg sign c = true by rw [hno]; decide), if_neg hcount]
    simp only [svcLetter, hno, applyLetter_svc hsvc chan sign _ hb, applyFlag]
    split
    · exact ⟨rfl, rfl, fun p hp => absurd hp (by simp [Letter.skip])⟩
    · split
      · exact ⟨rfl, rfl, fun p hp => by simp [← Option.some.inj hp]⟩
      · exact ⟨rfl, rfl, fun p hp => by simp [← Option.some.inj hp]⟩
  · obtain ⟨hchan, hargs⟩ := @applyParam_pairs srv svc hsvc chan sign c hc args
    refine ⟨hchan, hargs, fun p hp => ?_⟩
    cases sign with
    | true =>
      have htakes : ∀ c ∈ mlockParams, takesArg true c = true := by decide
      rw [if_pos (htakes c hc), if_pos ⟨rfl, hc, applyParam_taken hsvc chan hc args hp⟩]
      cases p <;> simp
    | false =>
      have hparams : ∀ c ∈ mlockParams, (removes c).isSome ∧ c ≠ 'r' := by decide
      obtain ⟨hsome, hr⟩ := hparams c hc
      obtain ⟨b, hb⟩ := Option.isSome_iff_exists.mp hsome
      rw [(applyLetter_removes srv svc chan args hb hr).2.2 p hp]
      exact Nat.zero_le _

theorem isLetter_of_lockable {c : Char} (h : Lockable c) : IsLetter c := by
  have hflags : ∀ c ∈ mlockFlags, IsLetter c := by decide
  have hparams : ∀ c ∈ mlockParams, IsLetter c := by decide
  exact h.elim (hflags c) (hparams c)

theorem modeChar_lockable (hsvc : svc.isService = true) (s : ModeRun) {c : Char} (hc : Lockable c) :
    (modeChar srv svc true s c).chan = svcLetter srv svc s.chan
        ⟨s.sign, c, if takesArg s.sign c then s.args.head? else none⟩ ∧
      (modeChar srv svc true s c).args = (if takesArg s.sign c then s.args.tail else s.args) ∧
      (modeChar srv svc true s c).sign = s.sign ∧
      (modeChar srv svc true s c).used ≤ s.used + 1 ∧
      (modeChar srv svc true s c).outparams.length ≤
        s.outparams.length + if SetsParam s.chan.name
          ⟨s.sign, c, if takesArg s.sign c then s.args.head? else none⟩ then 1 else 0 := by
  obtain ⟨hchan, hargs, hemit⟩ := @applyLetter_lockable srv svc hsvc s.chan s.sign c hc s.args
  cases he : (applyLetter srv svc true s.chan s.sign c s.args).emit with
  | none =>
    rw [modeChar_of_emit_none (isLetter_of_lockable hc) he]
    exact ⟨hchan, hargs, rfl, Nat.le_succ _, Nat.le_add_right ..⟩
  | some p =>
    rw [modeChar_of_emit_some (isLetter_of_lockable hc) he]
    refine ⟨hchan, hargs, rfl, ?_, ?_⟩
    · by_cases hcur : s.cursign = some s.sign
      · simp [ModeRun.used, encodeOne, hcur]
      · simp [ModeRun.used, encodeOne, hcur]
    · have hone := hemit p he
      simp only [List.length_append]
      omega

/-- How many of some letters set a parameter. -/
def paramsSet (name : Text) (ts : List (Signed Text)) : Nat := ts.countP fun t => SetsParam name t

theorem paramsSet_cons (name : Text) (t : Signed Text) (ts : List (Signed Text)) :
    paramsSet name (t :: ts) = (if SetsParam name t then 1 else 0) + paramsSet name ts := by
  rw [paramsSet, List.countP_cons, Nat.add_comm]
  simp only [decide_eq_true_eq]
  rfl

/-- Signs alone change nothing, whether there is room for more or not. -/
theorem modeLoop_signs : ∀ (cs : Text) (s : ModeRun), (∀ c ∈ cs, c = '+' ∨ c = '-') →
    (modeLoop srv svc true cs s).chan = s.chan
  | [], _, _ => rfl
  | c :: cs, s, hcs => by
    rw [modeLoop]
    split
    · rfl
    · rw [modeLoop_signs cs _ fun x hx => hcs x (List.mem_cons_of_mem _ hx)]
      rcases hcs c List.mem_cons_self with rfl | rfl <;> rfl

/-- A service's loop over letters of a lock goes through them all, while the buffers have room for
the last one. -/
theorem modeLoop_walk (hsvc : svc.isService = true) : ∀ (cs : Text) (s : ModeRun),
    (∀ c ∈ cs, c = '+' ∨ c = '-' ∨ Lockable c) → s.used + cs.length ≤ 62 →
    s.outparams.length + paramsSet s.chan.name (walk takesArg s.sign cs s.args).dropLast <
      maxModeParams →
    (modeLoop srv svc true cs s).chan =
      (walk takesArg s.sign cs s.args).foldl (svcLetter srv svc) s.chan
  | [], _, _, _, _ => rfl
  | c :: cs, s, hcs, hused, hparams => by
    have hrest : ∀ c ∈ cs, c = '+' ∨ c = '-' ∨ Lockable c :=
      fun x hx => hcs x (List.mem_cons_of_mem _ hx)
    have hle : s.outflags.length ≤ s.used := Nat.le_add_right ..
    rw [List.length_cons] at hused
    have hroom : ¬ s.full := by
      rintro (h | h) <;> omega
    rw [modeLoop, if_neg hroom]
    rcases hcs c List.mem_cons_self with rfl | rfl | hc
    · have hu : (modeChar srv svc true s '+').used ≤ s.used + 1 := by
        simp only [modeChar, if_true, ModeRun.used]
        split <;> split <;> omega
      exact modeLoop_walk hsvc cs (modeChar srv svc true s '+') hrest (by omega) hparams
    · have hu : (modeChar srv svc true s '-').used ≤ s.used + 1 := by
        simp only [modeChar, Char.reduceEq, if_true, if_false, ModeRun.used]
        split <;> split <;> omega
      exact modeLoop_walk hsvc cs (modeChar srv svc true s '-') hrest (by omega) hparams
    · obtain ⟨hchan, hargs, hsign, hu, hp⟩ := @modeChar_lockable srv svc hsvc s c hc
      have hwalk : walk takesArg s.sign (c :: cs) s.args =
          ⟨s.sign, c, if takesArg s.sign c then s.args.head? else none⟩ ::
            walk takesArg s.sign cs (if takesArg s.sign c then s.args.tail else s.args) := by
        rw [walk_letter (isLetter_of_lockable hc)]
        split
        · rfl
        · rfl
      have hname : (modeChar srv svc true s c).chan.name = s.chan.name := by
        rw [hchan, name_svcLetter]
      rw [hwalk] at hparams
      rw [hwalk, List.foldl_cons, ← hchan, ← hargs]
      rw [← hargs, ← hsign] at hparams
      rw [← hsign]
      generalize hmore :
        walk takesArg (modeChar srv svc true s c).sign cs (modeChar srv svc true s c).args = more
          at hparams ⊢
      cases more with
      | nil =>
        -- there may be no room for another letter, but none comes
        exact modeLoop_signs cs _ (signs_of_walk_nil hmore)
      | cons t ts =>
        rw [List.dropLast_cons_cons, paramsSet_cons] at hparams
        have hloop := modeLoop_walk hsvc cs (modeChar srv svc true s c) hrest (by omega) (by
          rw [hmore, hname]
          simp only [hsign] at hparams hp ⊢
          omega)
        rw [hloop, hmore]

end Letter

end SekurIRCd
