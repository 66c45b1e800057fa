/-
# SVCRESET: what a takeover reset really clears

When ChanServ judges that a registered channel was taken over while nobody vetted it, it sends
SVCRESET, and the handler in `link.c` takes the channel back to the server's default modes "with
empty ban/exception/invite lists, so whatever the grabber set is gone".  It does so by driving
the MODE command: one call that removes the flags and parameters, then, list by list, calls that
remove twelve entries each.

The MODE command stops after six parameters.  So the second half of every chunk survives, and a
list is emptied only if it has at most six entries (`removeChunks_eq_nil_iff`).  Nor does the
handler set a default flag that the grabber had removed.  `svcReset_clean_iff` states exactly
when the reset does what it is for.

The list half is a small algorithm of its own, `removeMasks`: remove entries under a budget,
skipping those the command skips.  The command's loop is shown to run it
(`modeLoop_removes`), and everything else is about lists.
-/
import SekurIRCd.Mode.Command
import Mathlib.Data.Finset.Image

namespace SekurIRCd

open CLib CLib.Signed

/-! ## 1. The handler

The handler makes MODE strings and has them applied for a service, so all it does is done by the
command. -/

/-- The flags a reset removes: never `r` (ChanServ's), `P` or `O` (oper-set). -/
def resetLetters : Text := "imnpstzCTSVQNRMcDuGK".toList

/-- The flag letters that are set and are not among the default modes. -/
def resetFlags (srv : Server) (chan : Channel) : Text :=
  resetLetters.filter fun c =>
    (channelFlagBit c).any (· ∈ chan.modes) && decide (c ∉ srv.defaultModes)

/-- The parameters that are set.  `k` comes first. -/
def resetParams (chan : Channel) : Text :=
  ([(CMode.k, 'k'), (.l, 'l'), (.flood, 'f'), (.jthrot, 'j'), (.redirect, 'L')].filter
    fun x => x.1 ∈ chan.modes).map Prod.snd

/-- The first call, for the flags and parameters; at most 25 letters fit its 48 bytes. -/
def resetModes (srv : Server) (svc : Client) (chan : Channel) : Channel :=
  let ms := resetFlags srv chan ++ resetParams chan
  if ms = [] then chan
  else (cmdApplyChannelMode srv svc chan ('-' :: ms)
    (if .k ∈ chan.modes then [['*']] else []) true).chan

/-- The calls for one list, over the snapshot `masks` of its entries. -/
def resetList (srv : Server) (svc : Client) (kind : ListKind) : Nat → List Text → Channel →
    Channel
  | _, [], chan => chan
  | 0, _ :: _, chan => chan
  | fuel + 1, masks@(_ :: _), chan =>
    let la := masks.take 12
    resetList srv svc kind fuel (masks.drop 12)
      (cmdApplyChannelMode srv svc chan ('-' :: List.replicate la.length kind.letter) la true).chan

/-- The SVCRESET handler, for a channel that exists. -/
def svcReset (srv : Server) (svc : Client) (chan : Channel) : Channel :=
  [ListKind.ban, .exception, .invex].foldl
    (fun chan kind => resetList srv svc kind (chan.list kind).length (chan.list kind) chan)
    (resetModes srv svc chan)

/-! ## 2. The first call

The first call has only removals, and their number is bounded by the number of modes, so it always
comes to its end. -/

/-- What a letter of the first call removes. -/
def removes (c : Char) : Option CMode :=
  match channelFlagBit c with
  | some b => some b
  | none => if c = 'k' then some .k else if c = 'l' then some .l else if c = 'f' then some .flood
    else if c = 'j' then some .jthrot else if c = 'L' then some .redirect else none

/-- The lists of two channels are the same. -/
def SameLists (a b : Channel) : Prop := ∀ kind, a.list kind = b.list kind

theorem SameLists.trans {a b c : Channel} (h1 : SameLists a b) (h2 : SameLists b c) :
    SameLists a c := fun kind => (h1 kind).trans (h2 kind)

theorem applyFlag_removes (chan : Channel) (b : CMode) (args : List Text) :
    (applyFlag chan false b args).chan.modes = chan.modes.erase b ∧
      SameLists (applyFlag chan false b args).chan chan ∧
      ∀ p, (applyFlag chan false b args).emit = some p → p = none := by
  unfold applyFlag
  by_cases hb : b ∈ chan.modes
  · simp only [hb, decide_true, Bool.false_eq_true, if_false, Letter.done]
    refine ⟨?_, ?_, fun p hp => (Option.some.inj hp).symm⟩
    · split <;> rfl
    · intro kind
      split <;> cases kind <;> rfl
  · simp only [hb, decide_false, if_true, Letter.skip]
    exact ⟨(Finset.erase_eq_of_notMem hb).symm, fun _ => rfl, fun p hp => absurd hp (by simp)⟩

/-- Under a minus sign a letter of the first call removes its mode, changes no list and is
announced without a parameter. -/
theorem applyLetter_removes (srv : Server) (svc : Client) (chan : Channel) (args : List Text)
    {c : Char} {b : CMode} (hc : removes c = some b) (hr : c ≠ 'r') :
    (applyLetter srv svc true chan false c args).chan.modes = chan.modes.erase b ∧
      SameLists (applyLetter srv svc true chan false c args).chan chan ∧
      ∀ p, (applyLetter srv svc true chan false c args).emit = some p → p = none := by
  rw [applyLetter, if_neg (by simp [hr]), if_neg (by simp), if_neg (by simp)]
  unfold removes at hc
  cases hf : channelFlagBit c with
  | some b' =>
    rw [hf] at hc
    obtain rfl := Option.some.inj hc
    exact applyFlag_removes chan b' args
  | none =>
    rw [hf] at hc
    simp only at hc ⊢
    have hset : ∀ {x : Channel} {as : List Text}, x.modes = chan.modes.erase b →
        SameLists x chan → (Letter.done x as none).chan.modes = chan.modes.erase b ∧
          SameLists (Letter.done x as none).chan chan ∧
          ∀ p, (Letter.done x as none).emit = some p → p = none :=
      fun h1 h2 => ⟨h1, h2, fun p hp => (Option.some.inj hp).symm⟩
    have hskip : ∀ {as : List Text}, b ∉ chan.modes →
        (Letter.skip chan as).chan.modes = chan.modes.erase b ∧
          SameLists (Letter.skip chan as).chan chan ∧
          ∀ p, (Letter.skip chan as).emit = some p → p = none :=
      fun h => ⟨(Finset.erase_eq_of_notMem h).symm, fun _ => rfl, fun p hp => absurd hp (by simp [Letter.skip])⟩
    have hlists : ∀ {x : Channel}, x.bans = chan.bans → x.exceptions = chan.exceptions →
        x.invex = chan.invex → SameLists x chan := fun h1 h2 h3 kind => by
      cases kind <;> assumption
    split at hc
    · rename_i h
      obtain rfl := Option.some.inj hc
      simp only [h, applyKey, Char.reduceEq, if_true, if_false, Bool.false_eq_true]
      split
      · rename_i hm; exact hskip hm
      · exact hset rfl (hlists rfl rfl rfl)
    · split at hc
      · rename_i h
        obtain rfl := Option.some.inj hc
        simp only [h, applyLimit, Char.reduceEq, if_true, if_false, Bool.false_eq_true]
        split
        · rename_i hm; exact hskip hm
        · exact hset rfl (hlists rfl rfl rfl)
      · split at hc
        · rename_i h
          obtain rfl := Option.some.inj hc
          simp only [h, applyFlood, Char.reduceEq, if_true, if_false, Bool.false_eq_true]
          split
          · rename_i hm; exact hskip hm
          · exact hset rfl (hlists rfl rfl rfl)
        · split at hc
          · rename_i h
            obtain rfl := Option.some.inj hc
            simp only [h, applyJthrot, Char.reduceEq, if_true, if_false, Bool.false_eq_true]
            split
            · rename_i hm; exact hskip hm
            · exact hset rfl (hlists rfl rfl rfl)
          · split at hc
            · rename_i h
              obtain rfl := Option.some.inj hc
              simp only [h, applyRedirect, if_true, if_false, Bool.false_eq_true]
              split
              · rename_i hm; exact hskip hm
              · exact hset rfl (hlists rfl rfl rfl)
            · exact absurd hc (by simp)

theorem modeLoop_minus (srv : Server) (cl : Client) (full : Bool) (ms : Text) (chan : Channel)
    (args : List Text) :
    modeLoop srv cl full ('-' :: ms) (ModeRun.start chan args) =
      modeLoop srv cl full ms ⟨chan, args, false, none, [], [], []⟩ := rfl

theorem isLetter_of_removes {c : Char} {b : CMode} (h : removes c = some b) : IsLetter c := by
  have hp : removes '+' = none := by decide
  have hm : removes '-' = none := by decide
  constructor
  · rintro rfl
    exact absurd (hp.symm.trans h) (by simp)
  · rintro rfl
    exact absurd (hm.symm.trans h) (by simp)

/-- **A run of removals removes them all**, as long as the flags buffer has room. -/
theorem modeLoop_removes_modes (srv : Server) (svc : Client) : ∀ (ls : Text) (s : ModeRun),
    (∀ c ∈ ls, c ≠ 'r' ∧ ∃ b, removes c = some b) → s.sign = false → s.outparams = [] →
    s.outflags.length + (if s.cursign = some false then 0 else 1) + ls.length ≤ 61 →
    (∀ b, b ∈ (modeLoop srv svc true ls s).chan.modes ↔
        b ∈ s.chan.modes ∧ ∀ c ∈ ls, removes c ≠ some b) ∧
      SameLists (modeLoop srv svc true ls s).chan s.chan
  | [], s, _, _, _, _ => ⟨fun b => by simp [modeLoop], fun _ => rfl⟩
  | c :: ls, s, hls, hsign, hout, hlen => by
    obtain ⟨hr, b, hb⟩ := hls c (by simp)
    have hl := isLetter_of_removes hb
    have hroom : ¬ s.full := by
      rintro (h | h)
      · simp only [List.length_cons] at hlen
        omega
      · rw [hout] at h
        exact absurd h (by decide)
    obtain ⟨hmodes, hlists, hemit⟩ := applyLetter_removes srv svc s.chan s.args hb hr
    rw [← hsign] at hmodes hlists hemit
    have hrest : (modeChar srv svc true s c).chan =
          (applyLetter srv svc true s.chan s.sign c s.args).chan ∧
        (modeChar srv svc true s c).sign = false ∧
        (modeChar srv svc true s c).outparams = [] ∧
        (modeChar srv svc true s c).outflags.length +
          (if (modeChar srv svc true s c).cursign = some false then 0 else 1) ≤
          s.outflags.length + (if s.cursign = some false then 0 else 1) + 1 := by
      cases he : (applyLetter srv svc true s.chan s.sign c s.args).emit with
      | none =>
        rw [modeChar_of_emit_none hl he]
        exact ⟨rfl, hsign, hout, Nat.le_succ _⟩
      | some p =>
        rw [modeChar_of_emit_some hl he, hemit p he]
        refine ⟨rfl, hsign, by simp [hout], ?_⟩
        by_cases hcur : s.cursign = some false
        · simp [encodeOne, hcur, hsign]
        · simp [encodeOne, hcur, hsign]
    obtain ⟨ih1, ih2⟩ := modeLoop_removes_modes srv svc ls (modeChar srv svc true s c)
      (fun x hx => hls x (List.mem_cons_of_mem _ hx)) hrest.2.1 hrest.2.2.1
      (by have := hrest.2.2.2; simp only [List.length_cons] at hlen; omega)
    rw [modeLoop, if_neg hroom]
    refine ⟨fun b' => ?_, ih2.trans (hrest.1 ▸ hlists)⟩
    rw [ih1 b', hrest.1, hmodes, Finset.mem_erase]
    simp only [List.mem_cons, forall_eq_or_imp, hb, Option.some.injEq, ne_eq]
    constructor
    · rintro ⟨⟨h1, h2⟩, h3⟩
      exact ⟨h2, fun h => h1 h.symm, h3⟩
    · rintro ⟨h2, h1, h3⟩
      exact ⟨⟨fun h => h1 h.symm, h2⟩, h3⟩

theorem mem_resetFlags {srv : Server} {chan : Channel} {c : Char} :
    c ∈ resetFlags srv chan ↔ c ∈ resetLetters ∧
      (∃ b, channelFlagBit c = some b ∧ b ∈ chan.modes) ∧ c ∉ srv.defaultModes := by
  simp only [resetFlags, List.mem_filter, Bool.and_eq_true, decide_eq_true_eq,
    Option.any_eq_true]

theorem mem_resetParams {chan : Channel} {c : Char} (h : c ∈ resetParams chan) :
    c ∈ ['k', 'l', 'f', 'j', 'L'] := by
  obtain ⟨x, hx, rfl⟩ := List.mem_map.mp h
  have hall : ∀ x ∈ [(CMode.k, 'k'), (.l, 'l'), (.flood, 'f'), (.jthrot, 'j'), (.redirect, 'L')],
      x.2 ∈ ['k', 'l', 'f', 'j', 'L'] := by decide
  exact hall x (List.mem_of_mem_filter hx)

/-- The parameter modes and their letters. -/
def paramModes : List CMode := [.k, .l, .flood, .jthrot, .redirect]

theorem removes_of_bit {c : Char} {b : CMode} (h : channelFlagBit c = some b) :
    removes c = some b := by
  simp [removes, h]

/-- The letters of the first call are all removals, and not `r`. -/
theorem resetModes_letters {srv : Server} {chan : Channel} :
    ∀ c ∈ resetFlags srv chan ++ resetParams chan, c ≠ 'r' ∧ ∃ b, removes c = some b := by
  intro c hc
  rcases List.mem_append.mp hc with hc | hc
  · obtain ⟨hl, ⟨b, hb, -⟩, -⟩ := mem_resetFlags.mp hc
    have hnr : ∀ c ∈ resetLetters, c ≠ 'r' := by decide
    exact ⟨hnr c hl, b, removes_of_bit hb⟩
  · have hall : ∀ c ∈ ['k', 'l', 'f', 'j', 'L'], c ≠ 'r' ∧ (removes c).isSome = true := by decide
    obtain ⟨h1, h2⟩ := hall c (mem_resetParams hc)
    exact ⟨h1, Option.isSome_iff_exists.mp h2⟩

theorem resetModes_length (srv : Server) (chan : Channel) :
    (resetFlags srv chan ++ resetParams chan).length ≤ 25 := by
  have h1 : (resetFlags srv chan).length ≤ 20 := List.length_filter_le _ _
  have h2 : (resetParams chan).length ≤ 5 := by
    rw [resetParams, List.length_map]
    exact List.length_filter_le _ _
  rw [List.length_append]
  omega

/-- **What the first call leaves**: a mode stays unless one of its letters names it. -/
theorem resetModes_spec (srv : Server) (svc : Client) (chan : Channel) :
    (∀ b, b ∈ (resetModes srv svc chan).modes ↔ b ∈ chan.modes ∧
        ∀ c ∈ resetFlags srv chan ++ resetParams chan, removes c ≠ some b) ∧
      SameLists (resetModes srv svc chan) chan := by
  unfold resetModes
  by_cases hms : resetFlags srv chan ++ resetParams chan = []
  · simp only [hms, if_true]
    exact ⟨fun b => by simp, fun _ => rfl⟩
  · simp only [if_neg hms]
    rw [cmdApplyChannelMode_chan, modeLoop_minus]
    have hlen := resetModes_length srv chan
    exact modeLoop_removes_modes srv svc _ _ resetModes_letters rfl rfl
      (by simp only [List.length_nil, reduceCtorEq, if_false]; omega)

theorem resetModes_params (srv : Server) (svc : Client) (chan : Channel) :
    ∀ b ∈ paramModes, b ∉ (resetModes srv svc chan).modes := by
  intro b hb hmem
  obtain ⟨hset, hno⟩ := ((resetModes_spec srv svc chan).1 b).mp hmem
  have hin : ∀ x ∈ [(CMode.k, 'k'), (.l, 'l'), (.flood, 'f'), (.jthrot, 'j'), (.redirect, 'L')],
      removes x.2 = some x.1 := by decide
  have hall : ∀ b ∈ paramModes, ∃ x ∈ [(CMode.k, 'k'), (.l, 'l'), (.flood, 'f'), (.jthrot, 'j'),
      (.redirect, 'L')], x.1 = b := by decide
  obtain ⟨x, hx, rfl⟩ := hall b hb
  refine hno x.2 (List.mem_append.mpr (Or.inr ?_)) (hin x hx)
  exact List.mem_map.mpr ⟨x, List.mem_filter.mpr ⟨hx, by simpa using hset⟩, rfl⟩

/-- A flag the reset deals with stays exactly when it was set and is a default mode. -/
theorem resetModes_flag (srv : Server) (svc : Client) (chan : Channel) {c : Char} {b : CMode}
    (hc : c ∈ resetLetters) (hb : channelFlagBit c = some b) :
    b ∈ (resetModes srv svc chan).modes ↔ b ∈ chan.modes ∧ c ∈ srv.defaultModes := by
  rw [(resetModes_spec srv svc chan).1 b]
  constructor
  · rintro ⟨hset, hno⟩
    refine ⟨hset, ?_⟩
    by_contra hd
    exact hno c (List.mem_append.mpr (Or.inl (mem_resetFlags.mpr ⟨hc, ⟨b, hb, hset⟩, hd⟩)))
      (removes_of_bit hb)
  · rintro ⟨hset, hd⟩
    refine ⟨hset, fun x hx hrem => ?_⟩
    rcases List.mem_append.mp hx with hx | hx
    · obtain ⟨-, ⟨b', hb', -⟩, hnd⟩ := mem_resetFlags.mp hx
      rw [removes_of_bit hb'] at hrem
      obtain rfl := Option.some.inj hrem
      rw [← flagLetter_of_bit hb', flagLetter_of_bit hb] at hnd
      exact hnd hd
    · have hall : ∀ y ∈ ['k', 'l', 'f', 'j', 'L'], ∀ z ∈ flagLetters, removes y ≠ some z.2 := by
        decide
      exact hall x (mem_resetParams hx) _ (mem_flagLetters hb) hrem

/-! ## 3. Removing entries under a budget

How many entries of a list a chunk removes is a question about the list: names are spelled anew,
and the budget counts those that are found. -/

/-- The removals of one MODE command over a list: `budget` of them at most, passing over masks with
a space and masks whose canonical spelling is not in the list. -/
def removeMasks : Nat → List Text → List Text → List Text
  | _, [], l => l
  | 0, _ :: _, l => l
  | budget + 1, m :: ms, l =>
    if ' ' ∈ m then removeMasks (budget + 1) ms l
    else match masklistDel l (channelNormalizeMask m) with
      | none => removeMasks (budget + 1) ms l
      | some l' => removeMasks budget ms l'

/-- The chunks of a whole list. -/
def removeChunks : Nat → List Text → List Text → List Text
  | _, [], l => l
  | 0, _ :: _, l => l
  | fuel + 1, masks@(_ :: _), l =>
    removeChunks fuel (masks.drop 12) (removeMasks maxModeParams (masks.take 12) l)

theorem removeMasks_zero (ms l : List Text) : removeMasks 0 ms l = l := by
  cases ms <;> rfl

/-- No more entries go than the budget allows or masks are named. -/
theorem removeMasks_length (budget : Nat) (ms l : List Text) :
    l.length ≤ (removeMasks budget ms l).length + min budget ms.length := by
  induction ms generalizing budget l with
  | nil => simp [removeMasks]
  | cons m ms ih =>
    cases budget with
    | zero => simp [removeMasks]
    | succ budget =>
      have hskip := ih (budget + 1) l
      rw [removeMasks]
      simp only [List.length_cons]
      split
      · omega
      · split
        · omega
        · rename_i l' hl'
          have hlen := masklistDel_length hl'
          have := ih budget l'
          omega

/-- Over all chunks, a chunk of more than six loses some. -/
theorem removeChunks_length : ∀ (fuel : Nat) (masks l : List Text),
    l.length ≤ (removeChunks fuel masks l).length + masks.length ∧
      (6 < masks.length → l.length < (removeChunks fuel masks l).length + masks.length)
  | _, [], l => by simp [removeChunks]
  | 0, m :: ms, l => by simp [removeChunks]
  | fuel + 1, m :: ms, l => by
    have h := removeMasks_length maxModeParams ((m :: ms).take 12) l
    obtain ⟨ih, -⟩ := removeChunks_length fuel ((m :: ms).drop 12)
      (removeMasks maxModeParams ((m :: ms).take 12) l)
    rw [removeChunks]
    simp only [List.length_take, List.length_drop, List.length_cons, maxModeParams] at h ih ⊢
    omega

theorem masklistDel_perm {l l' : List Text} {mask : Text} (h : masklistDel l mask = some l') :
    (l.map lower).Perm (lower mask :: l'.map lower) := by
  unfold masklistDel at h
  split at h
  · rename_i hany
    obtain ⟨m, hm, he⟩ := List.any_eq_true.mp hany
    obtain ⟨a, l₁, l₂, -, ha, hsplit, herase⟩ := List.exists_of_eraseP (p := (caseEq · mask)) hm he
    rw [← Option.some.inj h, herase, hsplit]
    simp only [List.map_append, List.map_cons]
    rw [← caseEq_iff.mp ha]
    exact List.perm_middle
  · exact absurd h (by simp)

/-- Every entry of a list can be named for removal: none has a space, and the canonical
spellings of the entries are, up to case and order, the entries. -/
def Removable (l : List Text) : Prop :=
  l.length ≤ maxModeParams ∧ (∀ m ∈ l, ' ' ∉ m) ∧
    (l.map fun m => lower (channelNormalizeMask m)).Perm (l.map lower)

/-- **Within its budget, a run of as many names as there are entries empties the list exactly
when every name finds its own entry.** -/
theorem removeMasks_eq_nil_iff (budget : Nat) (ms l : List Text) (hb : ms.length ≤ budget)
    (hlen : ms.length = l.length) :
    removeMasks budget ms l = [] ↔ (∀ m ∈ ms, ' ' ∉ m) ∧
      (ms.map fun m => lower (channelNormalizeMask m)).Perm (l.map lower) := by
  induction ms generalizing budget l with
  | nil =>
    have hl : l = [] := List.length_eq_zero_iff.mp hlen.symm
    simp [removeMasks, hl]
  | cons m ms ih =>
    obtain ⟨budget, rfl⟩ : ∃ k, budget = k + 1 := ⟨budget - 1, by simp at hb; omega⟩
    simp only [List.length_cons] at hb hlen
    -- a name that takes nothing out leaves one entry more than there are names
    have hstuck : removeMasks (budget + 1) ms l ≠ [] := by
      intro hnil
      have := removeMasks_length (budget + 1) ms l
      rw [hnil, List.length_nil] at this
      omega
    rw [removeMasks]
    by_cases hsp : ' ' ∈ m
    · rw [if_pos hsp]
      exact ⟨fun h => absurd h hstuck, fun h => absurd hsp (h.1 m (by simp))⟩
    · rw [if_neg hsp]
      cases hdel : masklistDel l (channelNormalizeMask m) with
      | none =>
        refine ⟨fun h => absurd h hstuck, fun h => ?_⟩
        have hmem := h.2.mem_iff.mp (List.mem_map.mpr ⟨m, by simp, rfl⟩)
        obtain ⟨x, hx, hxm⟩ := List.mem_map.mp hmem
        have hno := masklistDel_eq_none hdel x hx
        rw [caseEq_iff.mpr hxm] at hno
        exact absurd hno (by simp)
      | some l' =>
        have hl' := masklistDel_length hdel
        have hperm := masklistDel_perm hdel
        rw [ih budget l' (by omega) (by omega)]
        constructor
        · rintro ⟨h1, h2⟩
          refine ⟨fun x hx => ?_, (h2.cons _).trans hperm.symm⟩
          rcases List.mem_cons.mp hx with rfl | hx
          · exact hsp
          · exact h1 x hx
        · rintro ⟨h1, h2⟩
          exact ⟨fun x hx => h1 x (List.mem_cons_of_mem _ hx), (h2.trans hperm).cons_inv⟩

/-- **A list is emptied exactly when it is `Removable`.** -/
theorem removeChunks_eq_nil_iff (l : List Text) :
    removeChunks l.length l l = [] ↔ Removable l := by
  cases l with
  | nil => simp [removeChunks, Removable]
  | cons m ms =>
    by_cases hlen : (m :: ms).length ≤ maxModeParams
    · have h12 : (m :: ms).length ≤ 12 := le_trans hlen (by decide)
      have hone : removeChunks (m :: ms).length (m :: ms) (m :: ms) =
          removeMasks maxModeParams (m :: ms) (m :: ms) := by
        rw [List.length_cons, removeChunks, List.drop_eq_nil_of_le h12,
          List.take_of_length_le h12]
        cases ms.length <;> rfl
      rw [hone, removeMasks_eq_nil_iff _ _ _ hlen rfl]
      exact ⟨fun h => ⟨hlen, h.1, h.2⟩, fun h => ⟨h.2.1, h.2.2⟩⟩
    · refine ⟨fun h => ?_, fun h => absurd h.1 hlen⟩
      have hlt := (removeChunks_length (m :: ms).length (m :: ms) (m :: ms)).2
        (by simp only [maxModeParams] at hlen; omega)
      rw [h] at hlt
      simp at hlt

/-! ## 4. The command runs it

The loop of the command over a run of list letters, with its two buffers, is this algorithm. -/

theorem applyLetter_list (srv : Server) (cl : Client) (chan : Channel) (sign : Bool)
    (kind : ListKind) (args : List Text) :
    applyLetter srv cl true chan sign kind.letter args = applyList chan sign kind args := by
  have hflag : channelFlagBit kind.letter = none := by cases kind <;> decide
  have hrank : rankBit kind.letter = none := by cases kind <;> decide
  have hlist : listKind kind.letter = some kind := by cases kind <;> decide
  rw [applyLetter, hflag, hrank, hlist]
  cases kind <;> simp [ListKind.letter]

theorem isLetter_list (kind : ListKind) : IsLetter kind.letter := by
  cases kind <;> decide

/-- **The loop over a run of list letters is `removeMasks`.** -/
theorem modeLoop_removes (srv : Server) (svc : Client) (kind : ListKind) (ms : List Text) :
    ∀ s : ModeRun, s.sign = false → s.args = ms → s.outparams.length ≤ maxModeParams →
      s.outflags.length ≤ 2 * s.outparams.length →
      (modeLoop srv svc true (List.replicate ms.length kind.letter) s).chan =
        s.chan.setList kind
          (removeMasks (maxModeParams - s.outparams.length) ms (s.chan.list kind)) := by
  induction ms with
  | nil => intro s _ _ _ _; simp [modeLoop, removeMasks]
  | cons m ms ih =>
    intro s hsign hargs hout hflags
    rw [List.length_cons, List.replicate_succ, modeLoop]
    by_cases hfull : s.full
    · have h6 : maxModeParams - s.outparams.length = 0 := by
        rcases hfull with h | h
        · simp only [maxModeParams] at *
          omega
        · omega
      rw [if_pos hfull, h6, removeMasks_zero, setList_self]
    · obtain ⟨k, hk⟩ : ∃ k, maxModeParams - s.outparams.length = k + 1 := by
        refine ⟨maxModeParams - s.outparams.length - 1, ?_⟩
        have : ¬ maxModeParams ≤ s.outparams.length := fun h => hfull (Or.inr h)
        omega
      rw [if_neg hfull, hk, removeMasks]
      have hl := isLetter_list kind
      have happ : applyLetter srv svc true s.chan s.sign kind.letter s.args =
          applyList s.chan false kind (m :: ms) := by
        rw [applyLetter_list, hsign, hargs]
      -- a mask that is passed over changes nothing but the arguments left
      have hpass : applyList s.chan false kind (m :: ms) = .skip s.chan ms →
          (modeLoop srv svc true (List.replicate ms.length kind.letter)
            (modeChar srv svc true s kind.letter)).chan =
          s.chan.setList kind (removeMasks (k + 1) ms (s.chan.list kind)) := by
        intro hskip
        rw [hskip] at happ
        rw [modeChar_of_emit_none hl (by rw [happ]; rfl), happ, ← hk]
        exact ih _ hsign rfl hout hflags
      by_cases hsp : ' ' ∈ m
      · rw [if_pos hsp]
        exact hpass (by simp [applyList, hsp])
      · rw [if_neg hsp]
        cases hdel : masklistDel (s.chan.list kind) (channelNormalizeMask m) with
        | none => exact hpass (by simp [applyList, hsp, hdel])
        | some l' =>
          have hdone : applyList s.chan false kind (m :: ms) =
              .done (s.chan.setList kind l') ms (some (clip 256 (channelNormalizeMask m))) := by
            simp [applyList, hsp, hdel]
          rw [hdone] at happ
          rw [modeChar_of_emit_some hl (p := some (clip 256 (channelNormalizeMask m)))
            (by rw [happ]; rfl), happ]
          have hlen := (encodeOne_length s.cursign
            (⟨s.sign, kind.letter, some (clip 256 (channelNormalizeMask m))⟩ : Signed Text)).2
          refine (ih _ (by exact hsign) rfl ?_ ?_).trans ?_
          · simp only [List.length_append, Option.toList_some, List.length_singleton]
            omega
          · simp only [List.length_append, Option.toList_some, List.length_singleton]
            omega
          simp only [Letter.done, setList_setList, list_setList, if_true, List.length_append,
            Option.toList_some, List.length_singleton]
          rw [show maxModeParams - (s.outparams.length + 1) = k by omega]

theorem resetList_eq (srv : Server) (svc : Client) (kind : ListKind) :
    ∀ (fuel : Nat) (masks : List Text) (chan : Channel),
      resetList srv svc kind fuel masks chan =
        chan.setList kind (removeChunks fuel masks (chan.list kind))
  | _, [], chan => by simp [resetList, removeChunks]
  | 0, _ :: _, chan => by simp [resetList, removeChunks]
  | fuel + 1, m :: ms, chan => by
    have hrun := modeLoop_removes srv svc kind ((m :: ms).take 12)
      ⟨chan, (m :: ms).take 12, false, none, [], [], []⟩ rfl rfl (Nat.zero_le _) (Nat.zero_le _)
    rw [resetList, removeChunks, cmdApplyChannelMode_chan, modeLoop_minus, hrun,
      resetList_eq srv svc kind fuel, setList_setList, list_setList, if_pos rfl]
    rfl

/-- What the handler leaves, list by list: `resetModes` does not touch the lists, and the calls
for one list do not touch another. -/
theorem svcReset_spec (srv : Server) (svc : Client) (chan : Channel) :
    (svcReset srv svc chan).modes = (resetModes srv svc chan).modes ∧
      ∀ kind, (svcReset srv svc chan).list kind =
        removeChunks (chan.list kind).length (chan.list kind) (chan.list kind) := by
  have hsame := (resetModes_spec srv svc chan).2
  simp only [svcReset, List.foldl_cons, List.foldl_nil, resetList_eq, modes_setList, true_and]
  intro kind
  cases kind <;> simp only [list_setList, reduceCtorEq, if_true, if_false, hsame _]

/-! ## 5. When a reset is complete -/

/-- Flags a reset leaves alone: ChanServ's `r` and the oper-set `P` and `O`. -/
def keptFlags : List CMode := [.r, .perm, .operonly]

/-- **What a reset is for**: empty lists, no parameters, and, apart from `r`, `P` and `O`, the
flags of the default modes. -/
structure ResetClean (srv : Server) (chan : Channel) : Prop where
  lists : ∀ kind, chan.list kind = []
  params : ∀ b ∈ paramModes, b ∉ chan.modes
  flags : ∀ c b, channelFlagBit c = some b → b ∉ keptFlags →
    (b ∈ chan.modes ↔ c ∈ srv.defaultModes)

/-- When it succeeds: every list can be removed in one go, and no default flag is missing. It is
asked of the channel as the grabber left it. -/
structure Resettable (srv : Server) (chan : Channel) : Prop where
  lists : ∀ kind, Removable (chan.list kind)
  defaults : ∀ c b, channelFlagBit c = some b → b ∉ keptFlags → c ∈ srv.defaultModes →
    b ∈ chan.modes

theorem mem_resetLetters {c : Char} {b : CMode} (hb : channelFlagBit c = some b)
    (hk : b ∉ keptFlags) : c ∈ resetLetters := by
  have hall : ∀ x ∈ flagLetters, x.2 ∉ keptFlags → x.1 ∈ resetLetters := by decide
  exact hall (c, b) (mem_flagLetters hb) hk

/-- **SVCRESET leaves nothing of the grabber exactly when** each list has at most six entries, all
of which the MODE command can name, and the grabber left the default flags set. The entries go by
lines of twelve letters, of which the ircd carries out six. -/
theorem svcReset_clean_iff (srv : Server) (svc : Client) (chan : Channel) :
    ResetClean srv (svcReset srv svc chan) ↔ Resettable srv chan := by
  obtain ⟨hmodes, hlists⟩ := svcReset_spec srv svc chan
  constructor
  · intro h
    refine ⟨fun kind => ?_, fun c b hb hk hd => ?_⟩
    · rw [← removeChunks_eq_nil_iff, ← hlists kind]
      exact h.lists kind
    · have hmem := (h.flags c b hb hk).mpr hd
      rw [hmodes, resetModes_flag srv svc chan (mem_resetLetters hb hk) hb] at hmem
      exact hmem.1
  · intro h
    refine ⟨fun kind => ?_, fun b hb => ?_, fun c b hb hk => ?_⟩
    · rw [hlists kind, removeChunks_eq_nil_iff]
      exact h.lists kind
    · rw [hmodes]
      exact resetModes_params srv svc chan b hb
    · rw [hmodes, resetModes_flag srv svc chan (mem_resetLetters hb hk) hb]
      exact ⟨And.right, fun hd => ⟨h.defaults c b hb hk hd, hd⟩⟩

theorem sevenBans_name : ircValidChannel "#c".toList 50 = true := by decide

/-- A grabber's channel with seven bans: the reset leaves the last. -/
def sevenBans : Channel :=
  { Settings.none with
    modes := {.n, .t}
    bans := ["a!b@1", "a!b@2", "a!b@3", "a!b@4", "a!b@5", "a!b@6", "a!b@7"].map String.toList
    name := "#c".toList, nameValid := sevenBans_name, topic := [], topicSetter := [], topicTime := 0
    created := 1
    members := [] }

theorem sevenBans_not_clean :
    ¬ ∀ (srv : Server) (svc : Client) (chan : Channel),
      ResetClean srv (svcReset srv svc chan) := by
  intro h
  have hclean := h ⟨"1AA".toList, "irc.test".toList, [], ⟨[], by decide⟩, "nt".toList⟩
    ⟨"ChanServ".toList, "chanserv".toList, "s".toList, "s".toList, [], [], false, true, false,
      true⟩ sevenBans
  have hbans := (hclean.lists .ban)
  rw [(svcReset_spec _ _ _).2 .ban, removeChunks_eq_nil_iff] at hbans
  exact absurd hbans.1 (by decide)

end SekurIRCd
