/-
# How long flood protection lasts

An item of `+f` may name how many minutes its action mode stays: `10j#i5` sets `+i` when too many
join, for five minutes.  The time of the removal is kept in the flood settings themselves
(`unset_at`, beside the counters), and `cmd_channels_tick` looks there.  But the settings are
replaced as a whole whenever `+f` is set, also to what it already is: by MODE, by a MODE line from
another server, and by the SJOIN of a relink.  The removal that was due is then forgotten, and the
mode stays.

`flood_mode_temporary` says that this is the only way.  Whatever happens to the channel between the
trigger and the first tick at or after the removal time, the mode is off after that tick if the
settings were not replaced; and if they were, and nobody touched the mode, it is still on.

The `~t:` entries that the tick also removes have their own module (`BanExpiry`).
-/
import SekurIRCd.Lib.Runs
import SekurIRCd.Mode.Change
import SekurIRCd.Net.Channels
import Mathlib.Logic.Function.Basic

namespace SekurIRCd

open CLib

namespace FloodTimer

/-! ## 1. The settings with their counters

The settings and their counters are one object in the code, and this is what goes wrong: who
replaces the one replaces the other. -/

/-- The counters of `floodprot_t`, by item: `start`, `count` and `unset_at`, which is 0 when no
removal is due. -/
structure Timers where
  start : Nat → Int
  count : Nat → Nat
  unsetAt : Nat → Int

/-- What a new `floodprot_t` starts from. -/
def Timers.zero : Timers := ⟨fun _ => 0, fun _ => 0, fun _ => 0⟩

/-- A channel with the counters of its flood settings, and `last` of `cmd_channels_tick`, which is
the same for all channels. -/
structure Guarded extends Channel where
  timers : Timers
  last : Int

/-- The mode that an item sets. -/
def actionBit (f : FloodProt) (i : Nat) : Option CMode := channelFlagBit (f.action.getD i '\x00')

def limitOf (f : FloodProt) (i : Nat) : Int := f.limit.getD i 0

def unsetMinsOf (f : FloodProt) (i : Nat) : Int := f.unsetMins.getD i 0

/-! ## 2. What happens to it

Events of the channel, changes of its modes, SJOINs and ticks. An action mode is set by the server
itself, without a MODE command. -/

/-- The events of item `i` in its window so far; a window that is over starts again. -/
def Guarded.counted (g : Guarded) (i : Nat) (now : Nat) : Nat :=
  if g.flood.secs ≤ now - g.timers.start i then 0 else g.timers.count i

/-- `f->start[i]` after the look at the window. -/
def Guarded.started (g : Guarded) (i : Nat) (now : Nat) : Int :=
  if g.flood.secs ≤ now - g.timers.start i then now else g.timers.start i

/-- The action of item `i`: its mode is set, if it is not, and its removal scheduled. -/
def Guarded.act (g : Guarded) (f : FloodProt) (i : Nat) (now : Nat) : Guarded :=
  match actionBit f i with
  | none => g
  | some bit =>
    if bit ∈ g.modes then g
    else
      let g := { g with modes := insert bit g.modes }
      if unsetMinsOf f i ≠ 0 then
        { g with timers := { g.timers with
            unsetAt := Function.update g.timers.unsetAt i (now + unsetMinsOf f i * 60) } }
      else g

/-- `channel_flood_event`, and whether the limit was just exceeded. A window that is over starts
again, and so does the count after the event that exceeds the limit, at which the
action is taken. -/
def Guarded.channelFloodEvent (g : Guarded) (type : Char) (now : Nat) : Guarded × Bool :=
  match g.flood.fp with
  | none => (g, false)
  | some f =>
    let i := fpTypes.idxOf type
    if type ∉ fpTypes ∨ limitOf f i = 0 then (g, false)
    else
      let n := g.counted i now + 1
      let start := Function.update g.timers.start i (g.started i now)
      let counted (n : Nat) : Guarded := { g with timers := { g.timers with
        start := start, count := Function.update g.timers.count i n } }
      if n ≤ limitOf f i then (counted n, false) else ((counted 0).act f i now, true)

/-- One change of MODE, SAMODE, the services' MODE or a MODE line from another server.  `+f` makes
a new `floodprot_t` and `-f` frees it. -/
def Guarded.mode (g : Guarded) (ch : Change) : Guarded :=
  { g with
    toChannel := ch.apply g.toChannel
    timers := match ch with
      | .flood _ => Timers.zero
      | _ => g.timers }

/-- `set_state_modes` comes to an `f` that `channel_set_flood` accepts. -/
def readsFlood : Text → List Text → Bool
  | [], _ => false
  | c :: cs, args =>
    if c = '+' ∨ c = '-' then readsFlood cs args
    else match channelFlagBit c with
    | some _ => readsFlood cs args
    | none =>
      match args with
      | [] => false
      | a :: args => (decide (c = 'f') && (parseFlood a).isSome) || readsFlood cs args

/-- `set_state_modes`, for the SJOIN of another server. -/
def Guarded.stateModes (g : Guarded) (modes : Text) (args : List Text) (replace : Bool) : Guarded :=
  { g with
    toChannel := setStateModes g.toChannel modes args replace
    timers := if replace || readsFlood modes args then Timers.zero else g.timers }

/-- The removal of item `i` is not due: there is none, or it is for later. -/
def Idle (g : Guarded) (now : Nat) (i : Nat) : Prop :=
  g.timers.unsetAt i = 0 ∨ now < g.timers.unsetAt i

instance (g : Guarded) (now i : Nat) : Decidable (Idle g now i) :=
  inferInstanceAs (Decidable (_ ∨ _))

/-- The loop body of `cmd_channels_tick` for item `i`. -/
def unsetItem (f : FloodProt) (now : Nat) (g : Guarded) (i : Nat) : Guarded :=
  if Idle g now i then g
  else
    let g := { g with timers := { g.timers with
      unsetAt := Function.update g.timers.unsetAt i 0 } }
    match actionBit f i with
    | none => g
    | some bit => if bit ∈ g.modes then { g with modes := g.modes.erase bit } else g

/-- A tick has an effect every five seconds; one that comes earlier returns at once. -/
def Guarded.Effective (g : Guarded) (now : Nat) : Prop := 5 ≤ now - g.last

instance (g : Guarded) (now : Nat) : Decidable (g.Effective now) :=
  inferInstanceAs (Decidable (_ ≤ _))

/-- `cmd_channels_tick`. It looks at a channel every five seconds at most, and a removal that is
due waits for it. -/
def Guarded.channelsTick (g : Guarded) (now : Nat) : Guarded :=
  if g.Effective now then
    let g := { g with last := (now : Int) }
    match g.flood.fp with
    | none => g
    | some f => (List.range 7).foldl (unsetItem f now) g
  else g

/-- What happens to a channel. Only what can touch `+f`, its timers or the modes is told apart, and
the rest may do anything else. -/
inductive Event
  /-- A join, a knock, a message, a CTCP or a change of nick. -/
  | flood (type : Char) (now : Nat)
  | mode (ch : Change)
  | sjoin (modes : Text) (args : List Text) (replace : Bool)
  | tick (now : Nat)
  /-- The members, the topic and the name become what they will. -/
  | rest (chan : Channel)

def step (g : Guarded) : Event → Guarded
  | .flood type now => (g.channelFloodEvent type now).1
  | .mode ch => g.mode ch
  | .sjoin modes args replace => g.stateModes modes args replace
  | .tick now => g.channelsTick now
  | .rest chan => { g with toChannel := { chan with toSettings := g.toSettings } }

/-! ## 3. Triggers

The statement has a trigger, a stretch of steps, and a tick. The condition is on the steps of the
stretch. -/

/-- The limit of the item is exceeded and its mode `b` thereby set. -/
structure Guarded.Sets (g : Guarded) (type : Char) (now : Nat) (f : FloodProt) (b : CMode) :
    Prop where
  settings : g.flood.fp = some f
  known : type ∈ fpTypes
  limited : limitOf f (fpTypes.idxOf type) ≠ 0
  exceeded : limitOf f (fpTypes.idxOf type) < (g.counted (fpTypes.idxOf type) now + 1 : Nat)
  bit : actionBit f (fpTypes.idxOf type) = some b
  off : b ∉ g.modes

/-- And the item names the time `T` of its removal. -/
def Guarded.Triggers (g : Guarded) (type : Char) (now : Nat) (b : CMode) (T : Int) : Prop :=
  ∃ f, g.Sets type now f b ∧ 0 < unsetMinsOf f (fpTypes.idxOf type) ∧
    T = now + unsetMinsOf f (fpTypes.idxOf type) * 60

/-- **The condition**: the step does not replace or clear the flood settings, and does not trigger
item `i` again, whose removal time is then the new one. -/
def Keeps (i : Nat) (g : Guarded) : Event → Prop
  | .mode (.flood _) => False
  | .sjoin modes args replace => replace = false ∧ readsFlood modes args = false
  | .flood type now => fpTypes.idxOf type = i → ∀ f b, ¬ g.Sets type now f b
  | _ => True

/-- No tick at or after `T` has an effect yet. -/
def NotYet (T : Int) (g : Guarded) : Event → Prop
  | .tick now => g.Effective now → now < T
  | _ => True

/-- Whoever changes modes leaves the mode `b` on. It is asked of commands and of lines from other
servers, not of the timers. -/
def LeavesOn (b : CMode) (g : Guarded) (e : Event) : Prop :=
  match e with
  | .mode _ | .sjoin .. => b ∈ (step g e).modes
  | _ => True

/-! ## 4. What one step can do -/

section OneStep

variable {g : Guarded} {f : FloodProt} {b : CMode} {i : Nat} {now : Nat} {T : Int}

/-- An event leaves modes and removals as they are, or it sets the mode of its item. -/
theorem channelFloodEvent_cases (g : Guarded) (type : Char) (now : Nat) :
    (g.channelFloodEvent type now).1.flood = g.flood ∧
    (((g.channelFloodEvent type now).1.modes = g.modes ∧
        (g.channelFloodEvent type now).1.timers.unsetAt = g.timers.unsetAt) ∨
      ∃ f b, g.Sets type now f b ∧
        (g.channelFloodEvent type now).1.modes = insert b g.modes ∧
        (g.channelFloodEvent type now).1.timers.unsetAt =
          if unsetMinsOf f (fpTypes.idxOf type) ≠ 0 then
            Function.update g.timers.unsetAt (fpTypes.idxOf type)
              (now + unsetMinsOf f (fpTypes.idxOf type) * 60)
          else g.timers.unsetAt) := by
  unfold Guarded.channelFloodEvent
  cases hf : g.flood.fp with
  | none => exact ⟨rfl, .inl ⟨rfl, rfl⟩⟩
  | some f =>
    dsimp only
    by_cases hno : type ∉ fpTypes ∨ limitOf f (fpTypes.idxOf type) = 0
    · rw [if_pos hno]
      exact ⟨rfl, .inl ⟨rfl, rfl⟩⟩
    rw [if_neg hno]
    rw [not_or, not_not] at hno
    by_cases hle : ((g.counted (fpTypes.idxOf type) now + 1 : Nat) : Int) ≤
        limitOf f (fpTypes.idxOf type)
    · rw [if_pos hle]
      exact ⟨rfl, .inl ⟨rfl, rfl⟩⟩
    rw [if_neg hle]
    unfold Guarded.act
    cases hb : actionBit f (fpTypes.idxOf type) with
    | none => exact ⟨rfl, .inl ⟨rfl, rfl⟩⟩
    | some b =>
      dsimp only
      by_cases hon : b ∈ g.modes
      · rw [if_pos hon]
        exact ⟨rfl, .inl ⟨rfl, rfl⟩⟩
      rw [if_neg hon]
      have hsets : g.Sets type now f b := ⟨hf, hno.1, hno.2, not_le.mp hle, hb, hon⟩
      by_cases hm : unsetMinsOf f (fpTypes.idxOf type) ≠ 0
      · rw [if_pos hm]
        exact ⟨rfl, .inr ⟨f, b, hsets, rfl, by rw [if_pos hm]⟩⟩
      · rw [if_neg hm]
        exact ⟨rfl, .inr ⟨f, b, hsets, rfl, by rw [if_neg hm]⟩⟩

theorem apply_flood {ch : Change} (h : ∀ v, ch ≠ .flood v) (chan : Channel) :
    (ch.apply chan).flood = chan.flood := by
  cases ch with
  | flag on b =>
    cases on with
    | true => rfl
    | false =>
      simp only [Change.apply]
      split <;> rfl
  | key v => cases v <;> rfl
  | limit v => cases v <;> rfl
  | redirect v => cases v <;> rfl
  | flood v => exact absurd rfl (h v)
  | jthrot v => cases v <;> rfl
  | mask on kind m => cases on <;> cases kind <;> rfl
  | rank on b uid nick => rfl

/-- A change that does not replace the settings keeps their counters. -/
theorem mode_keeps {ch : Change} (h : ∀ v, ch ≠ .flood v) :
    (g.mode ch).flood = g.flood ∧ (g.mode ch).timers = g.timers := by
  refine ⟨apply_flood h g.toChannel, ?_⟩
  unfold Guarded.mode
  cases ch <;> first | rfl | exact absurd rfl (h _)

theorem stateParam_keeps_flood {c : Char} {a : Text} (s : Settings)
    (h : (decide (c = 'f') && (parseFlood a).isSome) = false) :
    (stateParam s c a).flood = s.flood := by
  unfold stateParam
  split
  · rfl
  split
  · rfl
  split
  · rename_i hf
    have hnone : parseFlood a = none := by simpa [hf] using h
    rw [hnone]
  split
  · split <;> rfl
  split <;> rfl

theorem stateLoop_keeps_flood : ∀ (cs : Text) (args : List Text) (s : Settings),
    readsFlood cs args = false → (stateLoop cs args s).flood = s.flood
  | [], _, _, _ => rfl
  | c :: cs, args, s, h => by
    rw [readsFlood.eq_def] at h
    dsimp only at h
    by_cases hs : c = '+' ∨ c = '-'
    · rw [if_pos hs] at h
      rw [stateLoop_sign hs, stateLoop_keeps_flood cs args s h]
    rw [if_neg hs] at h
    rw [not_or] at hs
    cases hb : channelFlagBit c with
    | some bit =>
      rw [hb] at h
      rw [stateLoop_flag hs hb, stateLoop_keeps_flood cs args _ h]
    | none =>
      rw [hb] at h
      cases args with
      | nil => rw [stateLoop, if_neg (by simpa using hs), hb]
      | cons a args =>
        rw [Bool.or_eq_false_iff] at h
        rw [stateLoop_param hs hb, stateLoop_keeps_flood cs args _ h.2,
          stateParam_keeps_flood s h.1]

theorem stateModes_keeps {modes : Text} {args : List Text} (h : readsFlood modes args = false) :
    (g.stateModes modes args false).flood = g.flood ∧
      (g.stateModes modes args false).timers = g.timers := by
  refine ⟨stateLoop_keeps_flood modes args _ h, ?_⟩
  rw [Guarded.stateModes, h]
  rfl

end OneStep

/-! ## 5. A tick -/

section Tick

variable {f : FloodProt} {b : CMode} {now : Nat}

theorem unsetItem_idle {g : Guarded} {i : Nat} (h : Idle g now i) : unsetItem f now g i = g :=
  if_pos h

theorem unsetItem_due {g : Guarded} {i : Nat} (h : ¬ Idle g now i) :
    (unsetItem f now g i).flood = g.flood ∧
    (unsetItem f now g i).last = g.last ∧
    (unsetItem f now g i).timers.unsetAt = Function.update g.timers.unsetAt i 0 ∧
    (unsetItem f now g i).modes = match actionBit f i with
      | none => g.modes
      | some bit => g.modes.erase bit := by
  rw [unsetItem, if_neg h]
  cases actionBit f i with
  | none => exact ⟨rfl, rfl, rfl, rfl⟩
  | some bit =>
    dsimp only
    by_cases hon : bit ∈ g.modes
    · rw [if_pos hon]
      exact ⟨rfl, rfl, rfl, rfl⟩
    · rw [if_neg hon]
      exact ⟨rfl, rfl, rfl, (Finset.erase_eq_of_notMem hon).symm⟩

theorem unsetItem_flood (g : Guarded) (i : Nat) :
    (unsetItem f now g i).flood = g.flood ∧ (unsetItem f now g i).last = g.last := by
  by_cases h : Idle g now i
  · rw [unsetItem_idle h]
    exact ⟨rfl, rfl⟩
  · exact ⟨(unsetItem_due h).1, (unsetItem_due h).2.1⟩

theorem unsetItem_modes (g : Guarded) (i : Nat) : (unsetItem f now g i).modes ⊆ g.modes := by
  by_cases h : Idle g now i
  · rw [unsetItem_idle h]
  · rw [(unsetItem_due h).2.2.2]
    cases actionBit f i with
    | none => exact Finset.Subset.refl _
    | some bit => exact Finset.erase_subset _ _

theorem unsetItem_unsetAt (g : Guarded) {i j : Nat} (h : j ≠ i ∨ Idle g now j) :
    (unsetItem f now g i).timers.unsetAt j = g.timers.unsetAt j := by
  by_cases hi : Idle g now i
  · rw [unsetItem_idle hi]
  · have hji : j ≠ i := h.elim id fun hj heq => hi (heq ▸ hj)
    rw [(unsetItem_due hi).2.2.1, Function.update_of_ne hji]

theorem foldl_unsetItem_flood : ∀ (l : List Nat) (g : Guarded),
    (l.foldl (unsetItem f now) g).flood = g.flood ∧
      (l.foldl (unsetItem f now) g).last = g.last
  | [], _ => ⟨rfl, rfl⟩
  | i :: l, g => by
    obtain ⟨hflood, hlast⟩ := @unsetItem_flood f now g i
    obtain ⟨ihflood, ihlast⟩ := foldl_unsetItem_flood l (unsetItem f now g i)
    exact ⟨ihflood.trans hflood, ihlast.trans hlast⟩

theorem foldl_unsetItem_modes : ∀ (l : List Nat) (g : Guarded),
    (l.foldl (unsetItem f now) g).modes ⊆ g.modes
  | [], _ => Finset.Subset.refl _
  | i :: l, g => (foldl_unsetItem_modes l (unsetItem f now g i)).trans (unsetItem_modes g i)

theorem foldl_unsetItem_idle {j : Nat} : ∀ (l : List Nat) (g : Guarded), Idle g now j →
    (l.foldl (unsetItem f now) g).timers.unsetAt j = g.timers.unsetAt j
  | [], _, _ => rfl
  | i :: l, g, h => by
    have hstep : (unsetItem f now g i).timers.unsetAt j = g.timers.unsetAt j :=
      unsetItem_unsetAt g (.inr h)
    have hidle : Idle (unsetItem f now g i) now j := by rwa [Idle, hstep]
    exact (foldl_unsetItem_idle l _ hidle).trans hstep

/-- **What is due is off afterwards.** -/
theorem foldl_unsetItem_off {j : Nat} (hb : actionBit f j = some b) : ∀ (l : List Nat)
    (g : Guarded), j ∈ l → ¬ Idle g now j → b ∉ (l.foldl (unsetItem f now) g).modes
  | [], _, hj, _ => absurd hj List.not_mem_nil
  | i :: l, g, hj, hdue => by
    by_cases hji : j = i
    · subst hji
      have hoff : b ∉ (unsetItem f now g j).modes := by
        rw [(unsetItem_due hdue).2.2.2, hb]
        exact Finset.notMem_erase b _
      exact fun h => hoff (foldl_unsetItem_modes l _ h)
    · have hstep : (unsetItem f now g i).timers.unsetAt j = g.timers.unsetAt j :=
        unsetItem_unsetAt g (.inl hji)
      have hdue' : ¬ Idle (unsetItem f now g i) now j := by rwa [Idle, hstep]
      exact foldl_unsetItem_off hb l _ ((List.mem_cons.mp hj).resolve_left hji) hdue'

theorem foldl_unsetItem_on : ∀ (l : List Nat) (g : Guarded),
    (∀ j, actionBit f j = some b → Idle g now j) → b ∈ g.modes →
    b ∈ (l.foldl (unsetItem f now) g).modes
  | [], _, _, hon => hon
  | i :: l, g, hidle, hon => by
    refine foldl_unsetItem_on l (unsetItem f now g i) (fun j hj => ?_) ?_
    · have hstep : (unsetItem f now g i).timers.unsetAt j = g.timers.unsetAt j :=
        unsetItem_unsetAt g (.inr (hidle j hj))
      rw [Idle, hstep]
      exact hidle j hj
    · by_cases hi : Idle g now i
      · rwa [unsetItem_idle hi]
      · rw [(unsetItem_due hi).2.2.2]
        cases hbit : actionBit f i with
        | none => exact hon
        | some bit =>
          have hne : b ≠ bit := fun heq => hi (hidle i (heq ▸ hbit))
          exact Finset.mem_erase.mpr ⟨hne, hon⟩

end Tick

/-! ## 6. The removal stays scheduled -/

section Scheduled

variable {g : Guarded} {e : Event} {type : Char} {b : CMode} {i now : Nat} {T : Int}

/-- The removal of mode `b` by item `i` is scheduled for `T`. -/
structure Pending (g : Guarded) (i : Nat) (b : CMode) (T : Int) : Prop where
  item : ∃ f, g.flood.fp = some f ∧ actionBit f i = some b
  due : g.timers.unsetAt i = T

theorem channelFloodEvent_sets {f : FloodProt} (h : g.Sets type now f b)
    (hm : unsetMinsOf f (fpTypes.idxOf type) ≠ 0) :
    (g.channelFloodEvent type now).1.flood = g.flood ∧
    (g.channelFloodEvent type now).1.modes = insert b g.modes ∧
    (g.channelFloodEvent type now).1.timers.unsetAt =
      Function.update g.timers.unsetAt (fpTypes.idxOf type)
        (now + unsetMinsOf f (fpTypes.idxOf type) * 60) := by
  have hno : ¬ (type ∉ fpTypes ∨ limitOf f (fpTypes.idxOf type) = 0) :=
    not_or.mpr ⟨not_not.mpr h.known, h.limited⟩
  simp only [Guarded.channelFloodEvent, h.settings, if_neg hno, if_neg (not_le.mpr h.exceeded),
    Guarded.act, h.bit, if_neg h.off, if_pos hm, and_self]

theorem trigger_pending (h : g.Triggers type now b T) :
    Pending (step g (.flood type now)) (fpTypes.idxOf type) b T ∧
      b ∈ (step g (.flood type now)).modes := by
  obtain ⟨f, hs, hm, rfl⟩ := h
  obtain ⟨hflood, hmodes, hunset⟩ := channelFloodEvent_sets hs hm.ne'
  refine ⟨⟨⟨f, ?_, hs.bit⟩, ?_⟩, ?_⟩
  · rw [step, hflood]
    exact hs.settings
  · rw [step, hunset, Function.update_self]
  · rw [step, hmodes]
    exact Finset.mem_insert_self b _

theorem tick_effective {f : FloodProt} (hf : g.flood.fp = some f) (h : g.Effective now) :
    g.channelsTick now = (List.range 7).foldl (unsetItem f now) { g with last := (now : Int) } := by
  rw [Guarded.channelsTick, if_pos h]
  simp only [hf]

/-- **One step** that keeps the settings keeps the removal scheduled. -/
theorem step_pending (h : Pending g i b T) (hk : Keeps i g e) (hn : NotYet T g e) :
    Pending (step g e) i b T := by
  obtain ⟨⟨f, hf, hb⟩, hdue⟩ := h
  cases e with
  | flood type now =>
    obtain ⟨hflood, hcase⟩ := channelFloodEvent_cases g type now
    refine ⟨⟨f, (congrArg Flood.fp hflood).trans hf, hb⟩, ?_⟩
    rcases hcase with ⟨-, hunset⟩ | ⟨f', b', hs, -, hunset⟩
    · exact (congrFun hunset i).trans hdue
    · have hne : i ≠ fpTypes.idxOf type := fun heq => hk heq.symm f' b' hs
      refine (congrFun hunset i).trans ?_
      split
      · rw [Function.update_of_ne hne, hdue]
      · exact hdue
  | mode ch =>
    have hch : ∀ v, ch ≠ .flood v := fun v hv => by
      rw [hv] at hk
      exact hk
    obtain ⟨hflood, htimers⟩ := @mode_keeps g ch hch
    exact ⟨⟨f, (congrArg Flood.fp hflood).trans hf, hb⟩, by rw [step, htimers, hdue]⟩
  | sjoin modes args replace =>
    obtain ⟨rfl, hreads⟩ := hk
    obtain ⟨hflood, htimers⟩ := @stateModes_keeps g modes args hreads
    exact ⟨⟨f, (congrArg Flood.fp hflood).trans hf, hb⟩, by rw [step, htimers, hdue]⟩
  | tick now =>
    rw [step]
    by_cases heff : g.Effective now
    · rw [tick_effective hf heff]
      have hidle : Idle { g with last := (now : Int) } now i := .inr (hdue ▸ hn heff)
      refine ⟨⟨f, ?_, hb⟩, (foldl_unsetItem_idle _ _ hidle).trans hdue⟩
      rw [(foldl_unsetItem_flood _ _).1]
      exact hf
    · rw [Guarded.channelsTick, if_neg heff]
      exact ⟨⟨f, hf, hb⟩, hdue⟩
  | rest chan => exact ⟨⟨f, hf, hb⟩, hdue⟩

/-- The first tick that finds the removal due makes it. -/
theorem tick_off (h : Pending g i b T) (hi : i < 7) (hT : T ≠ 0) (hle : T ≤ now)
    (heff : g.Effective now) : b ∉ (g.channelsTick now).modes := by
  obtain ⟨⟨f, hf, hb⟩, hdue⟩ := h
  rw [tick_effective hf heff]
  refine foldl_unsetItem_off hb _ _ (List.mem_range.mpr hi) ?_
  rintro (h0 | hlt)
  · exact hT (hdue.symm.trans h0)
  · exact absurd (hdue ▸ hlt) (not_lt.mpr hle)

end Scheduled

/-! ## 7. When it is forgotten

The other way: once the removal is forgotten there is nothing that would switch the mode off. -/

section Forgotten

variable {g : Guarded} {e : Event} {type : Char} {b : CMode} {i now : Nat} {T : Int}
  {o : Option Nat}

/-- No item but `o` has a removal of mode `b` scheduled. Two items may set the same mode, and the
removal that comes first takes it off for both. -/
def Alone (g : Guarded) (b : CMode) (o : Option Nat) : Prop :=
  ∀ f, g.flood.fp = some f → ∀ j, some j ≠ o → actionBit f j = some b → g.timers.unsetAt j = 0

theorem alone_zero (h : g.timers = Timers.zero) : Alone g b o := fun _ _ j _ _ => by
  rw [h]
  rfl

theorem alone_of_eq {g' : Guarded} (h : Alone g b o) (hflood : g'.flood = g.flood)
    (htimers : g'.timers.unsetAt = g.timers.unsetAt) : Alone g' b o := fun f hf j hj hb => by
  rw [htimers]
  exact h f (hflood ▸ hf) j hj hb

/-- A mode with no removal due stays on as long as whoever changes modes leaves it on. -/
theorem step_stays (hon : b ∈ g.modes) (halone : Alone g b o) (hl : LeavesOn b g e)
    (hquiet : ∀ i, o = some i → ∀ now, e = .tick now → g.Effective now → Idle g now i) :
    b ∈ (step g e).modes ∧ Alone (step g e) b o := by
  cases e with
  | flood type now =>
    obtain ⟨hflood, hcase⟩ := channelFloodEvent_cases g type now
    rcases hcase with ⟨hmodes, hunset⟩ | ⟨f', b', hs, hmodes, hunset⟩
    · exact ⟨hmodes ▸ hon, alone_of_eq halone hflood hunset⟩
    · refine ⟨hmodes ▸ Finset.mem_insert_of_mem hon, fun f hf j hj hb => ?_⟩
      obtain rfl : f' = f := Option.some.inj
        (hs.settings.symm.trans ((congrArg Flood.fp hflood).symm.trans hf))
      have hne : j ≠ fpTypes.idxOf type := fun heq => by
        have hbb : b' = b := Option.some.inj ((heq ▸ hs.bit).symm.trans hb)
        exact hs.off (hbb ▸ hon)
      refine (congrFun hunset j).trans ?_
      split
      · rw [Function.update_of_ne hne]
        exact halone f' hs.settings j hj hb
      · exact halone f' hs.settings j hj hb
  | mode ch =>
    refine ⟨hl, ?_⟩
    by_cases hch : ∃ v, ch = .flood v
    · obtain ⟨v, rfl⟩ := hch
      exact alone_zero rfl
    · obtain ⟨hflood, htimers⟩ := @mode_keeps g ch fun v hv => hch ⟨v, hv⟩
      exact alone_of_eq halone hflood (congrArg Timers.unsetAt htimers)
  | sjoin modes args replace =>
    refine ⟨hl, ?_⟩
    by_cases hr : (replace || readsFlood modes args) = true
    · exact alone_zero (if_pos hr)
    · rw [Bool.or_eq_true, not_or, Bool.not_eq_true, Bool.not_eq_true] at hr
      obtain ⟨rfl, hreads⟩ := hr
      obtain ⟨hflood, htimers⟩ := @stateModes_keeps g modes args hreads
      exact alone_of_eq halone hflood (congrArg Timers.unsetAt htimers)
  | tick now =>
    rw [step]
    by_cases heff : g.Effective now
    · cases hf : g.flood.fp with
      | none =>
        have htick : g.channelsTick now = { g with last := (now : Int) } := by
          rw [Guarded.channelsTick, if_pos heff]
          simp only [hf]
        rw [htick]
        exact ⟨hon, halone⟩
      | some f =>
        have hidle : ∀ j, actionBit f j = some b → Idle { g with last := (now : Int) } now j := by
          intro j hb
          by_cases hj : some j = o
          · exact hquiet j hj.symm now rfl heff
          · exact .inl (halone f hf j hj hb)
        rw [tick_effective hf heff]
        refine ⟨foldl_unsetItem_on _ _ hidle hon, fun f' hf' j hj hb => ?_⟩
        rw [(foldl_unsetItem_flood _ _).1] at hf'
        obtain rfl : f = f' := Option.some.inj (hf.symm.trans hf')
        rw [foldl_unsetItem_idle _ _ (hidle j hb)]
        exact halone f hf j hj hb
    · rw [Guarded.channelsTick, if_neg heff]
      exact ⟨hon, halone⟩
  | rest chan => exact ⟨hon, halone⟩

/-- **Forgotten.**  A step that replaces the settings leaves no removal scheduled. -/
theorem forgets (h : Pending g i b T) (hon : b ∈ g.modes) (hk : ¬ Keeps i g e) :
    Alone (step g e) b none := by
  obtain ⟨⟨f, hf, hb⟩, -⟩ := h
  cases e with
  | flood type now =>
    refine absurd (fun hi f' b' hs => ?_) hk
    obtain rfl := Option.some.inj (hf.symm.trans hs.settings)
    have hbb : b' = b := Option.some.inj ((hi ▸ hs.bit).symm.trans hb)
    exact hs.off (hbb ▸ hon)
  | mode ch =>
    cases ch with
    | flood v => exact alone_zero rfl
    | _ => exact absurd trivial hk
  | sjoin modes args replace =>
    by_cases hr : (replace || readsFlood modes args) = true
    · exact alone_zero (if_pos hr)
    · rw [Bool.or_eq_true, not_or, Bool.not_eq_true, Bool.not_eq_true] at hr
      exact absurd hr hk
  | tick now => exact absurd trivial hk
  | rest chan => exact absurd trivial hk

/-- A mode whose removal is forgotten stays on for good. -/
theorem run_stays (es : List Event) (hon : b ∈ g.modes) (halone : Alone g b none)
    (hl : Runs.Throughout step (LeavesOn b) g es) :
    b ∈ (es.foldl step g).modes ∧ Alone (es.foldl step g) b none :=
  @Runs.invariant_of_step _ _ step (LeavesOn b) (fun g => b ∈ g.modes ∧ Alone g b none)
    (fun _ _ h hl => step_stays h.1 h.2 hl fun _ ho => by simp at ho) es g ⟨hon, halone⟩ hl

/-- Either the whole run keeps the settings, or the mode stays. -/
theorem keeps_or_stays : ∀ (es : List Event) {g : Guarded}, Pending g i b T → b ∈ g.modes →
    Alone g b (some i) → Runs.Throughout step (NotYet T) g es →
    Runs.Throughout step (LeavesOn b) g es →
    Runs.Throughout step (Keeps i) g es ∨
      (b ∈ (es.foldl step g).modes ∧ Alone (es.foldl step g) b none)
  | [], _, _, _, _, _, _ => .inl trivial
  | e :: es, g, hp, hon, halone, hn, hl => by
    obtain ⟨hon', halone'⟩ := step_stays hon halone hl.1 fun j hj now he heff => by
      obtain rfl := Option.some.inj hj
      subst he
      exact .inr (hp.due ▸ hn.1 heff)
    by_cases hk : Keeps i g e
    · rcases keeps_or_stays es (step_pending hp hk hn.1) hon' halone' hn.2 hl.2 with h | h
      · exact .inl ⟨hk, h⟩
      · exact .inr h
    · exact .inr (run_stays es hon' (forgets hp hon hk) hl.2)

end Forgotten

/-! ## 8. Runs -/

theorem idxOf_type_lt {type : Char} (h : type ∈ fpTypes) : fpTypes.idxOf type < 7 :=
  List.idxOf_lt_length_iff.mpr h

/-- An item's removal time is never the 0 that stands for none. -/
theorem removal_pos {g : Guarded} {type : Char} {now : Nat} {b : CMode} {T : Int}
    (h : g.Triggers type now b T) : T ≠ 0 := by
  obtain ⟨f, -, hm, rfl⟩ := h
  omega

/-- The trigger leaves the other items as they were. -/
theorem trigger_alone {g : Guarded} {type : Char} {now : Nat} {b : CMode} {T : Int}
    (h : g.Triggers type now b T) (halone : Alone g b (some (fpTypes.idxOf type))) :
    Alone (step g (.flood type now)) b (some (fpTypes.idxOf type)) := by
  obtain ⟨f, hs, hm, -⟩ := h
  obtain ⟨hflood, -, hunset⟩ := channelFloodEvent_sets hs hm.ne'
  intro f' hf' j hj hb
  have hne : j ≠ fpTypes.idxOf type := fun heq => hj (congrArg some heq)
  refine (congrFun hunset j).trans ?_
  rw [Function.update_of_ne hne]
  exact halone f' ((congrArg Flood.fp hflood).symm.trans hf') j hj hb

/-- **When a flood mode is temporary.**  An event sets the mode of its item, which names a removal
time `T`; anything happens, up to the first tick at or after `T`.  If every step keeps the flood
settings, the mode is off after that tick.  And nothing less will do: where no other item was about
to remove the mode and whoever changed modes left it on, it is off only if every step kept them. -/
theorem flood_mode_temporary {g : Guarded} {type : Char} {now now' : Nat} {b : CMode} {T : Int}
    (es : List Event) (htrig : g.Triggers type now b T)
    (hfirst : Runs.Throughout step (NotYet T) (step g (.flood type now)) es)
    (hdue : T ≤ now') (heff : (es.foldl step (step g (.flood type now))).Effective now') :
    let i := fpTypes.idxOf type
    let g₁ := step g (.flood type now)
    let g₂ := step (es.foldl step g₁) (.tick now')
    (Runs.Throughout step (Keeps i) g₁ es → b ∉ g₂.modes) ∧
    (Alone g b (some i) → Runs.Throughout step (LeavesOn b) g₁ es → b ∉ g₂.modes →
      Runs.Throughout step (Keeps i) g₁ es) := by
  obtain ⟨hpend, hon⟩ := trigger_pending htrig
  refine ⟨fun hkeeps => ?_, fun halone hl hoff => ?_⟩
  · have hend : Pending (es.foldl step (step g (.flood type now))) (fpTypes.idxOf type) b T :=
      @Runs.invariant_of_step _ _ step
        (fun g e => Keeps (fpTypes.idxOf type) g e ∧ NotYet T g e)
        (fun g => Pending g (fpTypes.idxOf type) b T)
        (fun _ _ h hok => step_pending h hok.1 hok.2) es _ hpend
        (Runs.throughout_and es _ hkeeps hfirst)
    have hi : fpTypes.idxOf type < 7 := by
      obtain ⟨f, hs, -⟩ := htrig
      exact idxOf_type_lt hs.known
    exact tick_off hend hi (removal_pos htrig) hdue heff
  · refine (keeps_or_stays es hpend hon (trigger_alone htrig halone) hfirst hl).resolve_right ?_
    rintro ⟨hon', halone'⟩
    exact hoff (step_stays hon' halone' (e := .tick now') trivial fun _ ho => by simp at ho).1

/-- `+f [1j#i1]:15`. -/
def demoFlood : Flood :=
  ⟨0, 15, some ⟨"[1j#i1]:15".toList, [0, 1, 0, 0, 0, 0, 0],
    ['\x00', 'i', '\x00', '\x00', '\x00', '\x00', '\x00'], [0, 1, 0, 0, 0, 0, 0]⟩⟩

/-- A channel with these settings, where one has joined at the time 100. -/
def demoGuarded : Guarded :=
  step ⟨{ newChannel ['#', 'c'] (by decide) 0 with flood := demoFlood, modes := {.flood} },
    Timers.zero, 0⟩ (.flood 'j' 100)

theorem demo_triggers : demoGuarded.Triggers 'j' 101 .i 161 :=
  ⟨_, ⟨rfl, by decide, by decide, by decide, by decide, by decide⟩, by decide, by decide⟩

/-- Another mode is set, and a tick comes too early. -/
def demoLater : Guarded :=
  step (step (step demoGuarded (.flood 'j' 101)) (.mode (.flag true .m))) (.tick 130)

/-- A join then finds the channel closed already. -/
theorem demo_keeps_join : Keeps 1 demoLater (.flood 'j' 140) := by
  intro _ f b hs
  have hbit : (demoLater.flood.fp.bind fun f => actionBit f 1) = some .i := by decide
  rw [hs.settings, Option.bind_some] at hbit
  obtain rfl : b = .i := Option.some.inj (hs.bit.symm.trans hbit)
  exact hs.off (by decide)

theorem flood_mode_temporary_minute :
    .i ∉ (step ([.mode (.flag true .m), .tick 130, .flood 'j' 140].foldl step
      (step demoGuarded (.flood 'j' 101))) (.tick 200)).modes :=
  (flood_mode_temporary [.mode (.flag true .m), .tick 130, .flood 'j' 140] demo_triggers
    ⟨trivial, fun _ => by decide, trivial, trivial⟩ (by decide) (by decide)).1
    ⟨trivial, trivial, demo_keeps_join, trivial⟩

/-- **Set again, it stays.**  `+f` is set to what it is, and `+i` outlasts its minute. -/
theorem same_flood_stays : ¬ ∀ (g : Guarded) (type : Char) (now now' : Nat) (b : CMode) (T : Int)
    (es : List Event), g.Triggers type now b T →
    Runs.Throughout step (NotYet T) (step g (.flood type now)) es →
    Runs.Throughout step (LeavesOn b) (step g (.flood type now)) es →
    T ≤ now' → (es.foldl step (step g (.flood type now))).Effective now' →
    b ∉ (step (es.foldl step (step g (.flood type now))) (.tick now')).modes := by
  intro h
  have hon : CMode.i ∈ (step (step demoGuarded (.flood 'j' 101))
      (.mode (.flood (some demoFlood)))).modes := by decide
  refine h demoGuarded 'j' 101 200 .i 161 [.mode (.flood (some demoFlood))] demo_triggers
    ⟨trivial, trivial⟩ ⟨hon, trivial⟩ (by decide) (by decide) ?_
  decide

end FloodTimer

end SekurIRCd
