/-
# Who is messaged how often

`spam_track` remembers what a client sent last, as hashes of the target and of the text in 32 slots,
and says how many targets it messaged within the window and how many got the text it sends now.

A pair that is sent again is refreshed where it is, and a new one takes the next slot.  So what is
overwritten can be the pair that was sent last, with 31 behind it that are long over
(`refreshed_send_forgotten`).  Where nothing is overwritten that the window still needs, both numbers
are those of all that the client ever sent (`spamTrack_exact`).  Hashes fold case, and so do the
numbers.
-/
import SekurIRCd.BanCache
import SekurIRCd.Lib.RefreshRing
import Mathlib.Data.List.FinRange

namespace SekurIRCd

open CLib RefreshRing

/-! ## 1. The ring of a client

The ring is that of `Lib.RefreshRing`, with the two hashes as the key and the seconds
as the clock. -/

/-- `SPAM_TRACK`. -/
def spamTrackSize : Nat := 32

/-- The hash of a text with its case folded. -/
def fnvFolded (s : Text) : UInt32 := fnvText 2166136261 s

/-- `fnv`. -/
def fnv (s : Text) : UInt32 := fnvFolded (lower s)

/-- `spam_ring` and `spam_head`. -/
abbrev SpamRing := Ring (UInt32 × UInt32) spamTrackSize

def SpamRing.new : SpamRing := Ring.start (0, 0) (by decide)

/-- A message, with the text as it is without its codes. -/
structure SpamSend where
  target : Text
  text : Text
  time : Nat
deriving DecidableEq, Repr

def SpamSend.key (s : SpamSend) : UInt32 × UInt32 := (fnv s.target, fnv s.text)

/-- `spam_track`: the distinct targets, those with the same text, and the ring. The counting is
done on the ring as it is behind the message, which thus counts itself. -/
def spamTrack (window : Nat) (r : SpamRing) (s : SpamSend) : (Nat × Nat) × SpamRing :=
  let r := r.record s.key s.time
  ((r.distinct window s.time Prod.fst, r.countLive window s.time (·.2 = fnv s.text)), r)

/-- What is left after some messages. -/
def trackRun (window : Nat) (r : SpamRing) (sends : List SpamSend) : SpamRing :=
  sends.foldl (fun r s => (spamTrack window r s).2) r

/-! ## 2. What they are to be -/

/-- The messages within the window. -/
def recentSends (window now : Nat) (sends : List SpamSend) : List SpamSend :=
  sends.filter fun s => decide (now ≤ s.time + window)

/-- The targets of messages, case aside. -/
def targetsOf (sends : List SpamSend) : Finset Text := (sends.map fun s => lower s.target).toFinset

/-- The messages with a text, case aside. -/
def sameText (text : Text) (sends : List SpamSend) : List SpamSend :=
  sends.filter fun s => lower s.text = lower text

/-- No two targets, and no two texts, have the same hash, case aside. The ring keeps hashes only. -/
def CollisionFree (sends : List SpamSend) : Prop :=
  ∀ a ∈ sends, ∀ b ∈ sends, (fnv a.target = fnv b.target → lower a.target = lower b.target) ∧
    (fnv a.text = fnv b.text → lower a.text = lower b.text)

instance : DecidablePred CollisionFree := fun sends =>
  inferInstanceAs (Decidable (∀ a ∈ sends, ∀ b ∈ sends,
    (fnv a.target = fnv b.target → lower a.target = lower b.target) ∧
      (fnv a.text = fnv b.text → lower a.text = lower b.text)))

/-- No message takes a slot that the window still needs. This is the condition on the run, and it
is about the slot that is next and about no other. -/
def Spared (window : Nat) (r : SpamRing) : List SpamSend → Prop
  | [] => True
  | s :: sends => r.Spares window s.key s.time ∧ Spared window (spamTrack window r s).2 sends

/-- The keys of messages, with their times. -/
def sentKeys (sends : List SpamSend) : List ((UInt32 × UInt32) × Nat) :=
  sends.map fun s => (s.key, s.time)

/-! ## 3. The numbers

The library says that the ring remembers every key of the window; what is left is that hashes are
as many as what was hashed. -/

/-- **Over a run** whose messages spare what the window needs, the ring remembers what came. -/
theorem trackRun_remembers {window now : Nat} {s : SpamSend} {sends : List SpamSend} {r : SpamRing}
    {came : List ((UInt32 × UInt32) × Nat)} (h : r.Remembers came window now)
    (hcame : ∀ c ∈ came, c.2 ≤ now) (hnow : ∀ a ∈ sends ++ [s], now ≤ a.time)
    (hsorted : (sends ++ [s]).Pairwise (·.time ≤ ·.time)) (hpos : ∀ a ∈ sends ++ [s], a.time ≠ 0)
    (hspared : Spared window r (sends ++ [s])) :
    ((trackRun window r sends).record s.key s.time).Remembers
      (came ++ sentKeys (sends ++ [s])) window s.time := by
  induction sends generalizing r came now with
  | nil =>
    have hle : now ≤ s.time := hnow s List.mem_cons_self
    exact h.record hle (hpos s List.mem_cons_self) (fun c hc => (hcame c hc).trans hle) hspared.1
  | cons a sends ih =>
    have hle : now ≤ a.time := hnow a List.mem_cons_self
    obtain ⟨hafter, hsorted⟩ := List.pairwise_cons.mp hsorted
    have hone := h.record hle (hpos a List.mem_cons_self) (fun c hc => (hcame c hc).trans hle)
      hspared.1
    have hcame' : ∀ c ∈ came ++ [(a.key, a.time)], c.2 ≤ a.time := by
      intro c hc
      rcases List.mem_append.mp hc with hc | hc
      · exact (hcame c hc).trans hle
      · rw [List.mem_singleton.mp hc]
    have hrest := ih hone hcame' hafter hsorted
      (fun b hb => hpos b (List.mem_cons_of_mem a hb)) hspared.2
    rw [List.append_assoc] at hrest
    exact hrest

/-- The keys that are live are those of the messages within the window. -/
theorem mem_liveKeys_sentKeys {window now : Nat} {r : SpamRing} {sends : List SpamSend}
    (h : r.Remembers (sentKeys sends) window now) {k : UInt32 × UInt32} :
    k ∈ r.liveKeys window now ↔ ∃ s ∈ recentSends window now sends, s.key = k := by
  rw [h.mem_liveKeys]
  simp only [sentKeys, List.mem_map, recentSends, List.mem_filter, decide_eq_true_eq]
  constructor
  · rintro ⟨c, ⟨s, hs, rfl⟩, hlive, hk⟩
    exact ⟨s, ⟨hs, hlive⟩, hk⟩
  · rintro ⟨s, ⟨hs, hlive⟩, hk⟩
    exact ⟨_, ⟨s, hs, rfl⟩, hlive, hk⟩

/-- Hashes of targets are as many as the targets. -/
theorem card_fnv_targets {sends all : List SpamSend} (hsub : sends ⊆ all) (hfree : CollisionFree all) :
    ((targetsOf sends).image fnvFolded).card = (targetsOf sends).card := by
  refine Finset.card_image_of_injOn fun t ht t' ht' heq => ?_
  obtain ⟨a, ha, rfl⟩ := List.mem_map.mp (List.mem_toFinset.mp ht)
  obtain ⟨b, hb, rfl⟩ := List.mem_map.mp (List.mem_toFinset.mp ht')
  exact (hfree a (hsub ha) b (hsub hb)).1 heq

theorem mem_targetsOf {sends : List SpamSend} {h : UInt32} :
    h ∈ (targetsOf sends).image fnvFolded ↔ ∃ s ∈ sends, fnv s.target = h := by
  simp only [targetsOf, Finset.mem_image, List.mem_toFinset, List.mem_map]
  constructor
  · rintro ⟨t, ⟨s, hs, rfl⟩, rfl⟩
    exact ⟨s, hs, rfl⟩
  · rintro ⟨s, hs, rfl⟩
    exact ⟨_, ⟨s, hs, rfl⟩, rfl⟩

/-- The hashes of targets that are live are as many as the targets. -/
theorem card_targets {window now : Nat} {r : SpamRing} {sends : List SpamSend}
    (h : r.Remembers (sentKeys sends) window now) (hfree : CollisionFree sends) :
    ((r.liveKeys window now).image Prod.fst).card =
      (targetsOf (recentSends window now sends)).card := by
  have hsub : recentSends window now sends ⊆ sends := fun a ha => List.mem_of_mem_filter ha
  rw [← card_fnv_targets hsub hfree]
  refine congrArg Finset.card (Finset.ext fun x => ?_)
  rw [mem_targetsOf, Finset.mem_image]
  simp only [mem_liveKeys_sentKeys h]
  constructor
  · rintro ⟨k, ⟨a, ha, rfl⟩, rfl⟩
    exact ⟨a, ha, rfl⟩
  · rintro ⟨a, ha, rfl⟩
    exact ⟨a.key, ⟨a, ha, rfl⟩, rfl⟩

/-- The live keys with a hash of the text are as many as the targets it was sent to. -/
theorem card_sameText {window : Nat} {r : SpamRing} {s : SpamSend} {sends : List SpamSend}
    (h : r.Remembers (sentKeys sends) window s.time) (hs : s ∈ sends) (hfree : CollisionFree sends) :
    ((r.liveKeys window s.time).filter (·.2 = fnv s.text)).card =
      (targetsOf (sameText s.text (recentSends window s.time sends))).card := by
  have hsub : sameText s.text (recentSends window s.time sends) ⊆ sends := fun a ha =>
    List.mem_of_mem_filter (List.mem_of_mem_filter ha)
  rw [← card_fnv_targets hsub hfree]
  rw [← Finset.card_image_of_injOn (f := Prod.fst) fun k hk k' hk' heq => Prod.ext heq
    ((Finset.mem_filter.mp hk).2.trans (Finset.mem_filter.mp hk').2.symm)]
  refine congrArg Finset.card (Finset.ext fun x => ?_)
  rw [mem_targetsOf, Finset.mem_image]
  simp only [Finset.mem_filter, mem_liveKeys_sentKeys h, sameText, List.mem_filter,
    decide_eq_true_eq]
  constructor
  · rintro ⟨k, ⟨⟨a, ha, rfl⟩, htext⟩, rfl⟩
    exact ⟨a, ⟨ha, (hfree a (List.mem_of_mem_filter ha) s hs).2 htext⟩, rfl⟩
  · rintro ⟨a, ⟨ha, htext⟩, rfl⟩
    exact ⟨a.key, ⟨⟨a, ha, rfl⟩, congrArg fnvFolded htext⟩, rfl⟩

/-- **The numbers are exact** as long as no slot is taken that the window still needs: how many
targets there were within the window, and how many of them got this text. A slot is refreshed in
place and keeps its position, so the oldest position need not hold the oldest send. -/
theorem spamTrack_exact {window : Nat} {sends : List SpamSend} {s : SpamSend}
    (hsorted : (sends ++ [s]).Pairwise (·.time ≤ ·.time)) (hpos : ∀ a ∈ sends ++ [s], a.time ≠ 0)
    (hfree : CollisionFree (sends ++ [s])) (hspared : Spared window SpamRing.new (sends ++ [s])) :
    (spamTrack window (trackRun window SpamRing.new sends) s).1 =
      ((targetsOf (recentSends window s.time (sends ++ [s]))).card,
        (targetsOf (sameText s.text (recentSends window s.time (sends ++ [s])))).card) := by
  have h : ((trackRun window SpamRing.new sends).record s.key s.time).Remembers
      (sentKeys (sends ++ [s])) window s.time :=
    trackRun_remembers (Ring.remembers_start _ _ window 0)
      (fun c hc => absurd hc List.not_mem_nil) (fun a _ => Nat.zero_le _) hsorted hpos hspared
  have hs : s ∈ sends ++ [s] := List.mem_append_right _ List.mem_cons_self
  refine Prod.ext ?_ ?_
  · exact (Ring.distinct_eq ..).trans (card_targets h hfree)
  · exact (h.countLive_eq _).trans (card_sameText h hs hfree)

/-- A text to one of some targets. -/
def demoSend (target : Nat) (time : Nat) : SpamSend := ⟨decimal target, "hello".toList, time⟩

theorem spamTrack_exact_demo :
    (spamTrack 60 (trackRun 60 SpamRing.new [demoSend 0 1000, demoSend 1 1030]) (demoSend 0 1075)).1 =
      ((targetsOf (recentSends 60 1075 ([demoSend 0 1000, demoSend 1 1030] ++
          [demoSend 0 1075]))).card,
        (targetsOf (sameText "hello".toList (recentSends 60 1075 ([demoSend 0 1000,
          demoSend 1 1030] ++ [demoSend 0 1075])))).card) :=
  spamTrack_exact (by decide) (by decide) (by decide +kernel)
    ⟨by decide +kernel, by decide +kernel, by decide +kernel, trivial⟩

/-- Thirty-two targets, and the first of them again when the others are over. -/
def demoSends : List SpamSend := (List.range 32).map (demoSend · 1) ++ [demoSend 0 1000]

/-- **A message that was just sent again is forgotten**: the next one takes its slot. -/
theorem refreshed_send_forgotten :
    (demoSends ++ [demoSend 32 1001]).Pairwise (·.time ≤ ·.time) ∧
      (∀ a ∈ demoSends ++ [demoSend 32 1001], a.time ≠ 0) ∧
      CollisionFree (demoSends ++ [demoSend 32 1001]) ∧
      recentSends 60 1001 (demoSends ++ [demoSend 32 1001]) =
        [demoSend 0 1000, demoSend 32 1001] ∧
      (spamTrack 60 (trackRun 60 SpamRing.new demoSends) (demoSend 32 1001)).1 = (1, 1) := by
  refine ⟨?_, ?_, ?_, ?_, ?_⟩ <;> decide +kernel

end SekurIRCd
