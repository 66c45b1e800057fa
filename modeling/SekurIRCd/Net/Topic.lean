/-
# Merging topics

A burst carries each topic in a TB line with the time it was set.  The newer topic wins, and of
two from the same second the text that stands behind, "so both sides still pick the same one".
But a line whose text is the topic already is ignored, and its time with it: the topic keeps the
time of the line that came first.  A topic set again and again may so lose to one that was set
before the last time.

`topic_merge_iff`: every order of some TB lines leaves the text of the greatest exactly when all
lines of another text are below all lines of that text.
-/
import SekurIRCd.Net.Burst
import SekurIRCd.Lib.Register
import Mathlib.Data.Char
import Mathlib.Data.List.Lex

namespace SekurIRCd

open CLib Register

/-! ## 1. TB lines -/

/-- What a TB line says. The text comes from a channel's topic and so fits into one; the stamp is
text as it stands in the line. -/
structure TopicLine where
  text : Text
  stamp : Text
  setter : Text
  fits : text.length ≤ topicMaxLen
deriving DecidableEq

namespace TopicLine

/-- The topic it offers, behind its time. -/
def stamped (l : TopicLine) : Stamped Int Text := toLex (atol l.stamp, l.text)

@[simp] theorem stamped_value (l : TopicLine) : l.stamped.value = l.text := rfl

end TopicLine

/-- Where a TB line for the channel called `key` may come from: a link, a server behind it, and
the channel's name as it is spelled there. -/
structure TopicSource (srv : Server) (key : Text) where
  peer : Text
  sid : Text
  name : Text
  known : (fromServer srv peer (some sid)).isSome = true
  named : ircCasefold chanNameLen name = key

/-- The line as it is parsed. -/
def TopicSource.msg {srv : Server} {key : Text} (src : TopicSource srv key) (l : TopicLine) :
    IrcMessage where
  tags := []
  pfx := some src.sid
  command := "TB".toList
  params := [src.name, l.stamp, l.setter, l.text]

/-- The lines arrive, each from its source. -/
def receiveTopics (srv : Server) (key : Text) (view : Option Channel)
    (arrivals : List (TopicSource srv key × TopicLine)) : Option Channel :=
  arrivals.foldl (fun view a => handleTb srv a.1.peer key view (a.1.msg a.2)) view

/-! ## 2. The topic as a register

`handle_tb` is the offer of `Lib.Register`: a greater pair replaces what is there, and a text that
is there is not looked at again. -/

/-- The topic and its time. -/
def Channel.stampedTopic (chan : Channel) : Stamped Int Text := toLex (chan.topicTime, chan.topic)

theorem handleTb_offer {srv : Server} {key : Text} (src : TopicSource srv key) (l : TopicLine)
    (chan : Channel) : ∃ chan', handleTb srv src.peer key (some chan) (src.msg l) = some chan' ∧
      chan'.stampedTopic = offer [] chan.stampedTopic l.stamped := by
  obtain ⟨sender, hfrom⟩ := Option.isSome_iff_exists.mp src.known
  have hlt : chan.stampedTopic < l.stamped ↔ chan.topicTime < atol l.stamp ∨
      atol l.stamp = chan.topicTime ∧ strcmpGt l.text chan.topic = true := by
    rw [strcmpGt, decide_eq_true_eq, Channel.stampedTopic, TopicLine.stamped,
      Prod.Lex.toLex_lt_toLex, eq_comm (a := chan.topicTime)]
  have htake : l.text.take topicMaxLen = l.text := List.take_of_length_le l.fits
  have hrecv : handleTb srv src.peer key (some chan) (src.msg l) =
      if l.text ≠ chan.topic ∧ (chan.topic = [] ∨ chan.stampedTopic < l.stamped) then
        some { chan with
          topic := l.text, topicSetter := clip 128 l.setter, topicTime := atol l.stamp }
      else some chan := by
    simp only [handleTb, TopicSource.msg, hfrom, src.named, true_and, hlt, htake]
  rw [hrecv, offer]
  by_cases htaken : l.text ≠ chan.topic ∧ (chan.topic = [] ∨ chan.stampedTopic < l.stamped)
  · exact ⟨_, if_pos htaken, (if_pos htaken).symm⟩
  · exact ⟨_, if_neg htaken, (if_neg htaken).symm⟩

theorem receiveTopics_fill {srv : Server} {key : Text} :
    ∀ (arrivals : List (TopicSource srv key × TopicLine)) (chan : Channel),
      ∃ chan', receiveTopics srv key (some chan) arrivals = some chan' ∧
        chan'.stampedTopic = fill [] chan.stampedTopic (arrivals.map fun a => a.2.stamped)
  | [], chan => ⟨chan, rfl, rfl⟩
  | a :: arrivals, chan => by
    obtain ⟨next, hnext, hoffer⟩ := handleTb_offer a.1 a.2 chan
    obtain ⟨chan', hend, hfill⟩ := receiveTopics_fill arrivals next
    refine ⟨chan', ?_, ?_⟩
    · rw [receiveTopics, List.foldl_cons, hnext]
      exact hend
    · rw [hfill, hoffer]
      rfl

/-! ## 3. Any order -/

/-- A line of the greatest time and text. -/
def Greatest (lines : List TopicLine) (best : TopicLine) : Prop :=
  best ∈ lines ∧ ∀ l ∈ lines, l.stamped ≤ best.stamped

/-- The lines leave `best`'s topic on a channel that had none. -/
def EndsWith (srv : Server) (key : Text) (arrivals : List (TopicSource srv key × TopicLine))
    (best : TopicLine) : Prop :=
  ∀ chan : Channel, chan.topic = [] →
    ∃ chan', receiveTopics srv key (some chan) arrivals = some chan' ∧ chan'.topic = best.text

/-- In any order, and however often each line comes, the greatest stays. This is what a merge is
for: all servers end with one topic, whichever way the lines came. -/
structure TopicsMerge (srv : Server) (key : Text) (lines : List TopicLine) : Prop where
  anyOrder : ∀ best, Greatest lines best → ∀ arrivals : List (TopicSource srv key × TopicLine),
    (arrivals.map Prod.snd).Perm lines → EndsWith srv key arrivals best
  repeats : ∀ best, Greatest lines best → ∀ arrivals : List (TopicSource srv key × TopicLine),
    (∀ l, l ∈ arrivals.map Prod.snd ↔ l ∈ lines) → EndsWith srv key arrivals best

/-- The lines of every other text are below those of the greatest one's. What breaks it is a text
that was set, replaced by another and set again. -/
def TopicsSeparated (lines : List TopicLine) : Prop :=
  ∀ best, Greatest lines best → Separated [] (lines.map TopicLine.stamped) best.stamped

/-- Lines that are separated merge, in any order and number. -/
theorem endsWith_of_separated {srv : Server} {key : Text} {lines : List TopicLine}
    {best : TopicLine} (hbest : best ∈ lines)
    (h : Separated [] (lines.map TopicLine.stamped) best.stamped)
    {arrivals : List (TopicSource srv key × TopicLine)}
    (hsame : ∀ l, l ∈ arrivals.map Prod.snd ↔ l ∈ lines) : EndsWith srv key arrivals best := by
  intro chan hchan
  obtain ⟨chan', hend, hfill⟩ := receiveTopics_fill arrivals chan
  have hmap : (arrivals.map fun a => a.2.stamped) =
      (arrivals.map Prod.snd).map TopicLine.stamped := by
    rw [List.map_map]
    rfl
  have hsub : ∀ x ∈ arrivals.map fun a => a.2.stamped, x ∈ lines.map TopicLine.stamped := by
    intro x hx
    rw [hmap] at hx
    obtain ⟨l, hl, rfl⟩ := List.mem_map.mp hx
    exact List.mem_map_of_mem ((hsame l).mp hl)
  have hin : best.stamped ∈ arrivals.map fun a => a.2.stamped := by
    rw [hmap]
    exact List.mem_map_of_mem ((hsame best).mpr hbest)
  have hvalue := h.fill hsub (Or.inl hchan : OnTheWay [] _ chan.stampedTopic) (Or.inr hin)
  rw [← hfill] at hvalue
  exact ⟨chan', hend, hvalue⟩

/-- **When TB lines merge.** Any order of them leaves the text of the greatest exactly when the
lines of another text are below all lines of that text. A line that brings the text we have is
skipped together with its time, so the time that is compared later may be too old. -/
theorem topic_merge_iff {srv : Server} {key : Text} (src : TopicSource srv key)
    (lines : List TopicLine) : TopicsMerge srv key lines ↔ TopicsSeparated lines := by
  constructor
  · intro h best hbest
    have hblank : (newChannel "#c".toList (by decide) 0).stampedTopic.value = [] := rfl
    refine (settles_iff (List.mem_map_of_mem hbest.1) hblank).mp fun offers hp => ?_
    -- the offers are lines in another order
    obtain ⟨ls, hls, hperm⟩ := List.perm_comp_forall₂ hp
      (List.forall₂_map_left_iff.mpr (List.forall₂_same.mpr fun l _ => rfl) :
        List.Forall₂ (fun x l => x = TopicLine.stamped l) (lines.map TopicLine.stamped) lines)
    have hoffers : offers = ls.map TopicLine.stamped := by
      rw [← List.forall₂_eq_eq_eq] at *
      exact List.forall₂_map_right_iff.mpr hls
    obtain ⟨chan', hend, htopic⟩ := h.anyOrder best hbest (ls.map fun l => (src, l))
      (by simpa using hperm) _ hblank
    obtain ⟨chan'', hend', hfill⟩ := receiveTopics_fill (ls.map fun l => (src, l))
      (newChannel "#c".toList (by decide) 0)
    have hsame : chan'' = chan' := Option.some.inj (hend'.symm.trans hend)
    have hmap : ((ls.map fun l => (src, l)).map fun a => a.2.stamped) = offers := by
      rw [hoffers, List.map_map]
      rfl
    rw [hmap, hsame] at hfill
    rw [← hfill]
    exact htopic
  · intro h
    refine ⟨fun best hbest arrivals hp => ?_, fun best hbest arrivals hsame => ?_⟩
    · exact endsWith_of_separated hbest.1 (h best hbest) fun l => hp.mem_iff
    · exact endsWith_of_separated hbest.1 (h best hbest) hsame

/-! ## 4. One topic, set twice -/

def demoTopicSource : TopicSource demoThere "#c".toList where
  peer := "1AA".toList
  sid := "1AA".toList
  name := "#c".toList
  known := by decide
  named := by decide

def demoTopicLine (text : Char) (stamp : String) : TopicLine :=
  ⟨[text], stamp.toList, "*".toList, by simp [topicMaxLen]⟩

/-- "A" was set at 10 and again at 30, "B" at 20.  The line of 30 is ignored behind that of 10. -/
theorem topic_time_forgotten : ¬ TopicsMerge demoThere "#c".toList
    [demoTopicLine 'A' "10", demoTopicLine 'A' "30", demoTopicLine 'B' "20"] := by
  intro h
  have hbest : Greatest [demoTopicLine 'A' "10", demoTopicLine 'A' "30", demoTopicLine 'B' "20"]
      (demoTopicLine 'A' "30") := ⟨by decide, by decide⟩
  obtain ⟨chan', hend, htopic⟩ := h.anyOrder _ hbest
    [(demoTopicSource, demoTopicLine 'A' "10"), (demoTopicSource, demoTopicLine 'A' "30"),
      (demoTopicSource, demoTopicLine 'B' "20")] (List.Perm.refl _)
    (newChannel "#c".toList (by decide) 0) rfl
  have hrun : receiveTopics demoThere "#c".toList
      (some (newChannel "#c".toList (by decide) 0))
      [(demoTopicSource, demoTopicLine 'A' "10"), (demoTopicSource, demoTopicLine 'A' "30"),
        (demoTopicSource, demoTopicLine 'B' "20")] =
      some { newChannel "#c".toList (by decide) 0 with
        topic := "B".toList, topicSetter := "*".toList, topicTime := 20 } := by decide
  rw [hrun] at hend
  rw [← Option.some.inj hend] at htopic
  exact absurd htopic (by decide)

end SekurIRCd
