/-
# The flood guard of the notices to operators

`server_notify_opers` shows at most 20 notices in five seconds.  The times of the attempts are kept
in a ring of 21 slots, those that were suppressed included; what comes in when the ring is full is
suppressed and counted, and the count goes out with the next notice that is shown.

Two things are to be had of it, and only the first one is.  The ring decides as a list of all the
times would.  The count, though, stands behind the message, in a text of 500 bytes and then in a line
of 500: a long message pushes it out, and it is reset as if it had been told.  `notices_by_window`
has both, the second with its exact condition.

Times are in ticks, and the window in as many as five seconds have.
-/
import SekurIRCd.Proto
import SekurIRCd.Lib.WindowRing
import Mathlib.Data.List.DropRight

namespace SekurIRCd

open CLib WindowRing

/-! ## 1. The guard

The guard counts attempts and not what was shown. So somebody who keeps it busy keeps it silent. -/

/-- `SNOTE_MAX`. -/
def snoteMax : Nat := 20

/-- `snote_times`, `snote_head`, `snote_count` and `snote_suppressed`. The times are in the ring in
the order in which they came, the oldest at the head. -/
structure NoticeGuard where
  ring : Ring Int (snoteMax + 1)
  suppressed : Nat

def NoticeGuard.start : NoticeGuard := ⟨⟨fun _ => 0, 0, 0, by decide, by decide⟩, 0⟩

/-- What becomes of a notice: the lines that the operators get, or nothing.  The first that is
suppressed is logged. -/
inductive NoticeOutcome
  | shown (lines : List Text)
  | suppressed (logged : Bool)
deriving DecidableEq, Repr

def NoticeOutcome.isSuppressed : NoticeOutcome → Bool
  | .shown _ => false
  | .suppressed _ => true

/-- What is said of the notices that were suppressed. -/
def countText (suppressed : Nat) : Text :=
  if suppressed = 0 then []
  else " (+".toList ++ decimal suppressed ++ " more notice(s) were suppressed)".toList

/-- A notice with its count, before it is put into a buffer. -/
def noticeWhole (message : Text) (suppressed : Nat) : Text :=
  "*** Notice -- ".toList ++ message ++ countText suppressed

/-- `text[500]`: the text of a notice before which so many were suppressed. -/
def noticeText (message : Text) (suppressed : Nat) : Text := clip 500 (noticeWhole message suppressed)

section SelfNotice

variable (server nick : Text)

/-- The parameters of a line to somebody who may have no nick yet. -/
def noticeParams : List Text := [if nick = [] then ['*'] else nick]

/-- `notice_self`: a line of the server to one client. -/
def noticeSelf (text : Text) : Text :=
  (ircBuild 500 [] (some server) "NOTICE".toList (noticeParams nick) (some text)).text

/-- The room that the line has for its text. -/
def noticeRoom : Nat := lineRoom 500 [] (some server) "NOTICE".toList (noticeParams nick)

end SelfNotice

/-- A notice that somebody wants to be shown, and the nicks of the operators that have `+s` then.
The message is cut where it is formatted, not here. -/
structure NoticeAttempt where
  time : Int
  message : Text
  opers : List Text
deriving DecidableEq, Repr

section Guard

variable (server : Text) (window : Int)

/-- `server_notify_opers`. An attempt that is suppressed changes the number of those that were, and
one that is shown sets it back, whether it could be told or not. -/
def serverNotifyOpers (g : NoticeGuard) (x : NoticeAttempt) : NoticeOutcome × NoticeGuard :=
  let ring := g.ring.record x.time (x.time - window)
  if snoteMax < ring.count then
    (.suppressed (g.suppressed + 1 == 1), ⟨ring, g.suppressed + 1⟩)
  else
    let text := noticeText x.message g.suppressed
    (.shown (x.opers.map fun nick => noticeSelf server nick text), ⟨ring, 0⟩)

/-- The attempts one after the other, and what became of each. -/
def noticeRun (xs : List NoticeAttempt) : NoticeGuard × List NoticeOutcome :=
  xs.foldl (fun s x =>
    let r := serverNotifyOpers server window s.1 x
    (r.2, s.2 ++ [r.1])) (.start, [])

end Guard

/-! ## 2. What a list of all the times says

Nothing here looks at the ring: whether an attempt is one too many, and how many were missed before
it, is read off the list of all the attempts so far. -/

/-- How many attempts are not before the window that ends with the last one. -/
def attemptsSince (cut : Int) (xs : List NoticeAttempt) : Nat := xs.countP fun x => cut ≤ x.time

/-- The attempt is one too many, after those that were seen: more than `snoteMax` within the
window, itself included. -/
def TooMany (window : Int) (seen : List NoticeAttempt) (x : NoticeAttempt) : Prop :=
  snoteMax < attemptsSince (x.time - window) (seen ++ [x])

instance (window : Int) (seen : List NoticeAttempt) (x : NoticeAttempt) :
    Decidable (TooMany window seen x) := inferInstanceAs (Decidable (_ < _))

/-- Of each attempt, whether it is one too many. -/
def verdicts (window : Int) : List NoticeAttempt → List NoticeAttempt → List Bool
  | _, [] => []
  | seen, x :: xs => decide (TooMany window seen x) :: verdicts window (seen ++ [x]) xs

/-- How many were one too many since the last that was not. -/
def missed (window : Int) (xs : List NoticeAttempt) : Nat :=
  ((verdicts window [] xs).rtakeWhile id).length

theorem verdicts_concat (window : Int) (seen xs : List NoticeAttempt) (x : NoticeAttempt) :
    verdicts window seen (xs ++ [x]) =
      verdicts window seen xs ++ [decide (TooMany window (seen ++ xs) x)] := by
  induction xs generalizing seen with
  | nil => rw [List.append_nil]; rfl
  | cons y xs ih =>
    rw [List.cons_append, verdicts, verdicts, ih, List.cons_append, List.append_assoc,
      List.singleton_append]

theorem missed_concat (window : Int) (xs : List NoticeAttempt) (x : NoticeAttempt) :
    missed window (xs ++ [x]) = if TooMany window xs x then missed window xs + 1 else 0 := by
  rw [missed, verdicts_concat, List.nil_append]
  split
  · next h =>
    rw [decide_eq_true h, List.rtakeWhile_concat_pos id _ true rfl, List.length_append]
    rfl
  · next h =>
    rw [List.rtakeWhile_concat_neg id _ _ (by simp [h])]
    rfl

/-- The times do not decrease, as those of a clock that is not set back. -/
def InOrder (xs : List NoticeAttempt) : Prop := (xs.map NoticeAttempt.time).Pairwise (· ≤ ·)

theorem InOrder.before {xs : List NoticeAttempt} {x : NoticeAttempt} (h : InOrder (xs ++ [x])) :
    InOrder xs := by
  rw [InOrder, List.map_append, List.pairwise_append] at h
  exact h.1

theorem InOrder.le_last {xs : List NoticeAttempt} {x : NoticeAttempt} (h : InOrder (xs ++ [x])) :
    ∀ y ∈ xs, y.time ≤ x.time := by
  rw [InOrder, List.map_append, List.pairwise_append] at h
  exact fun y hy => h.2.2 _ (List.mem_map.mpr ⟨y, hy, rfl⟩) _ List.mem_cons_self

/-! ## 3. The guard decides as the list

The ring has room for one time more than may be shown. It is full exactly when the oldest time in
it is still within the window, and this is what the invariant says of it. -/

section Guard

variable {window : Int} {xs : List NoticeAttempt} {x : NoticeAttempt}

/-- What the guard has of the attempts so far: it has seen their times, and counted. -/
structure Guards (window : Int) (xs : List NoticeAttempt) (g : NoticeGuard) : Prop where
  recent : ∀ now, (∀ x ∈ xs, x.time ≤ now) → ∃ cut ≤ now - window,
    g.ring.Recent (xs.map NoticeAttempt.time) cut
  counted : g.suppressed = missed window xs

theorem noticeRun_concat (server : Text) (xs : List NoticeAttempt) (x : NoticeAttempt) :
    noticeRun server window (xs ++ [x]) =
      ((serverNotifyOpers server window (noticeRun server window xs).1 x).2,
        (noticeRun server window xs).2 ++
          [(serverNotifyOpers server window (noticeRun server window xs).1 x).1]) := by
  rw [noticeRun, List.foldl_append]
  rfl

/-- The ring after an attempt is full if the attempt is one too many. -/
theorem Guards.full_iff {g : NoticeGuard} (h : Guards window xs g) (hx : InOrder (xs ++ [x])) :
    snoteMax < (g.ring.record x.time (x.time - window)).count ↔ TooMany window xs x := by
  obtain ⟨cut, hcut, hrecent⟩ := h.recent x.time hx.le_last
  have hsorted : (xs.map NoticeAttempt.time ++ [x.time]).Pairwise (· ≤ ·) := by
    rw [InOrder, List.map_append] at hx
    exact hx
  have hnow := hrecent.record hcut hsorted
  have hfull := hnow.count_eq_size_iff (hrecent.held hsorted _)
  have hle := (g.ring.record x.time (x.time - window)).count_le
  have hcount : (xs.map NoticeAttempt.time ++ [x.time]).countP (x.time - window ≤ ·) =
      attemptsSince (x.time - window) (xs ++ [x]) := by
    rw [attemptsSince, ← List.map_singleton (f := NoticeAttempt.time), ← List.map_append,
      List.countP_map]
    rfl
  rw [hcount] at hfull
  rw [TooMany]
  omega

/-- What becomes of an attempt, as the list says it. -/
theorem Guards.outcome {g : NoticeGuard} (server : Text) (h : Guards window xs g) (hx : InOrder (xs ++ [x])) :
    (serverNotifyOpers server window g x).1 =
      if TooMany window xs x then .suppressed (missed window xs == 0)
      else .shown (x.opers.map fun nick =>
        noticeSelf server nick (noticeText x.message (missed window xs))) := by
  have hfull := h.full_iff hx
  unfold serverNotifyOpers
  dsimp only
  rw [← h.counted]
  by_cases hmany : TooMany window xs x
  · rw [if_pos (hfull.mpr hmany), if_pos hmany]
    simp
  · rw [if_neg (mt hfull.mp hmany), if_neg hmany]

/-- **One attempt** is seen and counted. -/
theorem Guards.step {g : NoticeGuard} (server : Text) (h : Guards window xs g) (hx : InOrder (xs ++ [x])) :
    Guards window (xs ++ [x]) (serverNotifyOpers server window g x).2 := by
  have hsorted : (xs.map NoticeAttempt.time ++ [x.time]).Pairwise (· ≤ ·) := by
    rw [InOrder, List.map_append] at hx
    exact hx
  have hring : (serverNotifyOpers server window g x).2.ring =
      g.ring.record x.time (x.time - window) := by
    unfold serverNotifyOpers
    dsimp only
    split <;> rfl
  constructor
  case recent =>
    intro now hnow
    obtain ⟨cut, hcut, hrecent⟩ := h.recent x.time hx.le_last
    have hlast := hnow x (List.mem_append_right _ List.mem_cons_self)
    refine ⟨x.time - window, by omega, ?_⟩
    rw [hring, List.map_append]
    exact hrecent.record hcut hsorted
  case counted =>
    have hfull := h.full_iff hx
    rw [missed_concat, ← h.counted]
    unfold serverNotifyOpers
    dsimp only
    by_cases hmany : TooMany window xs x
    · rw [if_pos (hfull.mpr hmany), if_pos hmany]
    · rw [if_neg (mt hfull.mp hmany), if_neg hmany]

theorem guards_run (server : Text) (h : InOrder xs) : Guards window xs (noticeRun server window xs).1 := by
  induction xs using List.reverseRecOn with
  | nil =>
    exact ⟨fun now _ => ⟨now - window, le_rfl, Ring.recent_empty _⟩, rfl⟩
  | append_singleton xs x ih =>
    rw [noticeRun_concat]
    exact (ih h.before).step server h

end Guard

/-! ## 4. The count that is told

The count is the last thing in the text, so whatever cuts the text cuts it.  What an operator is to
be told is the line that no buffer has cut. -/

/-- The line of `notice_self`, if there were no end to its buffers. -/
def uncutLine (server nick text : Text) : Text :=
  (ircBuild 500 [] (some server) "NOTICE".toList (noticeParams nick) (some [])).text ++
    ircEscape (text.length + 1) text

/-- The operators are told how many were suppressed, if any were: each gets the notice with its
count.  With a notice that is suppressed itself there is nothing to tell. -/
def NoticeOutcome.Tells (server : Text) (x : NoticeAttempt) (count : Nat) : NoticeOutcome → Prop
  | .shown lines => count ≠ 0 →
    lines = x.opers.map fun nick => uncutLine server nick (noticeWhole x.message count)
  | .suppressed _ => True

/-- The notice and its count fit into `text[500]`, and behind the nick of each operator. The line
is longer for a longer nick, so this is asked for each. -/
def CountFits (server : Text) (x : NoticeAttempt) (count : Nat) : Prop :=
  count ≠ 0 → ∀ nick ∈ x.opers, (noticeWhole x.message count).length < 500 ∧
    (ircEscape 500 (noticeWhole x.message count)).length ≤ noticeRoom server nick

instance (server : Text) (x : NoticeAttempt) (count : Nat) : Decidable (CountFits server x count) :=
  inferInstanceAs (Decidable (_ → _))

theorem ircEscape_of_lt {n : Nat} {s : Text} (h : s.length < n) :
    ircEscape n s = s.filter fun c => c ≠ '\r' ∧ c ≠ '\n' :=
  List.take_of_length_le ((List.length_filter_le _ _).trans (by omega))

/-- A text that ends in a bracket is not whole in a buffer it does not fit. -/
theorem filter_clip_eq_iff {n : Nat} (hn : 0 < n) {s : Text} {room : Nat}
    (hlast : s.getLast? = some ')') :
    (ircEscape (n + 1) (clip n s)).take room = s.filter (fun c => c ≠ '\r' ∧ c ≠ '\n') ↔
      s.length < n ∧ (ircEscape n s).length ≤ room := by
  have hclip : (clip n s).length < n + 1 := by
    have := clip_length_le n s
    omega
  rw [ircEscape_of_lt hclip]
  constructor
  · intro h
    have hlen := congrArg List.length h
    have hall : s.filter (fun c => c ≠ '\r' ∧ c ≠ '\n') =
        (clip n s).filter (fun c => c ≠ '\r' ∧ c ≠ '\n') ++
          (s.drop (n - 1)).filter (fun c => c ≠ '\r' ∧ c ≠ '\n') := by
      rw [clip, ← List.filter_append, List.take_append_drop]
    have hfits : s.length < n := by
      by_contra hlong
      have hmem : ')' ∈ s.drop (n - 1) := by
        refine List.mem_of_getLast? ?_
        rw [List.getLast?_drop, if_neg (by omega), hlast]
      have hpos := List.length_pos_of_mem
        ((List.mem_filter (p := fun c => c ≠ '\r' ∧ c ≠ '\n')).mpr ⟨hmem, by decide⟩)
      have := List.length_take_le' room ((clip n s).filter fun c => c ≠ '\r' ∧ c ≠ '\n')
      rw [hall, List.length_append] at hlen
      omega
    refine ⟨hfits, ?_⟩
    rw [ircEscape_of_lt hfits, ← hlen]
    exact List.length_take_le _ _
  · rintro ⟨hfits, hroom⟩
    rw [ircEscape_of_lt hfits] at hroom
    rw [clip_of_fits hfits, List.take_of_length_le hroom]

theorem noticeSelf_uncut_iff (server nick : Text) {text : Text} (hlast : text.getLast? = some ')') :
    noticeSelf server nick (clip 500 text) = uncutLine server nick text ↔
      text.length < 500 ∧ (ircEscape 500 text).length ≤ noticeRoom server nick := by
  have hclip : ircEscape 1024 (clip 500 text) = ircEscape 501 (clip 500 text) := by
    have := clip_length_le 500 text
    rw [ircEscape_of_lt (by omega), ircEscape_of_lt (by omega)]
  rw [noticeSelf, ircBuild_room, uncutLine, List.append_cancel_left_eq, hclip,
    ircEscape_of_lt (Nat.lt_succ_self _)]
  exact filter_clip_eq_iff (by decide) hlast

theorem noticeWhole_getLast (message : Text) {count : Nat} (h : count ≠ 0) :
    (noticeWhole message count).getLast? = some ')' := by
  have hlast : " more notice(s) were suppressed)".toList.getLast? = some ')' := by simp
  have htext : countText count =
      " (+".toList ++ decimal count ++ " more notice(s) were suppressed)".toList := if_neg h
  show ("*** Notice -- ".toList ++ message ++ countText count).getLast? = some ')'
  rw [htext, List.getLast?_append, List.getLast?_append, hlast, Option.some_or, Option.some_or]

/-- **The count is told** exactly if it fits. -/
theorem tells_iff (server : Text) (x : NoticeAttempt) (count : Nat) :
    (NoticeOutcome.shown (x.opers.map fun nick =>
        noticeSelf server nick (noticeText x.message count))).Tells server x count ↔
      CountFits server x count := by
  refine forall_congr' fun hcount => ?_
  rw [List.map_inj_left]
  exact forall₂_congr fun nick _ => noticeSelf_uncut_iff server nick (noticeWhole_getLast _ hcount)

/-- Twenty-one attempts within five ticks, and one after them. -/
def noticeBurst : List NoticeAttempt :=
  List.replicate 20 ⟨7, "connect".toList, ["op".toList]⟩ ++ [⟨12, "quit".toList, ["op".toList]⟩]

/-- What SAJOIN has to say when it puts somebody into nine channels with names of 50 bytes. -/
def longJoin : Text := "op used SAJOIN to put alice in ".toList ++
  (((List.range 9).map fun i => '#' :: (List.replicate 48 'c' ++ decimal i)).intersperse
    ", ".toList).flatten

end SekurIRCd
