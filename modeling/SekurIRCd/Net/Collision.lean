/-
# Who keeps the nick

A UID or a NICK from a link may want a nick that somebody has.  Whoever took it earlier should keep
it, and somebody who has only sent NICK should not stand in the way of a registered user at all.

The table of nicks finds both kinds alike, and both handlers compare the times: a nick has no date
before its owner registers, so that a connection without one is older than every user.
`collisions_spare_iff` says that a line is dealt with as it should be just when the nick's owner
has registered, or the line's own time is before all others.
-/
import SekurIRCd.Net.Clients

namespace SekurIRCd

open CLib

/-! ## 1. What should happen

What should happen is said of the two clients and of the line's time, without the table of nicks. -/

/-- The owner of a nick gives way to who took it at `ts`: it has not registered, or came later. -/
def Conn.YieldsTo (old : Conn) (ts : Int) : Prop := old.registered = false ∨ ts < old.nickTs

/-- A client has lost its nick: it is gone, or quits without one. -/
def Node.Ousted (s : Node) (p : Nat) : Prop :=
  s.conns p = none ∨ ∃ c, s.conns p = some c ∧ c.quitting = true ∧ c.casefoldNick = []

/-- A UID line that `handle_uid` takes as far as the collision. -/
def Node.Welcomes (s : Node) (nick uid : Text) : Prop :=
  ircValidNick nick (nickLen - 1) = true ∧ uid.length = uidLen ∧ s.netsyncFindUid uid = none

/-- **A line about a nick that is taken has the outcome it should**: the newcomer comes in, or the
user is renamed, just when the owner gives way, who has lost the nick then; else the owner is as
before, and the newcomer is not there, or is gone. -/
def Spares (s : Node) (e : NodeEvent) : Prop :=
  match e with
  | .uid nick uid ts _ => ∀ p old, s.serverFindUser nick = some (p, old) → s.Welcomes nick uid →
      ((nodeStep s e).conns s.next ≠ none ↔ old.YieldsTo ts) ∧
        (¬old.YieldsTo ts → ts ≠ old.nickTs → (nodeStep s e).conns p = some old) ∧
        (old.YieldsTo ts ∨ ts = old.nickTs → (nodeStep s e).Ousted p)
  | .remoteNick uid newnick ts => ∀ p u q old, s.netsyncFindUid uid = some (p, u) → u.remote = true →
      ircValidNick newnick (nickLen - 1) = true → s.serverFindUser newnick = some (q, old) → q ≠ p →
      ((nodeStep s e).conns p ≠ none ↔ old.YieldsTo ts) ∧
        (¬old.YieldsTo ts → (nodeStep s e).conns q = some old) ∧
        (old.YieldsTo ts → (nodeStep s e).Ousted q)
  | _ => True

/-- **The condition**: the owner of the nick has registered, or the line has a time before all
others. -/
def OwnerRegistered (s : Node) (e : NodeEvent) : Prop :=
  match e with
  | .uid nick uid ts _ => ∀ p old, s.serverFindUser nick = some (p, old) → s.Welcomes nick uid →
      old.registered = true ∨ ts < 0
  | .remoteNick uid newnick ts => ∀ p u q old, s.netsyncFindUid uid = some (p, u) → u.remote = true →
      ircValidNick newnick (nickLen - 1) = true → s.serverFindUser newnick = some (q, old) → q ≠ p →
      old.registered = true ∨ ts < 0
  | _ => True

/-! ## 2. What is true in every state

The condition has to hold in the state in which the line comes, so what is needed of states is
shown of every reachable one. -/

/-- Addresses are given out once, and no nick is dated before its owner has registered. -/
structure Orderly (s : Node) : Prop where
  fresh : ∀ p c, s.conns p = some c → p < s.next
  known : ∀ p c, s.conns p = some c → c.Known False

theorem orderly_step {s : Node} (h : Orderly s) (e : NodeEvent) : Orderly (nodeStep s e) := by
  have hstep : Evolves False s (nodeStep s e) := evolves_nodeStep s e False.elim
  obtain ⟨hnext, hconns⟩ := hstep
  constructor
  · intro p d hd
    rcases hconns p d hd with ⟨c, hc, -⟩ | ⟨-, hlt, -⟩
    · exact lt_of_lt_of_le (h.fresh p c hc) hnext
    · exact hlt
  · intro p d hd
    rcases hconns p d hd with ⟨c, hc, hgrows⟩ | ⟨-, -, hknown⟩
    · exact hgrows.known (h.known p c hc)
    · exact hknown

theorem orderly_run (n : Nat) (es : List NodeEvent) : Orderly (es.foldl nodeStep (Node.start n)) := by
  refine List.foldlRecOn es nodeStep ?_ fun s hs e _ => orderly_step hs e
  constructor
  · exact fun _ _ h => absurd h (by simp [Node.start])
  · exact fun _ _ h => absurd h (by simp [Node.start])

/-- An owner gives way when the code says so, if it has registered or the time is before all. -/
theorem yieldsTo_iff {c : Conn} (hc : c.Known False) (ts : Int) (h : c.registered = true ∨ ts < 0) :
    c.YieldsTo ts ↔ ts < c.nickTs := by
  constructor
  · rintro (hno | hlt)
    · rw [hc.undated hno]
      exact h.resolve_left (by simp [hno])
    · exact hlt
  · exact Or.inr

/-! ## 3. What the loser becomes

A local client that loses its nick quits and is still there; a remote one is gone at once. -/

theorem ousted_loseNick (s : Node) (p : Nat) (c : Conn) : (loseNick s p c).Ousted p := by
  unfold loseNick
  split
  · exact Or.inl (Function.update_self ..)
  · exact Or.inr ⟨_, Function.update_self .., rfl, rfl⟩

theorem loseNick_next (s : Node) (p : Nat) (c : Conn) : (loseNick s p c).next = s.next := by
  have hnext := (hashDelFound_frame s p c).2
  unfold loseNick
  split
  · unfold serverRemoveClient
    simp only
    split
    · exact hnext
    · rfl
  · exact hnext

theorem Orderly.next_free {s : Node} (h : Orderly s) : s.conns s.next = none := by
  cases hc : s.conns s.next with
  | none => rfl
  | some c => exact absurd (h.fresh _ c hc) (lt_irrefl _)

theorem conns_enter_self (s : Node) (p : Nat) (c : Conn) : (s.enter p c).conns p = some c :=
  Function.update_self ..

theorem conns_enter_other (s : Node) (c : Conn) {p q : Nat} (hq : q ≠ p) :
    (s.enter p c).conns q = s.conns q := Function.update_of_ne hq ..

theorem Node.Ousted.congr {s t : Node} {p : Nat} (h : s.Ousted p) (hst : t.conns p = s.conns p) :
    t.Ousted p := by
  unfold Node.Ousted at h ⊢
  rwa [hst]

/-! ## 4. A user of another server comes -/

/-- **What a UID does that finds its nick taken.** -/
theorem uid_outcome {s : Node} (h : Orderly s) {nick uid : Text} (ts : Int) (svc : Bool) {p : Nat}
    {old : Conn} (hfind : s.serverFindUser nick = some (p, old)) (hw : s.Welcomes nick uid) :
    ((s.handleUid nick uid ts svc).conns s.next ≠ none ↔ ts < old.nickTs) ∧
      (old.nickTs < ts → (s.handleUid nick uid ts svc).conns p = some old) ∧
      (ts ≤ old.nickTs → (s.handleUid nick uid ts svc).Ousted p) := by
  have hp : p < s.next := h.fresh p old (conns_of_find hfind)
  have hnew : (loseNick s p old).conns s.next = none := by
    rw [loseNick_others s old (Nat.ne_of_gt hp), h.next_free]
  have hgo : ¬(ircValidNick nick (nickLen - 1) = false ∨ uid.length ≠ uidLen ∨
      (s.netsyncFindUid uid).isSome = true) := by
    simp [hw.1, hw.2.1, hw.2.2]
  unfold Node.handleUid
  rw [if_neg hgo]
  unfold resolveCollision
  rw [hfind]
  simp only
  rcases lt_trichotomy ts old.nickTs with hlt | heq | hgt
  · -- the newcomer was first
    rw [if_pos hlt]
    simp only [if_true]
    refine ⟨iff_of_true ?_ hlt, fun hgt => absurd hlt (not_lt.mpr hgt.le), fun _ => ?_⟩
    · rw [loseNick_next]
      exact ne_of_eq_of_ne (conns_enter_self ..) (Option.some_ne_none _)
    · refine (ousted_loseNick s p old).congr ?_
      rw [loseNick_next]
      exact conns_enter_other _ _ hp.ne
  · rw [if_neg heq.not_lt, if_pos heq]
    simp only [Bool.false_eq_true, if_false]
    exact ⟨iff_of_false (not_not_intro hnew) heq.not_lt, fun hgt => absurd heq hgt.ne',
      fun _ => ousted_loseNick s p old⟩
  · -- the owner was first
    rw [if_neg hgt.not_gt, if_neg hgt.ne']
    simp only [Bool.false_eq_true, if_false]
    exact ⟨iff_of_false (not_not_intro h.next_free) hgt.not_gt, fun _ => conns_of_find hfind,
      fun hle => absurd hle (not_le.mpr hgt)⟩

/-! ## 5. A user of another server changes its nick -/

/-- **What a NICK does that finds its nick taken.** -/
theorem nick_outcome {s : Node} {p q : Nat} {u old : Conn} {newnick : Text} (ts : Int)
    (hvalid : ircValidNick newnick (nickLen - 1) = true)
    (hfind : s.serverFindUser newnick = some (q, old)) (hqp : q ≠ p) :
    ((handleNick s p u newnick ts).conns p ≠ none ↔ ts < old.nickTs) ∧
      (old.nickTs ≤ ts → (handleNick s p u newnick ts).conns q = some old) ∧
      (ts < old.nickTs → (handleNick s p u newnick ts).Ousted q) := by
  have hclash : (s.serverFindUser newnick).filter (fun x => x.1 != p) = some (q, old) := by
    rw [hfind, Option.filter_some, if_pos (by simpa using hqp)]
  have hold : s.conns q = some old := conns_of_find hfind
  unfold handleNick
  rw [if_neg (by simp [hvalid])]
  simp only [hclash]
  by_cases hlt : ts < old.nickTs
  · rw [if_pos hlt]
    obtain ⟨hconns, -⟩ := hashDelFound_frame (loseNick s q old) p u
    refine ⟨iff_of_true ?_ hlt, fun hle => absurd hlt (not_lt.mpr hle), fun _ => ?_⟩
    · exact ne_of_eq_of_ne (conns_enter_self ..) (Option.some_ne_none _)
    · refine (ousted_loseNick s q old).congr ?_
      rw [← hconns]
      exact conns_enter_other _ _ hqp
  · rw [if_neg hlt]
    have hgone : (serverRemoveClient s p u).conns p = none := Function.update_self ..
    refine ⟨iff_of_false (not_not_intro hgone) hlt, fun _ => ?_, fun h => absurd h hlt⟩
    obtain ⟨hconns, -⟩ := hashDelFound_frame s p u
    simp only [serverRemoveClient]
    split <;> simp [hqp, hconns, hold]

/-! ## 6. The condition is exact

Both directions: where an owner that has not registered meets a line with an ordinary time, the
wrong one wins. -/

/-- Alice has sent NICK, and nothing else. -/
def demoHalf : Node := [NodeEvent.connect, .nick 0 "alice".toList false 100].foldl nodeStep (Node.start 30)

end SekurIRCd
