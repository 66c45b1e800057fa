/-
# Copies relayed down a tree of links

One node holds the original of something, the nodes linked below it hold copies, and every
change is told from each node to those below it over channels that keep the order.  A node
that is linked later is told what the one above it holds at that time; one that is cut off
takes with it what is below it, and forgets.  Nothing here says what is copied or how a change
is told.

What holds in every state is that a copy, with the messages on their way to it applied, is the
copy of the node above (`Synced.ahead`).  A message keeps this when it says just what changed,
and when what a node passes on does to those below what the message did to the node itself.
Where nothing is on the way from the top any more, the copy is the original
(`Synced.held_eq`).
-/
import SekurIRCd.Lib.ParentTree
import Mathlib.Logic.Function.Basic

namespace Cascade

open ParentTree

/-- What every node holds, the node above it (none at the top and for a node that is not linked),
how far it is from the top, and what is on its way to it from above, oldest first. The distance is
there so that the walk to the top is a recursion that ends. -/
structure Tree (ι S M : Type*) where
  held : ι → S
  up : ι → Option ι
  hop : ι → ℕ
  due : ι → List M

namespace Tree

variable {ι S M : Type*} [DecidableEq ι] (t : Tree ι S M)

/-- `x` comes to hold `s` and tells those below it. -/
def publish (x : ι) (s : S) (ms : List M) : Tree ι S M :=
  { t with
    held := Function.update t.held x s
    due := fun n => if t.up n = some x then t.due n ++ ms else t.due n }

/-- `ms` is what is left on its way to `n`. -/
def await (n : ι) (ms : List M) : Tree ι S M := { t with due := Function.update t.due n ms }

/-- The oldest message on its way to `n` arrives; `recv` gives what `n` then holds and what it
passes on. -/
def deliver (recv : M → S → S × List M) (n : ι) : Tree ι S M :=
  match t.due n with
  | [] => t
  | m :: ms =>
    (t.await n ms).publish n (recv m (t.held n)).1 (recv m (t.held n)).2

/-- `n` is linked below `p` and is sent `ms`. -/
def join (n p : ι) (ms : List M) : Tree ι S M :=
  { t with
    up := Function.update t.up n (some p)
    hop := Function.update t.hop n (t.hop p + 1)
    due := Function.update t.due n ms }

/-- The nodes from `n` up. -/
def path (n : ι) : List ι := walk t.up (t.hop n) n

/-- `n` is cut off with all that is below it. -/
def cut (blank : S) (n : ι) : Tree ι S M :=
  { t with
    held := fun k => if n ∈ t.path k then blank else t.held k
    up := fun k => if n ∈ t.path k then none else t.up k
    due := fun k => if n ∈ t.path k then [] else t.due k }

/-- Nothing is on its way to `n`, nor to any node it is told by. Elsewhere in the tree messages may
be under way. -/
def Settled (n : ι) : Prop := ∀ k ∈ t.path n, t.due k = []

instance [DecidableEq M] (n : ι) : Decidable (t.Settled n) :=
  inferInstanceAs (Decidable (∀ k ∈ t.path n, t.due k = []))

variable {t} {x k : ι} {s : S} {ms : List M}

@[simp] theorem publish_up : (t.publish x s ms).up = t.up := rfl

@[simp] theorem publish_hop : (t.publish x s ms).hop = t.hop := rfl

@[simp] theorem publish_held_self : (t.publish x s ms).held x = s := Function.update_self ..

theorem publish_held_of_ne (hk : k ≠ x) : (t.publish x s ms).held k = t.held k :=
  Function.update_of_ne hk ..

theorem publish_due_below (hk : t.up k = some x) : (t.publish x s ms).due k = t.due k ++ ms :=
  if_pos hk

theorem publish_due_of_ne (hk : t.up k ≠ some x) : (t.publish x s ms).due k = t.due k :=
  if_neg hk

@[simp] theorem await_held : (t.await k ms).held = t.held := rfl

@[simp] theorem await_up : (t.await k ms).up = t.up := rfl

@[simp] theorem await_due_self : (t.await k ms).due k = ms := Function.update_self ..

theorem await_due_of_ne {n : ι} (hn : n ≠ k) : (t.await k ms).due n = t.due n :=
  Function.update_of_ne hn ..

theorem deliver_nil {recv : M → S → S × List M} (hk : t.due k = []) : t.deliver recv k = t := by
  rw [deliver, hk]

theorem deliver_cons (recv : M → S → S × List M) {m : M} (hk : t.due k = m :: ms) :
    t.deliver recv k =
      (t.await k ms).publish k (recv m (t.held k)).1 (recv m (t.held k)).2 := by
  rw [deliver, hk]

@[simp] theorem join_held : (t.join k x ms).held = t.held := rfl

@[simp] theorem join_up_self : (t.join k x ms).up k = some x := Function.update_self ..

@[simp] theorem join_due_self : (t.join k x ms).due k = ms := Function.update_self ..

theorem join_up_of_ne {n : ι} (hn : n ≠ k) : (t.join k x ms).up n = t.up n :=
  Function.update_of_ne hn ..

theorem join_hop_self : (t.join k x ms).hop k = t.hop x + 1 := Function.update_self ..

theorem join_hop_of_ne {n : ι} (hn : n ≠ k) : (t.join k x ms).hop n = t.hop n :=
  Function.update_of_ne hn ..

theorem join_due_of_ne {n : ι} (hn : n ≠ k) : (t.join k x ms).due n = t.due n :=
  Function.update_of_ne hn ..

end Tree

/-! ## 1. What holds in every state

`Synced` is the invariant, and each of the four things that can happen keeps it: the original
changes, a message arrives, a node is linked, a link breaks. The tree may change its shape while
messages are under way; what is then on its way to a node that is cut off is dropped with it. -/

section Synced

variable {ι S M : Type*}
variable (recv : M → S → S × List M) (root : ι) (blank : S) (good : S → Prop) (sound : M → Prop)

/-- What a node holds after some messages. -/
def told (s : S) (ms : List M) : S := ms.foldl (fun s m => (recv m s).1) s

theorem told_cons (s : S) (m : M) (ms : List M) :
    told recv s (m :: ms) = told recv (recv m s).1 ms := rfl

theorem told_append (s : S) (ms ns : List M) :
    told recv s (ms ++ ns) = told recv (told recv s ms) ns := List.foldl_append

/-- **Every copy is on its way to be the one above it.** Of the messages this asks only that they
are sound, and of what is held that it is good: both are the application's own invariants. -/
structure Synced (t : Tree ι S M) : Prop where
  root_top : t.up root = none
  linked : ∀ n p, t.up n = some p → p = root ∨ ∃ q, t.up p = some q
  falls : ∀ n p, t.up n = some p → t.hop p < t.hop n
  idle : ∀ n, t.up n = none → t.due n = []
  unlinked : ∀ n, n ≠ root → t.up n = none → t.held n = blank
  good : ∀ n, good (t.held n)
  sound : ∀ n, ∀ m ∈ t.due n, sound m
  ahead : ∀ n p, t.up n = some p → told recv (t.held n) (t.due n) = t.held p

variable {recv root blank good sound} {t : Tree ι S M}

namespace Synced

variable (h : Synced recv root blank good sound t)

include h

theorem ne_root {n p : ι} (hp : t.up n = some p) : n ≠ root := by
  rintro rfl
  rw [h.root_top] at hp
  exact absurd hp (by simp)

theorem ne_up {n p : ι} (hp : t.up n = some p) : p ≠ n := by
  rintro rfl
  exact absurd (h.falls p p hp) (lt_irrefl _)

theorem mem_path {n k : ι} : n ∈ t.path k ↔ Behind t.up k n :=
  ⟨behind_of_mem_walk, mem_walk_of_behind h.falls (le_refl _)⟩

variable [DecidableEq ι]

/-- **The original changes**, and what it says of it is right, if anyone listens. -/
theorem publish {s : S} {ms : List M} (hs : good s)
    (hms : (∃ n, t.up n = some root) →
      (∀ m ∈ ms, sound m) ∧ told recv (t.held root) ms = s) :
    Synced recv root blank good sound (t.publish root s ms) where
  root_top := h.root_top
  linked := h.linked
  falls := h.falls
  idle := by
    intro n hn
    rw [Tree.publish_up] at hn
    rw [Tree.publish_due_of_ne (by simp [hn])]
    exact h.idle n hn
  unlinked := by
    intro n hr hn
    rw [Tree.publish_held_of_ne hr]
    exact h.unlinked n hr hn
  good := by
    intro n
    by_cases hr : n = root
    · rw [hr, Tree.publish_held_self]
      exact hs
    · rw [Tree.publish_held_of_ne hr]
      exact h.good n
  sound := by
    intro n m hm
    by_cases hn : t.up n = some root
    · rw [Tree.publish_due_below hn] at hm
      rcases List.mem_append.mp hm with hm | hm
      · exact h.sound n m hm
      · exact (hms ⟨n, hn⟩).1 m hm
    · rw [Tree.publish_due_of_ne hn] at hm
      exact h.sound n m hm
  ahead := by
    intro n p hp
    rw [Tree.publish_up] at hp
    rw [Tree.publish_held_of_ne (h.ne_root hp)]
    by_cases hr : p = root
    · rw [hr] at hp ⊢
      have hold := h.ahead n root hp
      rw [Tree.publish_due_below hp, Tree.publish_held_self, told_append, hold]
      exact (hms ⟨n, hp⟩).2
    · have hne : t.up n ≠ some root := by
        rw [hp]
        exact fun e => hr (Option.some.inj e)
      rw [Tree.publish_due_of_ne hne, Tree.publish_held_of_ne hr]
      exact h.ahead n p hp

/-- **A message arrives**, and what is passed on does below what the message did here. -/
theorem deliver {n : ι}
    (hm : ∀ m ms, t.due n = m :: ms → sound m → good (t.held n) →
      good (recv m (t.held n)).1 ∧ ((∃ k, t.up k = some n) →
        (∀ x ∈ (recv m (t.held n)).2, sound x) ∧
          told recv (t.held n) (recv m (t.held n)).2 = (recv m (t.held n)).1)) :
    Synced recv root blank good sound (t.deliver recv n) := by
  cases hd : t.due n with
  | nil => rwa [Tree.deliver_nil hd]
  | cons m ms =>
    obtain ⟨hgood, hpass⟩ := hm m ms hd (h.sound n m (by simp [hd])) (h.good n)
    obtain ⟨q, hq⟩ : ∃ q, t.up n = some q := by
      cases hup : t.up n with
      | none => exact absurd (h.idle n hup) (by simp [hd])
      | some q => exact ⟨q, rfl⟩
    have hself : (t.await n ms).up n ≠ some n := fun e => h.ne_up e rfl
    have hlinked : ∀ k, t.up k = none → k ≠ n := by
      rintro k hk rfl
      rw [hk] at hq
      exact absurd hq (by simp)
    rw [Tree.deliver_cons recv hd]
    constructor
    · exact h.root_top
    · exact h.linked
    · exact h.falls
    · intro k hk
      rw [Tree.publish_up, Tree.await_up] at hk
      rw [Tree.publish_due_of_ne (by simp [hk]), Tree.await_due_of_ne (hlinked k hk)]
      exact h.idle k hk
    · intro k hkr hk
      rw [Tree.publish_held_of_ne (hlinked k hk)]
      exact h.unlinked k hkr hk
    · intro k
      by_cases hkn : k = n
      · rw [hkn, Tree.publish_held_self]
        exact hgood
      · rw [Tree.publish_held_of_ne hkn]
        exact h.good k
    · have hold : ∀ k, ∀ y ∈ (t.await n ms).due k, sound y := by
        intro k y hy
        by_cases hkn : k = n
        · rw [hkn, Tree.await_due_self] at hy
          exact h.sound n y (by simp [hd, hy])
        · rw [Tree.await_due_of_ne hkn] at hy
          exact h.sound k y hy
      intro k x hx
      by_cases hk : (t.await n ms).up k = some n
      · rw [Tree.publish_due_below hk] at hx
        rcases List.mem_append.mp hx with hx | hx
        · exact hold k x hx
        · exact (hpass ⟨k, hk⟩).1 x hx
      · rw [Tree.publish_due_of_ne hk] at hx
        exact hold k x hx
    · intro k p hp
      rw [Tree.publish_up] at hp
      by_cases hkn : k = n
      · -- the node itself: one message less is on its way
        rw [hkn] at hp ⊢
        have hold := h.ahead n p hp
        rw [hd, told_cons] at hold
        rw [Tree.publish_held_self, Tree.publish_due_of_ne hself,
          Tree.publish_held_of_ne (h.ne_up hp), Tree.await_due_self]
        exact hold
      · rw [Tree.publish_held_of_ne hkn]
        by_cases hpn : p = n
        · -- one below it: what was passed on comes on top
          rw [hpn] at hp ⊢
          have hold := h.ahead k n hp
          rw [Tree.publish_due_below hp, Tree.publish_held_self,
            Tree.await_due_of_ne hkn, told_append, Tree.await_held, hold]
          exact (hpass ⟨k, hp⟩).2
        · have hne : (t.await n ms).up k ≠ some n := by
            rw [hp]
            exact fun e => hpn (Option.some.inj e)
          rw [Tree.publish_due_of_ne hne, Tree.publish_held_of_ne hpn,
            Tree.await_due_of_ne hkn]
          exact h.ahead k p hp

/-- **A node is linked**, and is told what the one above it holds. -/
theorem join {n p : ι} {ms : List M} (hn : n ≠ root) (hfree : t.up n = none)
    (hp : p = root ∨ ∃ q, t.up p = some q) (hms : ∀ m ∈ ms, sound m)
    (htold : told recv blank ms = t.held p) :
    Synced recv root blank good sound (t.join n p ms) := by
  have hon : ∀ k, (k = root ∨ ∃ q, t.up k = some q) → k ≠ n := by
    rintro k hk rfl
    rcases hk with e | ⟨q, hq⟩
    · exact hn e
    · rw [hfree] at hq
      exact absurd hq (by simp)
  have hup : ∀ k, (t.join n p ms).up k = none → k ≠ n := by
    rintro k hk rfl
    rw [Tree.join_up_self] at hk
    exact absurd hk (by simp)
  constructor
  · rw [Tree.join_up_of_ne hn.symm]
    exact h.root_top
  · intro k q hq
    have hold : q = root ∨ ∃ r, t.up q = some r := by
      by_cases hkn : k = n
      · rw [hkn, Tree.join_up_self] at hq
        rwa [← Option.some.inj hq]
      · rw [Tree.join_up_of_ne hkn] at hq
        exact h.linked k q hq
    rw [Tree.join_up_of_ne (hon q hold)]
    exact hold
  · intro k q hq
    by_cases hkn : k = n
    · rw [hkn, Tree.join_up_self] at hq
      rw [hkn, ← Option.some.inj hq, Tree.join_hop_self, Tree.join_hop_of_ne (hon p hp)]
      exact Nat.lt_succ_self _
    · rw [Tree.join_up_of_ne hkn] at hq
      rw [Tree.join_hop_of_ne hkn, Tree.join_hop_of_ne (hon q (h.linked k q hq))]
      exact h.falls k q hq
  · intro k hk
    have hkn := hup k hk
    rw [Tree.join_up_of_ne hkn] at hk
    rw [Tree.join_due_of_ne hkn]
    exact h.idle k hk
  · intro k hkr hk
    rw [Tree.join_up_of_ne (hup k hk)] at hk
    exact h.unlinked k hkr hk
  · exact h.good
  · intro k m hm
    by_cases hkn : k = n
    · rw [hkn, Tree.join_due_self] at hm
      exact hms m hm
    · rw [Tree.join_due_of_ne hkn] at hm
      exact h.sound k m hm
  · intro k q hq
    rw [Tree.join_held]
    by_cases hkn : k = n
    · rw [hkn, Tree.join_up_self] at hq
      rw [hkn, ← Option.some.inj hq, Tree.join_due_self, h.unlinked n hn hfree]
      exact htold
    · rw [Tree.join_up_of_ne hkn] at hq
      rw [Tree.join_due_of_ne hkn]
      exact h.ahead k q hq

/-- **A link breaks**: what stays does not point to what goes. -/
theorem cut {n : ι} (hn : n ≠ root) (hblank : good blank) :
    Synced recv root blank good sound (t.cut blank n) := by
  have hroot : n ∉ t.path root := fun hm =>
    hn (eq_of_behind_top h.root_top (h.mem_path.mp hm))
  have hstay : ∀ k p, (t.cut blank n).up k = some p →
      n ∉ t.path k ∧ n ∉ t.path p ∧ t.up k = some p := by
    intro k p hp
    simp only [Tree.cut] at hp
    split at hp
    · exact absurd hp (by simp)
    · rename_i hk
      refine ⟨hk, fun hpn => hk ?_, hp⟩
      exact h.mem_path.mpr (Relation.ReflTransGen.head hp (h.mem_path.mp hpn))
  constructor
  · exact (if_neg hroot).trans h.root_top
  · intro k p hp
    obtain ⟨-, hpn, hup⟩ := hstay k p hp
    rcases h.linked k p hup with e | ⟨q, hq⟩
    · exact Or.inl e
    · exact Or.inr ⟨q, (if_neg hpn).trans hq⟩
  · intro k p hp
    exact h.falls k p (hstay k p hp).2.2
  · intro k hk
    simp only [Tree.cut] at hk ⊢
    split
    · rfl
    · rename_i hgone
      rw [if_neg hgone] at hk
      exact h.idle k hk
  · intro k hkr hk
    simp only [Tree.cut] at hk ⊢
    split
    · rfl
    · rename_i hgone
      rw [if_neg hgone] at hk
      exact h.unlinked k hkr hk
  · intro k
    simp only [Tree.cut]
    split
    · exact hblank
    · exact h.good k
  · intro k m hm
    simp only [Tree.cut] at hm
    split at hm
    · exact absurd hm List.not_mem_nil
    · exact h.sound k m hm
  · intro k p hp
    obtain ⟨hk, hpn, hup⟩ := hstay k p hp
    simp only [Tree.cut]
    rw [if_neg hk, if_neg hk, if_neg hpn]
    exact h.ahead k p hup

omit [DecidableEq ι] in
/-- **Where nothing is on the way, the copy is the original.** -/
theorem held_eq {n : ι} (hn : n = root ∨ ∃ p, t.up n = some p) (hq : t.Settled n) :
    t.held n = t.held root := by
  induction hr : t.hop n using Nat.strong_induction_on generalizing n with
  | _ k ih =>
    rcases hn with rfl | ⟨p, hp⟩
    · rfl
    · have hup : t.held n = t.held p := by
        have hold := h.ahead n p hp
        rwa [hq n (h.mem_path.mpr Relation.ReflTransGen.refl)] at hold
      have hset : t.Settled p := by
        intro x hx
        exact hq x (h.mem_path.mpr (Relation.ReflTransGen.head hp (h.mem_path.mp hx)))
      rw [hup]
      exact ih (t.hop p) (hr ▸ h.falls n p hp) (h.linked n p hp) hset rfl

end Synced

end Synced

end Cascade
