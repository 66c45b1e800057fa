/-
# Messages passed along a network of FIFO channels

The nodes of a network pass messages on to one another.  Every message is of a class, and of each
class it is fixed at which node it starts and from which node to which it is passed on
(`Routes`): every node has at most one predecessor, and the source has none.  Nothing else is
assumed of the routes; a node may pass a message on to none, to one or to many.

What holds then in any interleaving is exact (`Flows`): what a node has passed on of a class, with
what is on its way to it, is what its predecessor has passed on, in the same order.  So no message
is lost, doubled or overtaken by one of its class, and when nothing is on its way every node along
the routes has seen all of them.

The last section has the routes of a tree: to everyone (`Audience.all`), which a node serves by
passing on to every neighbour but the one a message comes from, and to one node
(`Audience.one`), which it serves by passing on to the neighbour nearest to that node.
-/
import Mathlib.Combinatorics.SimpleGraph.Acyclic
import Mathlib.Combinatorics.SimpleGraph.Metric

namespace Relay

/-! ## 1. Routes and networks

A channel is a list, oldest message first, and a node keeps what it has passed on. A step is one
message at one node, so a run is any interleaving. -/

/-- Where the messages of each class start, and from which node to which they are passed on. The
two fields that are proofs are all that the invariant needs of a network. -/
structure Routes (V K : Type*) where
  source : K → V
  next : K → V → V → Prop
  pred_unique : ∀ {k u u' v}, next k u v → next k u' v → u = u'
  no_pred : ∀ {k u}, ¬ next k u (source k)
  no_loop : ∀ {k u}, ¬ next k u u

/-- What is on its way from each node to each other, and what each node has passed on; the oldest
message stands first. -/
structure Net (V M : Type*) where
  wire : V → V → List M
  passed : V → List M

variable {V M K : Type*} (R : Routes V K) (cls : M → K)

open Classical in
/-- Those of one class. -/
noncomputable def ofClass (k : K) (ms : List M) : List M := ms.filter fun m => cls m = k

namespace Net

/-- Nothing has happened. -/
def start : Net V M := ⟨fun _ _ => [], fun _ => []⟩

open Classical in
/-- The node `v` passes a message on. -/
noncomputable def pass (n : Net V M) (v : V) (m : M) : Net V M where
  wire a b := if a = v ∧ R.next (cls m) v b then n.wire a b ++ [m] else n.wire a b
  passed a := if a = v then n.passed a ++ [m] else n.passed a

open Classical in
/-- What is on its way from `u` to `v` becomes `rest`. -/
noncomputable def setWire (n : Net V M) (u v : V) (rest : List M) : Net V M :=
  { n with wire := fun a b => if a = u ∧ b = v then rest else n.wire a b }

/-- Nothing is on its way. -/
def Quiet (n : Net V M) : Prop := ∀ u v, n.wire u v = []

end Net

/-- A message starts at its source, or the oldest one on a channel arrives. -/
inductive Step : Net V M → Net V M → Prop
  | start (n : Net V M) (m : M) : Step n (n.pass R cls (R.source (cls m)) m)
  | arrive {n : Net V M} {u v : V} {m : M} {rest : List M} (h : n.wire u v = m :: rest) :
      Step n ((n.setWire u v rest).pass R cls v m)

/-- Any number of steps. -/
def Steps : Net V M → Net V M → Prop := Relation.ReflTransGen (Step R cls)

/-! ## 2. One step -/

section OfClass

variable {cls} {k : K}

@[simp] theorem ofClass_nil : ofClass cls k [] = [] := rfl

@[simp] theorem ofClass_append (ms ns : List M) :
    ofClass cls k (ms ++ ns) = ofClass cls k ms ++ ofClass cls k ns := List.filter_append ..

theorem ofClass_self (m : M) (ms : List M) :
    ofClass cls (cls m) (m :: ms) = m :: ofClass cls (cls m) ms := by
  simp [ofClass]

theorem ofClass_other {m : M} (h : cls m ≠ k) (ms : List M) :
    ofClass cls k (m :: ms) = ofClass cls k ms := by
  simp [ofClass, h]

end OfClass

variable {R cls} {n : Net V M} {v : V} {m : M} {k : K}

namespace Net

theorem passed_pass_self : (n.pass R cls v m).passed v = n.passed v ++ [m] := if_pos rfl

theorem passed_pass_other {a : V} (h : a ≠ v) : (n.pass R cls v m).passed a = n.passed a := if_neg h

theorem wire_pass_next {b : V} (h : R.next (cls m) v b) :
    (n.pass R cls v m).wire v b = n.wire v b ++ [m] := if_pos ⟨rfl, h⟩

theorem wire_pass_other {a b : V} (h : ¬ (a = v ∧ R.next (cls m) v b)) :
    (n.pass R cls v m).wire a b = n.wire a b := if_neg h

/-- Passing a message on is seen by its class only. -/
theorem ofClass_pass_passed (h : cls m ≠ k) (a : V) :
    ofClass cls k ((n.pass R cls v m).passed a) = ofClass cls k (n.passed a) := by
  by_cases ha : a = v
  · rw [ha, passed_pass_self, ofClass_append, ofClass_other h, ofClass_nil, List.append_nil]
  · rw [passed_pass_other ha]

theorem ofClass_pass_wire (h : cls m ≠ k) (a b : V) :
    ofClass cls k ((n.pass R cls v m).wire a b) = ofClass cls k (n.wire a b) := by
  by_cases hb : a = v ∧ R.next (cls m) v b
  · obtain ⟨rfl, hb⟩ := hb
    rw [wire_pass_next hb, ofClass_append, ofClass_other h, ofClass_nil, List.append_nil]
  · rw [wire_pass_other hb]

@[simp] theorem passed_setWire (u v : V) (rest : List M) :
    (n.setWire u v rest).passed = n.passed := rfl

theorem wire_setWire_self (u v : V) (rest : List M) : (n.setWire u v rest).wire u v = rest :=
  if_pos ⟨rfl, rfl⟩

theorem wire_setWire_other {u v a b : V} (rest : List M) (h : ¬ (a = u ∧ b = v)) :
    (n.setWire u v rest).wire a b = n.wire a b := if_neg h

end Net

open Net

/-! ## 3. What every interleaving keeps

The invariant speaks of one class at a time: with routes that give every node one predecessor, each
node's history is its predecessor's, delayed. -/

variable (R cls) in
/-- **Nothing is lost, doubled or overtaken**: what a node has passed on of a class and what is on
its way to it are what its predecessor has passed on. Where no route leads nothing ever is. -/
structure Flows (n : Net V M) : Prop where
  along : ∀ {k u v}, R.next k u v →
    ofClass cls k (n.passed v) ++ ofClass cls k (n.wire u v) = ofClass cls k (n.passed u)
  off : ∀ {k u v}, ¬ R.next k u v → ofClass cls k (n.wire u v) = []

theorem flows_start : Flows R cls (Net.start : Net V M) := ⟨fun _ => rfl, fun _ => rfl⟩

/-- A node that passes a message on keeps the flow of its class, if the message was one the node
had yet to see: one from nowhere at the source, and elsewhere the oldest from its predecessor. -/
theorem Flows.pass {n' : Net V M} (hsame : n'.passed = n.passed) (h : Flows R cls n)
    (hwire : ∀ {a b}, b ≠ v → n'.wire a b = n.wire a b)
    (hother : ∀ {k}, k ≠ cls m → ∀ a, ofClass cls k (n'.wire a v) = ofClass cls k (n.wire a v))
    (hinto : ∀ {a}, R.next (cls m) a v →
      ofClass cls (cls m) (n.wire a v) = m :: ofClass cls (cls m) (n'.wire a v))
    (hoff : ∀ {a}, ¬ R.next (cls m) a v → ofClass cls (cls m) (n'.wire a v) = []) :
    Flows R cls (n'.pass R cls v m) := by
  constructor
  · intro k a b hab
    by_cases hk : cls m = k
    · subst hk
      by_cases hb : b = v
      · -- the channel the message came along
        subst hb
        have hne : a ≠ b := fun e => R.no_loop (e ▸ hab)
        have hthere : ¬ (a = b ∧ R.next (cls m) b b) := fun e => hne e.1
        rw [passed_pass_self, wire_pass_other hthere, passed_pass_other hne, hsame, ofClass_append,
          ofClass_self, ofClass_nil, List.append_assoc, List.singleton_append, ← hinto hab]
        exact h.along hab
      · rw [passed_pass_other hb, hsame]
        by_cases ha : a = v
        · subst ha
          rw [wire_pass_next hab, passed_pass_self, hwire hb, hsame, ofClass_append, ofClass_append,
            ← List.append_assoc, h.along hab]
        · rw [wire_pass_other fun e => ha e.1, passed_pass_other ha, hwire hb, hsame]
          exact h.along hab
    · rw [ofClass_pass_passed hk, ofClass_pass_passed hk, ofClass_pass_wire hk, hsame]
      by_cases hb : b = v
      · rw [hb, hother (Ne.symm hk), ← hb]
        exact h.along hab
      · rw [hwire hb]
        exact h.along hab
  · intro k a b hab
    have hold : ofClass cls k (n'.wire a b) = [] := by
      by_cases hb : b = v
      · subst hb
        by_cases hk : cls m = k
        · subst hk
          exact hoff hab
        · rw [hother (Ne.symm hk)]
          exact h.off hab
      · rw [hwire hb]
        exact h.off hab
    by_cases hk : cls m = k
    · subst hk
      rw [wire_pass_other fun e => hab (by rw [e.1]; exact e.2), hold]
    · rw [ofClass_pass_wire hk, hold]

/-- **The step lemma.** A start lengthens the history of the source, and an arrival moves one
message from a channel to what its node has passed on, and on to the next channels. -/
theorem Flows.step {n n' : Net V M} (h : Flows R cls n) (hstep : Step R cls n n') :
    Flows R cls n' := by
  cases hstep with
  | start m =>
    exact h.pass rfl (fun _ => rfl) (fun _ _ => rfl) (fun hn => absurd hn R.no_pred)
      fun hn => h.off hn
  | @arrive u v m rest hw =>
    have hself := wire_setWire_self (n := n) u v rest
    have hhere : R.next (cls m) u v := by
      by_contra hn
      have hoff := h.off hn
      rw [hw, ofClass_self] at hoff
      exact List.cons_ne_nil _ _ hoff
    refine Flows.pass (n := n) rfl h
      (fun hb => wire_setWire_other rest fun e => hb e.2) (fun {k} hk a => ?_)
      (fun {a} hn => ?_) (fun {a} hn => ?_)
    · by_cases ha : a = u
      · rw [ha, hself, hw, ofClass_other (Ne.symm hk)]
      · rw [wire_setWire_other rest fun e => ha e.1]
    · rw [R.pred_unique hn hhere, hself, hw, ofClass_self]
    · have ha : a ≠ u := fun e => hn (e ▸ hhere)
      rw [wire_setWire_other rest fun e => ha e.1]
      exact h.off hn

/-- **The run lemma.** -/
theorem Flows.steps {n n' : Net V M} (h : Flows R cls n) (hrun : Steps R cls n n') :
    Flows R cls n' := by
  induction hrun with
  | refl => exact h
  | tail _ hstep ih => exact ih.step hstep

/-- A message arrives only along the routes of its class. -/
theorem Flows.next_of_wire (h : Flows R cls n) {u : V} {rest : List M}
    (hw : n.wire u v = m :: rest) : R.next (cls m) u v := by
  by_contra hn
  have hoff := h.off hn
  rw [hw, ofClass_self] at hoff
  exact List.cons_ne_nil _ _ hoff

/-- The nodes a class is passed on to. -/
def Routes.Reaches (R : Routes V K) (k : K) (v : V) : Prop :=
  Relation.ReflTransGen (R.next k) (R.source k) v

/-- **In order and at most once**: what a node has seen of a class is the beginning of what the
source has sent. -/
theorem Flows.prefix_source (h : Flows R cls n) (hv : R.Reaches k v) :
    ofClass cls k (n.passed v) <+: ofClass cls k (n.passed (R.source k)) := by
  induction hv with
  | refl => exact List.prefix_rfl
  | tail _ hab ih => exact List.IsPrefix.trans ⟨_, h.along hab⟩ ih

/-- **Exactly once, when nothing is on its way.** -/
theorem Flows.eq_source (h : Flows R cls n) (hq : n.Quiet) (hv : R.Reaches k v) :
    ofClass cls k (n.passed v) = ofClass cls k (n.passed (R.source k)) := by
  induction hv with
  | refl => rfl
  | tail _ hab ih =>
    have halong := h.along hab
    rw [hq, ofClass_nil, List.append_nil] at halong
    rw [halong, ih]

/-- Classes that are told apart further, along the same routes. -/
def Routes.comap {L : Type*} (R : Routes V K) (f : L → K) : Routes V L where
  source l := R.source (f l)
  next l := R.next (f l)
  pred_unique := R.pred_unique
  no_pred := R.no_pred
  no_loop := R.no_loop

/-! ## 4. Trees

In a tree there is one path between two nodes, so going away from the sender reaches every node
once, and going toward the addressee meets it. -/

/-- To whom a message is addressed: to everyone, or to one node; and who sends it. -/
inductive Audience (V : Type*)
  | all (o : V)
  | one (o d : V)
deriving DecidableEq

section Tree

variable {G : SimpleGraph V} (hG : G.IsTree)

include hG

/-- Only one neighbour of a node is nearer to `o` than the node. -/
theorem nearer_unique {o u u' v : V} (hu : G.Adj u v) (hu' : G.Adj u' v)
    (h : G.dist o v = G.dist o u + 1) (h' : G.dist o v = G.dist o u' + 1) : u = u' := by
  obtain ⟨q, hq, -⟩ := hG.connected.exists_path_of_dist o v
  have hmem : ∀ {x : V}, G.Adj x v → G.dist o v = G.dist o x + 1 → x ∈ q.support := by
    intro x hx hd
    obtain ⟨p, hp, hlen⟩ := hG.connected.exists_path_of_dist o x
    by_contra hn
    classical
    have hv := hG.isAcyclic.mem_support_of_ne_mem_support_of_adj_of_isPath hp hq hx hn
    have hle := SimpleGraph.dist_le (p.takeUntil v hv)
    have hsub := p.length_takeUntil_le_length hv
    omega
  rw [hG.isAcyclic.eq_penultimate_of_adj_end hq hu.symm (hmem hu h),
    hG.isAcyclic.eq_penultimate_of_adj_end hq hu'.symm (hmem hu' h')]

/-- Some neighbour of a node other than `d` is nearer to `d`. -/
theorem exists_nearer {v d : V} (h : v ≠ d) : ∃ w, G.Adj v w ∧ G.dist w d + 1 = G.dist v d := by
  obtain ⟨p, -, hlen⟩ := hG.connected.exists_path_of_dist v d
  cases p with
  | nil => exact absurd rfl h
  | @cons _ w _ hw q =>
    refine ⟨w, hw, ?_⟩
    have hle := SimpleGraph.dist_le q
    rw [SimpleGraph.Walk.length_cons] at hlen
    have hstep := hG.dist_eq_dist_add_one_of_adj d hw
    rw [G.dist_comm (u := d), G.dist_comm (u := d)] at hstep
    omega

/-- A step toward `d` from a node between `o` and `d` leads away from `o`, and stays between. -/
theorem between_step {o d u v : V} (hadj : G.Adj u v) (hu : G.dist o u + G.dist u d = G.dist o d)
    (hv : G.dist v d + 1 = G.dist u d) :
    G.dist o v = G.dist o u + 1 ∧ G.dist o v + G.dist v d = G.dist o d := by
  have hstep := hG.dist_eq_dist_add_one_of_adj o hadj
  have htri := hG.connected.dist_triangle (u := o) (v := v) (w := d)
  omega

/-- The routes of a tree: away from the sender, or along the path to the addressee. -/
def treeRoutes : Routes V (Audience V) where
  source
    | .all o => o
    | .one o _ => o
  next
    | .all o, u, v => G.Adj u v ∧ G.dist o v = G.dist o u + 1
    | .one o d, u, v => G.Adj u v ∧ G.dist o u + G.dist u d = G.dist o d ∧
        G.dist v d + 1 = G.dist u d
  pred_unique := by
    rintro (o | ⟨o, d⟩) u u' v h h'
    · exact nearer_unique hG h.1 h'.1 h.2 h'.2
    · exact nearer_unique hG h.1 h'.1 (between_step hG h.1 h.2.1 h.2.2).1
        (between_step hG h'.1 h'.2.1 h'.2.2).1
  no_pred := by
    rintro (o | ⟨o, d⟩) u h
    · have h2 := h.2
      rw [SimpleGraph.dist_self] at h2
      omega
    · have h2 := (between_step hG h.1 h.2.1 h.2.2).1
      rw [SimpleGraph.dist_self] at h2
      omega
  no_loop := by
    rintro (o | ⟨o, d⟩) u h
    · exact h.1.ne rfl
    · exact h.1.ne rfl

/-- **To everyone**: the sender passes on to every neighbour, -/
theorem all_from_source {o v : V} : (treeRoutes hG).next (.all o) o v ↔ G.Adj o v := by
  refine ⟨fun h => h.1, fun h => ⟨h, ?_⟩⟩
  rw [SimpleGraph.dist_self]
  exact SimpleGraph.dist_eq_one_iff_adj.mpr h

/-- and every other node to every neighbour but the one the message comes from. -/
theorem all_onward {o u v w : V} (h : (treeRoutes hG).next (.all o) u v) :
    (treeRoutes hG).next (.all o) v w ↔ G.Adj v w ∧ w ≠ u := by
  constructor
  · rintro ⟨hadj, hd⟩
    refine ⟨hadj, ?_⟩
    rintro rfl
    have h2 := h.2
    omega
  · rintro ⟨hadj, hne⟩
    refine ⟨hadj, (hG.dist_eq_dist_add_one_of_adj o hadj).resolve_left fun hback => ?_⟩
    exact hne (nearer_unique hG hadj.symm h.1 hback h.2)

/-- **To one node**: every node on the way passes on to the neighbour nearest to it. -/
theorem one_from_source {o d v : V} :
    (treeRoutes hG).next (.one o d) o v ↔ G.Adj o v ∧ G.dist v d + 1 = G.dist o d := by
  refine ⟨fun h => ⟨h.1, h.2.2⟩, fun h => ⟨h.1, ?_, h.2⟩⟩
  rw [SimpleGraph.dist_self, Nat.zero_add]

theorem one_onward {o d u v w : V} (h : (treeRoutes hG).next (.one o d) u v) :
    (treeRoutes hG).next (.one o d) v w ↔ G.Adj v w ∧ G.dist w d + 1 = G.dist v d :=
  ⟨fun h' => ⟨h'.1, h'.2.2⟩, fun h' => ⟨h'.1, (between_step hG h.1 h.2.1 h.2.2).2, h'.2⟩⟩

theorem reaches_all (o v : V) : (treeRoutes hG).Reaches (.all o) v := by
  induction hn : G.dist o v generalizing v with
  | zero =>
    rw [hG.connected.dist_eq_zero_iff] at hn
    rw [← hn]
    exact .refl
  | succ n ih =>
    have hne : v ≠ o := by
      rintro rfl
      rw [SimpleGraph.dist_self] at hn
      omega
    obtain ⟨u, hadj, hu⟩ := exists_nearer hG hne
    rw [G.dist_comm (v := o), G.dist_comm (v := o)] at hu
    exact .tail (ih u (by omega)) ⟨hadj.symm, hu.symm⟩

theorem reaches_one (o d : V) : (treeRoutes hG).Reaches (.one o d) d := by
  have hpath : ∀ n v, G.dist v d = n → G.dist o v + G.dist v d = G.dist o d →
      Relation.ReflTransGen ((treeRoutes hG).next (.one o d)) v d := by
    intro n
    induction n with
    | zero =>
      intro v hv _
      rw [hG.connected.dist_eq_zero_iff] at hv
      rw [hv]
    | succ n ih =>
      intro v hv hon
      have hne : v ≠ d := by
        rintro rfl
        rw [SimpleGraph.dist_self] at hv
        omega
      obtain ⟨w, hadj, hw⟩ := exists_nearer hG hne
      exact .head ⟨hadj, hon, hw⟩ (ih w (by omega) (between_step hG hadj hon hw).2)
  refine hpath _ o rfl ?_
  rw [SimpleGraph.dist_self, Nat.zero_add]

end Tree

end Relay
