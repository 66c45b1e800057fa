/-
# Connection classes

A connection is counted in the first `[[classes]]` entry that matches its address.
`class_count` holds the number of connections in each class, and a class with as many as its
`max_clients` takes no more.

`net_assign_class` counts, `net_release_class` discounts.  What they do is one equation: the count
and the connection's own weight change together (`netAssignClass_weight`).

`irc_ip_mask_match` is a parameter.
-/
import SekurIRCd.Lib.CString

namespace SekurIRCd

open CLib

/-! ## 1. Classes and connections

A connection has the index of its class, if it has one; what it adds to the counts is a number for
each class. -/

/-- `cfg_class_t`: the fields that decide on admission. -/
structure ConnClass where
  hosts : List Text
  maxClients : Nat
  maxPerIp : Nat
  sendqMax : Nat
deriving DecidableEq, Repr

/-- `client_t`: the fields that admission and the class count read and write. -/
structure Connection where
  fd : Option Nat
  ip : Text
  countKey : Text
  classIdx : Option Nat
  sendqMax : Nat
  quitting : Bool
deriving DecidableEq, Repr

def cfgMaxClasses : Nat := 16

/-- `client_new`. -/
def clientNew (fd : Option Nat) : Connection :=
  { fd, ip := [], countKey := [], classIdx := none, sendqMax := 0, quitting := false }

/-- What a connection adds to the count of class `i`. -/
def Connection.weight (i : Nat) (c : Connection) : Nat := if c.classIdx = some i then 1 else 0

theorem weight_eq_zero {c : Connection} : (∀ i, c.weight i = 0) ↔ c.classIdx = none := by
  simp only [Connection.weight, ite_eq_right_iff, one_ne_zero, imp_false]
  exact Option.eq_none_iff_forall_ne_some.symm

/-- How many of the connections are in class `i`. -/
def occupied (i : Nat) (cs : List Connection) : Nat := (cs.map (Connection.weight i)).sum

@[simp] theorem occupied_nil (i : Nat) : occupied i [] = 0 := rfl

@[simp] theorem occupied_cons (i : Nat) (c : Connection) (cs : List Connection) :
    occupied i (c :: cs) = c.weight i + occupied i cs := by simp [occupied]

@[simp] theorem occupied_append (i : Nat) (cs ds : List Connection) :
    occupied i (cs ++ ds) = occupied i cs + occupied i ds := by simp [occupied]

theorem weight_le_occupied {i : Nat} {c : Connection} : ∀ {cs : List Connection}, c ∈ cs →
    c.weight i ≤ occupied i cs
  | d :: cs, h => by
    rw [occupied_cons]
    rcases List.mem_cons.mp h with rfl | h
    · exact Nat.le_add_right _ _
    · exact (weight_le_occupied h).trans (Nat.le_add_left _ _)

theorem occupied_eraseIdx {i k : Nat} {c : Connection} : ∀ {cs : List Connection},
    cs[k]? = some c → occupied i (cs.eraseIdx k) + c.weight i = occupied i cs := by
  induction k with
  | zero =>
    rintro (_ | ⟨d, cs⟩) h
    · simp at h
    · simp only [List.getElem?_cons_zero, Option.some.injEq] at h
      subst h
      simp only [List.eraseIdx_cons_zero, occupied_cons]
      omega
  | succ k ih =>
    rintro (_ | ⟨d, cs⟩) h
    · simp at h
    · have hk : occupied i (cs.eraseIdx k) + c.weight i = occupied i cs := ih (by simpa using h)
      simp only [List.eraseIdx_cons_succ, occupied_cons]
      omega

theorem occupied_set {i k : Nat} {c : Connection} (d : Connection) : ∀ {cs : List Connection},
    cs[k]? = some c →
      occupied i (cs.set k d) + c.weight i = occupied i cs + d.weight i := by
  induction k with
  | zero =>
    rintro (_ | ⟨e, cs⟩) h
    · simp at h
    · simp only [List.getElem?_cons_zero, Option.some.injEq] at h
      subst h
      simp only [List.set_cons_zero, occupied_cons]
      omega
  | succ k ih =>
    rintro (_ | ⟨e, cs⟩) h
    · simp at h
    · have hk : occupied i (cs.set k d) + c.weight i = occupied i cs + d.weight i :=
        ih (by simpa using h)
      simp only [List.set_cons_succ, occupied_cons]
      omega

/-! ## 2. Counting and discounting

An equation between sums says at once that the class that was left is one less and the class that
was entered one more. -/

section Assign

variable (ipMaskMatch : Text → Text → Bool)

/-- `net_release_class`. -/
def netReleaseClass (count : Nat → Nat) (c : Connection) : (Nat → Nat) × Connection :=
  (match c.classIdx with
    | some i =>
      if i < cfgMaxClasses ∧ 0 < count i then Function.update count i (count i - 1) else count
    | none => count,
   { c with classIdx := none, sendqMax := 0 })

/-- The class of an address: the first that matches, and its index. -/
def classFor (classes : List ConnClass) (ip : Text) : Option (ConnClass × Nat) :=
  classes.zipIdx.find? fun p => p.1.hosts.any (ipMaskMatch · ip)

/-- `net_assign_class`; `false` is its `-1`. The connection is released from the class it had
first, and a class that is full leaves it without one. -/
def netAssignClass (classes : List ConnClass) (count : Nat → Nat) (c : Connection) :
    Bool × (Nat → Nat) × Connection :=
  let r := netReleaseClass count c
  match classFor ipMaskMatch classes c.ip with
  | none => (true, r)
  | some (cc, i) =>
    if 0 < cc.maxClients ∧ cc.maxClients ≤ r.1 i then (false, r)
    else
      (true, Function.update r.1 i (r.1 i + 1),
        { r.2 with classIdx := some i, sendqMax := cc.sendqMax })

/-- One turn of the loop of `net_reclass_all`. -/
def reclassOne (classes : List ConnClass) (acc : (Nat → Nat) × List Connection) (c : Connection) :
    (Nat → Nat) × List Connection :=
  let a := netAssignClass ipMaskMatch classes acc.1 { c with classIdx := none }
  (a.2.1, acc.2 ++ [a.2.2])

/-- `net_reclass_all`: every count starts again, and every connection is assigned anew. -/
def netReclassAll (classes : List ConnClass) (cs : List Connection) :
    (Nat → Nat) × List Connection :=
  cs.foldl (reclassOne ipMaskMatch classes) (fun _ => 0, [])

variable {ipMaskMatch} {classes : List ConnClass} {count : Nat → Nat} {c : Connection}

theorem netReleaseClass_weight (hidx : ∀ i, c.classIdx = some i → i < cfgMaxClasses)
    (hle : ∀ i, c.weight i ≤ count i) (i : Nat) :
    (netReleaseClass count c).1 i + c.weight i = count i := by
  unfold netReleaseClass
  cases hc : c.classIdx with
  | none => simp [Connection.weight, hc]
  | some j =>
    have hj : 1 ≤ count j := by simpa [Connection.weight, hc] using hle j
    simp only [Connection.weight, hc, Option.some.injEq]
    rw [if_pos ⟨hidx j hc, hj⟩]
    by_cases hij : j = i
    · subst hij
      rw [Function.update_self, if_pos rfl]
      omega
    · rw [Function.update_of_ne fun e => hij e.symm, if_neg hij]
      rfl

theorem classFor_lt {ip : Text} {cc : ConnClass} {i : Nat}
    (h : classFor ipMaskMatch classes ip = some (cc, i)) : i < classes.length := by
  have hm := List.mem_of_find?_eq_some h
  have := List.snd_lt_of_mem_zipIdx hm
  simpa using this

/-- A class with room takes the connection, and one without does not. -/
theorem netAssignClass_admits {cc : ConnClass} {i : Nat}
    (h : classFor ipMaskMatch classes c.ip = some (cc, i)) :
    (netAssignClass ipMaskMatch classes count c).1 = true ↔
      cc.maxClients = 0 ∨ (netReleaseClass count c).1 i < cc.maxClients := by
  simp only [netAssignClass, h]
  split
  · rename_i hfull
    simp
    omega
  · rename_i hroom
    simp
    omega

/-- **The count and the connection's weight change together.** What is left over is the same before
and after, whatever the outcome. -/
theorem netAssignClass_weight (hidx : ∀ i, c.classIdx = some i → i < cfgMaxClasses)
    (hle : ∀ i, c.weight i ≤ count i) (i : Nat) :
    (netAssignClass ipMaskMatch classes count c).2.1 i + c.weight i =
      count i + (netAssignClass ipMaskMatch classes count c).2.2.weight i := by
  have hrel := netReleaseClass_weight hidx hle i
  have hnone : (netReleaseClass count c).2.weight i = 0 := by simp [netReleaseClass, Connection.weight]
  simp only [netAssignClass]
  split
  · simp only [hnone]
    omega
  · rename_i cc j hcls
    split
    · simp only [hnone]
      omega
    · simp only []
      by_cases hij : j = i
      · subst hij
        simp only [Function.update_self, Connection.weight, if_true] at hrel ⊢
        omega
      · rw [Function.update_of_ne fun e => hij e.symm]
        simp only [Connection.weight, Option.some.injEq, hij, if_false] at hrel ⊢
        omega

theorem netAssignClass_refused (h : (netAssignClass ipMaskMatch classes count c).1 = false) :
    (netAssignClass ipMaskMatch classes count c).2.2.classIdx = none := by
  simp only [netAssignClass] at h ⊢
  split at h
  · exact absurd h (by simp)
  · split at h
    · rename_i hfull
      rw [if_pos hfull]
      rfl
    · exact absurd h (by simp)

/-- An address of no class gets none, and only that. -/
theorem netAssignClass_classIdx_eq_none
    (h : (netAssignClass ipMaskMatch classes count c).1 = true) :
    (netAssignClass ipMaskMatch classes count c).2.2.classIdx = none ↔
      classFor ipMaskMatch classes c.ip = none := by
  simp only [netAssignClass] at h ⊢
  split at h
  · rename_i hcls
    simp [hcls, netReleaseClass]
  · rename_i hcls
    split at h
    · exact absurd h (by simp)
    · rename_i hroom
      simp [hcls, if_neg hroom]

theorem netAssignClass_classIdx {i : Nat}
    (h : (netAssignClass ipMaskMatch classes count c).2.2.classIdx = some i) :
    i < classes.length := by
  simp only [netAssignClass] at h
  split at h
  · exact absurd h (by simp [netReleaseClass])
  · rename_i hcls
    split at h
    · exact absurd h (by simp [netReleaseClass])
    · simp only [Option.some.injEq] at h
      exact h ▸ classFor_lt hcls

end Assign

/-! ## 3. A new class list

A rehash sets all counts to 0 and assigns every connection anew, so it also repairs them. -/

section Reclass

variable {ipMaskMatch : Text → Text → Bool} {classes : List ConnClass}

/-- After `net_reclass_all` every count is exact, whatever it was before. -/
theorem netReclassAll_occupied (cs : List Connection) (i : Nat) :
    (netReclassAll ipMaskMatch classes cs).1 i =
      occupied i (netReclassAll ipMaskMatch classes cs).2 := by
  refine List.foldlRecOn (motive := fun acc => acc.1 i = occupied i acc.2) cs
    (reclassOne ipMaskMatch classes) (b := (fun _ => 0, [])) rfl fun acc hacc c _ => ?_
  have hw : (netAssignClass ipMaskMatch classes acc.1 { c with classIdx := none }).2.1 i +
      Connection.weight i { c with classIdx := none } = _ :=
    netAssignClass_weight (by simp) (by simp [Connection.weight]) i
  simp only [reclassOne, occupied_append, occupied_cons, occupied_nil, ← hacc]
  simpa [Connection.weight] using hw

theorem netReclassAll_classIdx {cs : List Connection} {c : Connection} {i : Nat}
    (hm : c ∈ (netReclassAll ipMaskMatch classes cs).2) (hc : c.classIdx = some i) :
    i < classes.length := by
  have hall : ∀ d ∈ (netReclassAll ipMaskMatch classes cs).2, ∀ i, d.classIdx = some i →
      i < classes.length := by
    refine List.foldlRecOn (motive := fun acc => ∀ d ∈ acc.2, ∀ i, d.classIdx = some i →
      i < classes.length) cs (reclassOne ipMaskMatch classes) (b := (fun _ => 0, []))
      (fun _ h => absurd h List.not_mem_nil) fun acc hacc e _ d hd i hi => ?_
    rcases List.mem_append.mp hd with hd | hd
    · exact hacc d hd i hi
    · rw [List.mem_singleton] at hd
      subst hd
      exact netAssignClass_classIdx hi
  exact hall c hm i hc

end Reclass

end SekurIRCd
