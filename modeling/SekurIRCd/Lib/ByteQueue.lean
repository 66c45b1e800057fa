/-
# A queue in one block

What waits in the queue is `mem[off..len)` of an allocated block.  Taking from the front only
advances `off`; the part in front of it is reclaimed when room is needed, and the block grows by
doubling when that is not enough.

None of this shows from outside: `pending` is what was stored less what was taken
(`pending_store`, `pending_advance`), and making room, giving room back and starting over at the
front of the block leave it as it is.
-/
import Mathlib.Data.List.Basic
import Mathlib.Data.List.DropRight

namespace ByteQueue

variable {α : Type*}

/-! ## 1. Doubling

The new size is found by a loop. It ends because the size is positive to begin with, and then it is
enough. -/

/-- `while (cap < need) cap *= 2`. -/
def doubledFuel (need : Nat) : Nat → Nat → Nat
  | 0, cap => cap
  | fuel + 1, cap => if cap < need then doubledFuel need fuel (cap * 2) else cap

/-- Each turn adds at least one, so `need` turns are enough. -/
def doubled (need cap : Nat) : Nat := doubledFuel need need cap

theorem le_doubledFuel (need : Nat) :
    ∀ (fuel cap : Nat), 0 < cap → need ≤ cap + fuel → need ≤ doubledFuel need fuel cap
  | 0, _, _, h => h
  | fuel + 1, cap, hpos, h => by
    rw [doubledFuel]
    split
    · exact le_doubledFuel need fuel (cap * 2) (by omega) (by omega)
    · omega

/-- The loop ends with enough room, when it starts from some. -/
theorem le_doubled {need cap : Nat} (h : 0 < cap) : need ≤ doubled need cap :=
  le_doubledFuel need need cap h (by omega)

/-! ## 2. The block

The fields are bounds on the block, so that a queue that would read or write outside it cannot be
built; `store` is the one operation that asks for room. -/

/-- The block, and the part of it that waits: what is in front of `off` has been taken, what is
behind `len` is not in use. -/
structure Queue (α : Type*) where
  mem : List α
  off : Nat
  len : Nat
  off_le : off ≤ len
  len_le : len ≤ mem.length

namespace Queue

/-- An allocated block with nothing in it. -/
def fresh (mem : List α) : Queue α := ⟨mem, 0, 0, le_rfl, Nat.zero_le _⟩

variable (q : Queue α)

def cap : Nat := q.mem.length

/-- How much waits. -/
def waiting : Nat := q.len - q.off

/-- What waits. -/
def pending : List α := (q.mem.take q.len).drop q.off

theorem length_pending : q.pending.length = q.waiting := by
  have := q.len_le
  rw [pending, List.length_drop, List.length_take, waiting]
  omega

theorem pending_of_drained {q : Queue α} (h : q.off = q.len) : q.pending = [] :=
  List.eq_nil_of_length_eq_zero (by rw [length_pending, waiting]; omega)

@[simp] theorem cap_fresh (mem : List α) : (fresh mem).cap = mem.length := rfl

@[simp] theorem pending_fresh (mem : List α) : (fresh mem).pending = [] := rfl

/-- `memmove` of what waits to the front of the block. -/
def reclaim : Queue α where
  mem := q.pending ++ q.mem.drop q.waiting
  off := 0
  len := q.waiting
  off_le := Nat.zero_le _
  len_le := by rw [List.length_append, length_pending]; omega

@[simp] theorem pending_reclaim : q.reclaim.pending = q.pending := by
  show ((q.pending ++ q.mem.drop q.waiting).take q.waiting).drop 0 = q.pending
  rw [List.drop_zero, List.take_left' q.length_pending]

@[simp] theorem cap_reclaim : q.reclaim.cap = q.cap := by
  have := q.len_le
  simp only [cap, reclaim, List.length_append, List.length_drop, length_pending]
  unfold waiting
  omega

/-- `realloc` to a larger block, with whatever is in the new part of it. -/
def grow (c : Nat) (new : Nat → α) : Queue α where
  mem := q.mem ++ (List.range (c - q.cap)).map new
  off := q.off
  len := q.len
  off_le := q.off_le
  len_le := by
    have := q.len_le
    rw [List.length_append]
    omega

@[simp] theorem pending_grow (c : Nat) (new : Nat → α) : (q.grow c new).pending = q.pending := by
  simp only [pending, grow, List.take_append_of_le_length q.len_le]

theorem cap_grow {c : Nat} (h : q.cap ≤ c) (new : Nat → α) : (q.grow c new).cap = c := by
  simp only [cap, grow, List.length_append, List.length_map, List.length_range] at h ⊢
  omega

/-- `memcpy` behind what waits; nothing is written past the block, so a line that has no room would
be cut off here. `fits_room` says that it never is. -/
def store (xs : List α) : Queue α :=
  if h : q.len + xs.length ≤ q.cap then
    { mem := q.mem.take q.len ++ xs ++ q.mem.drop (q.len + xs.length)
      off := q.off
      len := q.len + xs.length
      off_le := Nat.le_add_right_of_le q.off_le
      len_le := by
        have := q.len_le
        simp only [List.length_append, List.length_take, List.length_drop]
        omega }
  else q

theorem pending_store {q : Queue α} {xs : List α} (h : q.len + xs.length ≤ q.cap) :
    (q.store xs).pending = q.pending ++ xs := by
  have hlen : (q.mem.take q.len).length = q.len := by
    rw [List.length_take]
    exact Nat.min_eq_left q.len_le
  have htake : (q.mem.take q.len ++ xs ++ q.mem.drop (q.len + xs.length)).take (q.len + xs.length)
      = q.mem.take q.len ++ xs := by
    rw [List.take_left']
    rw [List.length_append, hlen]
  rw [store, dif_pos h, pending, pending, htake,
    List.drop_append_of_le_length (by rw [hlen]; exact q.off_le)]

theorem cap_store (xs : List α) : (q.store xs).cap = q.cap := by
  unfold store
  split
  · next h =>
    simp only [cap, List.length_append, List.length_take, List.length_drop] at h ⊢
    have := q.len_le
    omega
  · rfl

/-- The socket took `n`. -/
def advance (n : Nat) : Queue α where
  mem := q.mem
  off := min (q.off + n) q.len
  len := q.len
  off_le := Nat.min_le_right _ _
  len_le := q.len_le

theorem pending_advance (n : Nat) : (q.advance n).pending = q.pending.drop n := by
  simp only [pending, advance, List.drop_drop]
  rcases Nat.le_total (q.off + n) q.len with h | h
  · rw [Nat.min_eq_left h]
  · rw [Nat.min_eq_right h, List.drop_eq_nil_of_le (by rw [List.length_take]; omega),
      List.drop_eq_nil_of_le (by rw [List.length_take]; omega)]

/-! ## 3. Room -/

/-- What waits is moved to the front, if something was taken. -/
def front : Queue α := if q.off ≠ 0 then q.reclaim else q

theorem pending_front : q.front.pending = q.pending := by
  unfold front
  split
  · exact q.pending_reclaim
  · rfl

theorem cap_front : q.front.cap = q.cap := by
  unfold front
  split
  · exact q.cap_reclaim
  · rfl

/-- Room for `need` more: what was taken is reclaimed first, and then the block is doubled, from
`start`.  `alloc` is what `realloc` comes back with; the flag says whether there is room now. -/
def room (start : Nat → Nat) (need : Nat) (alloc : Option (Nat → α)) : Queue α × Bool :=
  if q.cap < q.len + need then
    let q' := q.front
    if q'.cap < q'.len + need then
      match alloc with
      | none => (q', false)
      | some new => (q'.grow (doubled (q'.len + need) (start q'.cap)) new, true)
    else (q', true)
  else (q, true)

variable {q} {start : Nat → Nat} {need : Nat} {alloc : Option (Nat → α)}

theorem pending_room : (q.room start need alloc).1.pending = q.pending := by
  unfold room
  split
  · dsimp only
    split
    · cases alloc with
      | none => exact q.pending_front
      | some new => exact (pending_grow _ _ new).trans q.pending_front
    · exact q.pending_front
  · rfl

/-- What `room` says is there. -/
theorem fits_room (hstart : 0 < start q.cap) (h : (q.room start need alloc).2 = true) :
    (q.room start need alloc).1.len + need ≤ (q.room start need alloc).1.cap := by
  unfold room at h ⊢
  split at h
  · next hneed =>
    rw [if_pos hneed]
    dsimp only at h ⊢
    split at h
    · next hneed' =>
      rw [if_pos hneed']
      cases alloc with
      | none => exact absurd h (by simp)
      | some new =>
        have hle : q.front.len + need ≤ doubled (q.front.len + need) (start q.front.cap) :=
          le_doubled (by rw [q.cap_front]; exact hstart)
        show q.front.len + need ≤ (q.front.grow _ new).cap
        rw [cap_grow q.front (hneed'.le.trans hle)]
        exact hle
    · next hfits =>
      rw [if_neg hfits]
      exact Nat.not_lt.mp hfits
  · next hfits =>
    rw [if_neg hfits]
    exact Nat.not_lt.mp hfits

theorem cap_le_cap_room : q.cap ≤ (q.room start need alloc).1.cap := by
  unfold room
  split
  · dsimp only
    split
    · cases alloc with
      | none => exact q.cap_front.ge
      | some new =>
        show q.cap ≤ (q.front.mem ++ _).length
        rw [List.length_append, ← q.cap_front]
        exact Nat.le_add_right _ _
    · exact q.cap_front.ge
  · exact le_rfl

/-- The line behind what waits, and the block that holds it. -/
theorem pending_store_room (start : Nat → Nat) {xs : List α} (hstart : 0 < start q.cap)
    (h : (q.room start xs.length alloc).2 = true) :
    ((q.room start xs.length alloc).1.store xs).pending = q.pending ++ xs := by
  rw [pending_store (fits_room hstart h), pending_room]

end Queue

/-! ## 4. What a queue makes of its lines

Seen from outside, a queue is fed lines and gives bytes. `Flow` says what the bytes have to do with
the lines: they are the lines in their order, and lines are left out only once the queue has been
closed. -/

/-- `out` is made of some of the lines, in order, and of all of them unless the queue was closed.
No line is in it in part, and none is in it twice. -/
def Flow (closed : Bool) (lines : List (List α)) (out : List α) : Prop :=
  ∃ acc, acc.Sublist lines ∧ out = acc.flatten ∧ (closed = false → acc = lines)

namespace Flow

variable {closed closed' : Bool} {lines lines' : List (List α)} {out out' : List α}

theorem nil (closed : Bool) : Flow closed [] ([] : List α) :=
  ⟨[], List.Sublist.slnil, rfl, fun _ => rfl⟩

theorem single (closed : Bool) (line : List α) : Flow closed [line] line :=
  ⟨[line], List.Sublist.refl _, by simp, fun _ => rfl⟩

/-- Once closed, a queue may refuse whatever comes. -/
theorem refused (lines : List (List α)) : Flow true lines [] :=
  ⟨[], List.nil_sublist _, rfl, fun h => absurd h (by simp)⟩

/-- What comes later is behind what was there, and a closed queue stays closed. -/
theorem append (h : Flow closed lines out) (h' : Flow closed' lines' out')
    (hc : closed' = false → closed = false) : Flow closed' (lines ++ lines') (out ++ out') := by
  obtain ⟨acc, hsub, rfl, hall⟩ := h
  obtain ⟨acc', hsub', rfl, hall'⟩ := h'
  refine ⟨acc ++ acc', hsub.append hsub', List.flatten_append.symm, fun hopen => ?_⟩
  rw [hall (hc hopen), hall' hopen]

theorem keep (h : Flow closed lines out) (hc : closed' = false → closed = false) :
    Flow closed' lines out := by
  obtain ⟨acc, hsub, hout, hall⟩ := h
  exact ⟨acc, hsub, hout, fun hopen => hall (hc hopen)⟩

end Flow

end ByteQueue
