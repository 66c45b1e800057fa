/-
# The ring of a conversation's history

The last messages of a conversation are kept in a ring that grows on demand, by doubling, up to
the configured size; once it is full each message overwrites the oldest.  A redaction takes one
out and lays the rest out flat again.  The growth relies on the oldest message being at slot 0
while the ring is not full.

Reads and writes outside the allocated slots, and of slots that hold nothing, fail here.
`history_refines` says that none does, and that what is found is a plain bounded list.
-/
import SekurIRCd.Lib.CString
import Mathlib.Data.List.Induction

namespace SekurIRCd

open CLib

/-! ## 1. The code

A pointer to a slot is its index, and reading or writing one that is not allocated, or releasing
one that is empty, is `none`. The loops are those of the source, with the index counted down. -/

/-- `hist_entry_t`. -/
structure HistEntry where
  ms : Int
  msgid : Text
  sender : Text
  account : Text
  verb : Text
  target : Text
  text : Text
deriving DecidableEq, Repr

/-- `entry_dup`, with `HIST_FIELD_MAX`. -/
def entryDup (src : HistEntry) : HistEntry where
  ms := src.ms
  msgid := src.msgid.take 47
  sender := src.sender.take 159
  account := src.account.take 31
  verb := src.verb.take 7
  target := src.target.take 71
  text := src.text.take 4200

/-- `hist_buf_t`. `e` is NULL if it has no slots; a slot that holds no entry is `none`. `alloc` is
how many slots there are and `cap` how many there may be. -/
structure HistBuf where
  cap : Nat
  alloc : Nat
  head : Nat
  n : Nat
  e : List (Option HistEntry)
  lastMs : Int
deriving DecidableEq, Repr

def HistBuf.zero : HistBuf := ⟨0, 0, 0, 0, [], 0⟩

namespace HistBuf

variable (b : HistBuf)

/-- `b->e[i]`. -/
def slot (i : Nat) : Option HistEntry := (b.e[i]?).join

/-- `entry_release`. -/
def release (i : Nat) : Option HistBuf := do
  let _ ← b.slot i
  some { b with e := b.e.set i none }

/-- An entry is written. -/
def store (i : Nat) (copy : HistEntry) : Option HistBuf :=
  if i < b.e.length then some { b with e := b.e.set i (some copy), lastMs := copy.ms } else none

/-- The loop of `hist_buf_clear`. -/
def releaseAll : Nat → Option HistBuf
  | 0 => some b
  | k + 1 => do
    let b' ← releaseAll k
    b'.release ((b.head + k) % b.cap)

/-- `hist_buf_clear`. -/
def clear : Option HistBuf := do
  let b' ← b.releaseAll b.n
  some { b' with e := [], alloc := 0, head := 0, n := 0 }

/-- Full but not at the cap yet: double. The entries are not moved, which is right only because the
oldest is at slot 0 by then. -/
def grow : HistBuf :=
  if b.n = b.alloc ∧ b.alloc < b.cap then
    let na := min (if b.alloc = 0 then 4 else b.alloc * 2) b.cap
    { b with e := b.e ++ List.replicate (na - b.alloc) none, alloc := na }
  else b

/-- The end of `hist_buf_add`: the oldest is overwritten, or the entry is added. -/
def put (copy : HistEntry) : Option HistBuf :=
  if b.n = b.cap then do
    let b' ← b.release b.head
    { b' with head := (b.head + 1) % b.cap }.store b.head copy
  else { b with n := b.n + 1 }.store b.n copy

/-- The ring starts over at another size. -/
def startOver (cap : Nat) : Option HistBuf := if b.e ≠ [] ∧ b.cap ≠ cap then b.clear else some b

/-- `hist_buf_add`. -/
def add (cap : Nat) (entry : HistEntry) : Option HistBuf :=
  if cap = 0 then some b
  else do
    let b' ← b.startOver cap
    ({ b' with cap := cap }.grow).put (entryDup entry)

/-- `hist_buf_at`: NULL, or an entry. -/
def entryAt (i : Nat) : Option (Option HistEntry) :=
  if b.e = [] ∨ i ≥ b.n then some none else (b.slot ((b.head + i) % b.cap)).map some

/-- The loop of `find_index`, from `k - 1` down. -/
def findIndexFrom (msgid : Text) : Nat → Option (Option Nat)
  | 0 => some none
  | k + 1 => do
    let e ← b.slot ((b.head + k) % b.cap)
    if e.msgid = msgid then some (some k) else findIndexFrom msgid k

/-- `find_index`. -/
def findIndex (msgid : Text) : Option (Option Nat) := b.findIndexFrom msgid b.n

/-- The first `k` entries, laid out flat without the one at `i`. -/
def flat (i : Nat) : Nat → Option (List HistEntry)
  | 0 => some []
  | k + 1 => do
    let es ← flat i k
    if k = i then some es
    else do
      let e ← b.slot ((b.head + k) % b.cap)
      some (es ++ [e])

/-- `history_remove_msgid`, for the conversation's buffer: whether an entry was removed. Of several
entries with the msgid it is the newest. -/
def removeMsgid (msgid : Text) : Option (HistBuf × Bool) := do
  match ← b.findIndex msgid with
  | none => some (b, false)
  | some i =>
    let es ← b.flat i b.n
    let b' ← b.release ((b.head + i) % b.cap)
    some ({ b' with e := es.map some ++ b'.e.drop es.length, head := 0, n := es.length }, true)

end HistBuf

/-! ## 2. The list -/

/-- The entries of a conversation, oldest first, and how many there may be. This is what the ring
is for, without slots. -/
structure HistList where
  cap : Nat
  entries : List HistEntry

namespace HistList

/-- An addition appends, and drops the oldest beyond the capacity; one with another capacity
starts over.  No capacity means no history. -/
def add (a : HistList) (cap : Nat) (entry : HistEntry) : HistList :=
  if cap = 0 then a
  else
    let l := (if a.cap = cap then a.entries else []) ++ [entryDup entry]
    ⟨cap, l.drop (l.length - cap)⟩

/-- A removal deletes the newest with that msgid. -/
def remove (a : HistList) (msgid : Text) : HistList :=
  { a with entries := (a.entries.reverse.eraseP fun e => e.msgid == msgid).reverse }

end HistList

/-! ## 3. The ring holds the list

`Holds` connects the slots with the list. Each operation is proved to do in the ring what the list
operation says, and to stay within the slots while it does. -/

/-- The index of an entry, which goes round once at most. -/
theorem ring_index {head cap i : Nat} (hh : head < cap) (hi : i ≤ cap) :
    (head + i) % cap = if head + i < cap then head + i else head + i - cap := by
  split
  next h => exact Nat.mod_eq_of_lt h
  next h =>
    rw [Nat.mod_eq_sub_mod (Nat.le_of_not_lt h)]
    exact Nat.mod_eq_of_lt (by omega)

theorem ring_index_ne {head cap i j : Nat} (hh : head < cap) (hi : i < cap) (hj : j < cap)
    (hij : i ≠ j) : (head + i) % cap ≠ (head + j) % cap := by
  rw [ring_index hh hi.le, ring_index hh hj.le]
  split <;> split <;> omega

namespace HistBuf

/-- **The ring holds a list**: its entries follow one another from `head` on, which is 0 while the
ring is not full. Nothing is said of the slots behind the newest, which are not read. -/
structure Holds (b : HistBuf) (l : List HistEntry) : Prop where
  size : b.e.length = b.alloc
  alloc_le : b.alloc ≤ b.cap
  count : b.n = l.length
  n_le : b.n ≤ b.alloc
  head : b.head = 0 ∨ b.n = b.cap ∧ b.head < b.cap
  slots : ∀ i, i < b.n → b.slot ((b.head + i) % b.cap) = l[i]?

variable {b : HistBuf} {l : List HistEntry}

theorem slot_lt {i : Nat} {e : HistEntry} (h : b.slot i = some e) : i < b.e.length := by
  by_contra hn
  rw [slot, List.getElem?_eq_none (by omega)] at h
  exact absurd h (by simp)

theorem slot_set {i j : Nat} {x : Option HistEntry} {b' : HistBuf} (he : b'.e = b.e.set i x)
    (hij : i ≠ j) : b'.slot j = b.slot j := by
  rw [slot, he, List.getElem?_set_ne hij, slot]

theorem slot_set_self {i : Nat} {x : Option HistEntry} {b' : HistBuf} (he : b'.e = b.e.set i x)
    (hi : i < b.e.length) : b'.slot i = x := by
  rw [slot, he, List.getElem?_set_self hi, Option.join_some]

section Holds

variable (h : b.Holds l)

include h

theorem Holds.head_lt {i : Nat} (hi : i < b.n) : b.head < b.cap ∧ i < b.cap := by
  have h1 := h.n_le
  have h2 := h.alloc_le
  have h3 := h.head
  omega

theorem Holds.slot_eq {i : Nat} (hi : i < b.n) :
    b.slot ((b.head + i) % b.cap) = some (l.get ⟨i, h.count ▸ hi⟩) := by
  rw [h.slots i hi, List.getElem?_eq_getElem (h.count ▸ hi), List.get_eq_getElem]

theorem Holds.slot_head (hn : 0 < b.n) : ∃ e, b.slot b.head = some e := by
  have hslot := h.slot_eq hn
  rw [Nat.add_zero, Nat.mod_eq_of_lt (h.head_lt hn).1] at hslot
  exact ⟨_, hslot⟩

/-- Clearing releases every entry, and none twice. -/
theorem Holds.releaseAll {k : Nat} (hk : k ≤ b.n) : ∃ e, b.releaseAll k = some { b with e := e } ∧
    ∀ j, k ≤ j → j < b.n → ({ b with e := e } : HistBuf).slot ((b.head + j) % b.cap) =
      b.slot ((b.head + j) % b.cap) := by
  induction k with
  | zero => exact ⟨b.e, rfl, fun _ _ _ => rfl⟩
  | succ k ih =>
    obtain ⟨e, he, hslot⟩ := ih (by omega)
    have hread : ({ b with e := e } : HistBuf).slot ((b.head + k) % b.cap) = some _ :=
      (hslot k le_rfl hk).trans (h.slot_eq hk)
    refine ⟨e.set ((b.head + k) % b.cap) none, ?_, fun j hj hjn => ?_⟩
    · rw [HistBuf.releaseAll, he, Option.bind_eq_bind, Option.bind_some, HistBuf.release, hread]
      rfl
    · have hne := ring_index_ne (h.head_lt hk).1 (h.head_lt hk).2 (h.head_lt hjn).2
        (show k ≠ j by omega)
      rw [slot_set (b := { b with e := e }) rfl hne]
      exact hslot j (by omega) hjn

theorem Holds.clear : b.clear = some ⟨b.cap, 0, 0, 0, [], b.lastMs⟩ := by
  obtain ⟨e, he, -⟩ := h.releaseAll le_rfl
  rw [HistBuf.clear, he]
  rfl

/-- After growing there is room, or the ring is full. -/
theorem Holds.grow : b.grow.Holds l ∧ b.grow.cap = b.cap ∧
    (b.grow.n = b.grow.cap ∨ b.grow.n < b.grow.alloc) := by
  have hle := h.n_le
  have hcap := h.alloc_le
  unfold HistBuf.grow
  split
  next hfull =>
    obtain ⟨hn, hlt⟩ := hfull
    have hhead : b.head = 0 := h.head.resolve_right fun hh => by omega
    have hmore : b.alloc < min (if b.alloc = 0 then 4 else b.alloc * 2) b.cap := by
      split <;> omega
    have hna : min (if b.alloc = 0 then 4 else b.alloc * 2) b.cap ≤ b.cap := min_le_right _ _
    generalize min (if b.alloc = 0 then 4 else b.alloc * 2) b.cap = na at hmore hna
    refine ⟨⟨?_, hna, h.count, ?_, Or.inl hhead, fun i hi => ?_⟩, rfl, Or.inr ?_⟩
    · simp only [List.length_append, List.length_replicate, h.size]
      omega
    · simp only
      omega
    · have hslot := h.slots i hi
      simp only [hhead, Nat.zero_add] at hslot ⊢
      have hi' : i < b.n := hi
      rw [Nat.mod_eq_of_lt (by omega)] at hslot ⊢
      rw [← hslot, slot, slot, List.getElem?_append_left (by rw [h.size]; omega)]
    · simp only
      omega
  next hroom =>
    exact ⟨h, rfl, by omega⟩

/-- **An entry is written** over the oldest, or behind the newest. -/
theorem Holds.put (hcap : 0 < b.cap) (hroom : b.n = b.cap ∨ b.n < b.alloc) (copy : HistEntry) :
    ∃ b', b.put copy = some b' ∧ b'.cap = b.cap ∧
      b'.Holds ((l ++ [copy]).drop (l.length + 1 - b.cap)) := by
  have hle := h.n_le
  have halloc := h.alloc_le
  have hcount := h.count
  by_cases hfull : b.n = b.cap
  · obtain ⟨e, he⟩ := h.slot_head (by omega)
    have hhead : b.head < b.cap := (h.head_lt (show 0 < b.n by omega)).1
    have hlt : b.head < b.e.length := slot_lt he
    refine ⟨{ b with
      e := (b.e.set b.head none).set b.head (some copy)
      head := (b.head + 1) % b.cap
      lastMs := copy.ms }, ?_, rfl, ?_⟩
    · rw [HistBuf.put, if_pos hfull, HistBuf.release, he]
      simp only [Option.bind_eq_bind, Option.bind_some, store, List.length_set, hlt, if_true]
    · have hdrop : (l ++ [copy]).drop (l.length + 1 - b.cap) = l.drop 1 ++ [copy] := by
        have hone : l.length + 1 - b.cap = 1 := by omega
        rw [hone, List.drop_append_of_le_length (by omega)]
      rw [hdrop]
      refine ⟨?_, halloc, ?_, hle, Or.inr ⟨hfull, Nat.mod_lt _ hcap⟩, fun i hi => ?_⟩
      · simp only [List.length_set, h.size]
      · simp only [List.length_append, List.length_drop, List.length_singleton]
        omega
      · have hi' : i < b.n := hi
        have hindex : ((b.head + 1) % b.cap + i) % b.cap = (b.head + (i + 1)) % b.cap := by
          rw [Nat.mod_add_mod, Nat.add_assoc, Nat.add_comm 1 i]
        simp only [hindex]
        by_cases hlast : i + 1 = b.n
        · -- the newest is where the oldest was
          rw [hlast, hfull, Nat.add_mod_right, Nat.mod_eq_of_lt hhead,
            slot_set_self (b := { b with e := b.e.set b.head none }) rfl (by simpa using hlt),
            List.getElem?_append_right (by rw [List.length_drop]; omega), List.length_drop,
            show i - (l.length - 1) = 0 by omega]
          rfl
        · have hne := ring_index_ne hhead hcap (show i + 1 < b.cap by omega)
            (Nat.succ_ne_zero i).symm
          rw [Nat.add_zero, Nat.mod_eq_of_lt hhead] at hne
          rw [slot_set (b := { b with e := b.e.set b.head none }) rfl hne, slot_set (b := b) rfl hne,
            h.slots (i + 1) (by omega), List.getElem?_append_left (by rw [List.length_drop]; omega),
            List.getElem?_drop, Nat.add_comm 1 i]
  · have hlt : b.n < b.e.length := by rw [h.size]; omega
    have hhead : b.head = 0 := h.head.resolve_right fun hh => hfull hh.1
    refine ⟨{ b with n := b.n + 1, e := b.e.set b.n (some copy), lastMs := copy.ms }, ?_, rfl, ?_⟩
    · rw [HistBuf.put, if_neg hfull, store, if_pos hlt]
    · rw [show l.length + 1 - b.cap = 0 by omega, List.drop_zero]
      refine ⟨?_, halloc, ?_, ?_, Or.inl hhead, fun i hi => ?_⟩
      · simp only [List.length_set, h.size]
      · simp only [List.length_append, List.length_singleton]
        omega
      · simp only
        omega
      · have hi' : i < b.n + 1 := hi
        simp only [hhead, Nat.zero_add, Nat.mod_eq_of_lt (show i < b.cap by omega)]
        by_cases hlast : i = b.n
        · rw [hlast, slot_set_self (b := b) rfl hlt, hcount, List.getElem?_append_right le_rfl,
            Nat.sub_self]
          rfl
        · have hslot := h.slots i (by omega)
          rw [hhead, Nat.zero_add, Nat.mod_eq_of_lt (by omega)] at hslot
          rw [slot_set (b := b) rfl (Ne.symm hlast), hslot,
            List.getElem?_append_left (by omega)]

end Holds

theorem holds_nil (cap : Nat) (ms : Int) : (⟨cap, 0, 0, 0, [], ms⟩ : HistBuf).Holds [] :=
  ⟨rfl, Nat.zero_le _, rfl, le_rfl, Or.inl rfl, fun _ hi => absurd hi (Nat.not_lt_zero _)⟩

theorem Holds.startOver (h : b.Holds l) (cap : Nat) : ∃ b', b.startOver cap = some b' ∧
    ({ b' with cap := cap } : HistBuf).Holds (if b.cap = cap then l else []) := by
  unfold HistBuf.startOver
  split
  next hother =>
    rw [if_neg hother.2]
    exact ⟨_, h.clear, holds_nil cap b.lastMs⟩
  next hsame =>
    refine ⟨b, rfl, ?_⟩
    by_cases hc : b.cap = cap
    · rw [if_pos hc]
      subst hc
      exact h
    · -- no slots, so no entries
      have he : b.e = [] := by
        by_contra hne
        exact hsame ⟨hne, hc⟩
      have hsize := h.size
      have hle := h.n_le
      have halloc := h.alloc_le
      rw [he, List.length_nil] at hsize
      have hhead : b.head = 0 := h.head.elim id fun hh => by omega
      rw [if_neg hc]
      refine ⟨h.size, ?_, ?_, h.n_le, Or.inl hhead, fun i hi => ?_⟩
      · simp only
        omega
      · simp only [List.length_nil]
        omega
      · have hi' : i < b.n := hi
        omega

/-- **An addition**, with the capacity of the last or another. -/
theorem Holds.add (h : b.Holds l) (cap : Nat) (entry : HistEntry) :
    ∃ b', b.add cap entry = some b' ∧
      b'.Holds ((HistList.mk b.cap l).add cap entry).entries ∧
      b'.cap = ((HistList.mk b.cap l).add cap entry).cap := by
  by_cases hcap : cap = 0
  · refine ⟨b, by rw [HistBuf.add, if_pos hcap], ?_⟩
    rw [HistList.add, if_pos hcap]
    exact ⟨h, rfl⟩
  · obtain ⟨b₁, hb₁, hheld⟩ := h.startOver cap
    obtain ⟨hgrown, hgcap, hroom⟩ := hheld.grow
    have hpos : 0 < ({ b₁ with cap := cap } : HistBuf).grow.cap := by
      rw [hgcap]
      exact Nat.pos_of_ne_zero hcap
    obtain ⟨b', hb', hb'cap, hb'held⟩ := hgrown.put hpos hroom (entryDup entry)
    refine ⟨b', ?_, ?_, ?_⟩
    · rw [HistBuf.add, if_neg hcap, hb₁]
      exact hb'
    · rw [hgcap] at hb'held
      rw [HistList.add, if_neg hcap]
      simpa using hb'held
    · rw [HistList.add, if_neg hcap, hb'cap, hgcap]

/-! ## 4. Removal

A search runs from the newest to the oldest; what is found is left out, and the rest is written to
new slots from the first on. -/

/-- What the search from `k - 1` down finds. -/
theorem Holds.findIndexFrom (h : b.Holds l) (msgid : Text) {k : Nat} (hk : k ≤ b.n) :
    (b.findIndexFrom msgid k = some none ∧ ∀ e ∈ l.take k, e.msgid ≠ msgid) ∨
      ∃ i e, i < k ∧ b.findIndexFrom msgid k = some (some i) ∧ l[i]? = some e ∧ e.msgid = msgid ∧
        ∀ e ∈ (l.take k).drop (i + 1), e.msgid ≠ msgid := by
  induction k with
  | zero => exact Or.inl ⟨rfl, fun e he => absurd he (by simp)⟩
  | succ k ih =>
    have hlt : k < l.length := by rw [← h.count]; omega
    have hslot : b.slot ((b.head + k) % b.cap) = some l[k] := h.slot_eq (by omega)
    have htake : l.take (k + 1) = l.take k ++ [l[k]] := List.take_succ_eq_append_getElem hlt
    rw [HistBuf.findIndexFrom, hslot]
    simp only [Option.bind_eq_bind, Option.bind_some]
    split
    next hfound =>
      refine Or.inr ⟨k, l[k], Nat.lt_succ_self k, rfl, List.getElem?_eq_getElem hlt, hfound, ?_⟩
      rw [List.drop_eq_nil_of_le (List.length_take_le ..)]
      exact fun e he => absurd he List.not_mem_nil
    next hother =>
      rcases ih (by omega) with ⟨hnone, hall⟩ | ⟨i, e, hi, hfind, he, hid, hall⟩
      · refine Or.inl ⟨hnone, fun e he => ?_⟩
        rw [htake] at he
        rcases List.mem_append.mp he with he | he
        · exact hall e he
        · rw [List.mem_singleton.mp he]
          exact hother
      · refine Or.inr ⟨i, e, by omega, hfind, he, hid, fun e' he' => ?_⟩
        rw [htake, List.drop_append_of_le_length (by rw [List.length_take]; omega)] at he'
        rcases List.mem_append.mp he' with he' | he'
        · exact hall e' he'
        · rw [List.mem_singleton.mp he']
          exact hother

theorem Holds.flat (h : b.Holds l) (i : Nat) {k : Nat} (hk : k ≤ b.n) :
    b.flat i k = some ((l.take k).eraseIdx i) := by
  induction k with
  | zero => rfl
  | succ k ih =>
    have hlt : k < l.length := by rw [← h.count]; omega
    have hlen : (l.take k).length = k := List.length_take_of_le hlt.le
    rw [HistBuf.flat, ih (by omega), List.take_succ_eq_append_getElem hlt]
    simp only [Option.bind_eq_bind, Option.bind_some]
    split
    next hi =>
      subst hi
      rw [List.eraseIdx_append_of_length_le (by omega), hlen, Nat.sub_self,
        List.eraseIdx_of_length_le (by omega)]
      simp
    next hi =>
      have hslot : b.slot ((b.head + k) % b.cap) = some l[k] := h.slot_eq (by omega)
      rw [hslot, Option.bind_some]
      rcases Nat.lt_or_gt_of_ne hi with hki | hki
      · rw [List.eraseIdx_of_length_le (by omega), List.eraseIdx_of_length_le (by simp; omega)]
      · rw [List.eraseIdx_append_of_lt_length (by omega)]

/-- **A removal** takes out the newest entry with the msgid. -/
theorem Holds.removeMsgid (h : b.Holds l) (msgid : Text) :
    ∃ b' found, b.removeMsgid msgid = some (b', found) ∧
      b'.Holds ((HistList.mk b.cap l).remove msgid).entries ∧ b'.cap = b.cap ∧
      (found = true ↔ ∃ e ∈ l, e.msgid = msgid) := by
  have hall : l.take b.n = l := List.take_of_length_le h.count.ge
  rcases h.findIndexFrom msgid le_rfl with ⟨hnone, hno⟩ | ⟨i, e, hi, hfind, he, hid, hno⟩
  · rw [hall] at hno
    refine ⟨b, false, by rw [HistBuf.removeMsgid, findIndex, hnone]; rfl, ?_, rfl, ?_⟩
    · rw [HistList.remove, List.eraseP_of_forall_not (by simpa using hno), List.reverse_reverse]
      exact h
    · exact ⟨fun hf => absurd hf (by simp), fun ⟨e, he, hid⟩ => absurd hid (hno e he)⟩
  · rw [hall] at hno
    have hlt : i < l.length := by rw [← h.count]; exact hi
    have hsplit : l = l.take i ++ e :: l.drop (i + 1) := by
      rw [List.getElem?_eq_getElem hlt] at he
      rw [← Option.some.inj he, List.getElem_cons_drop, List.take_append_drop]
    have hentries : ((HistList.mk b.cap l).remove msgid).entries = l.eraseIdx i := by
      have hrev : l.reverse = (l.drop (i + 1)).reverse ++ e :: (l.take i).reverse := by
        conv_lhs => rw [hsplit]
        simp
      rw [HistList.remove, hrev, List.eraseP_append_right _ (by simpa using hno),
        List.eraseP_cons_of_pos (by simpa using hid), List.eraseIdx_eq_take_drop_succ]
      simp
    have hflat := h.flat i le_rfl
    rw [hall] at hflat
    have hlen : (l.eraseIdx i).length = b.n - 1 := by
      rw [List.length_eraseIdx_of_lt hlt, h.count]
    have hle := h.n_le
    have halloc := h.alloc_le
    refine ⟨{ b with
      e := (l.eraseIdx i).map some ++
        (b.e.set ((b.head + i) % b.cap) none).drop (l.eraseIdx i).length
      head := 0
      n := (l.eraseIdx i).length }, true, ?_, ?_, rfl, ?_⟩
    · rw [HistBuf.removeMsgid, findIndex, hfind, Option.bind_eq_bind, Option.bind_some]
      simp only [hflat, Option.bind_eq_bind, Option.bind_some, HistBuf.release, h.slot_eq hi]
    · rw [hentries]
      refine ⟨?_, halloc, rfl, ?_, Or.inl rfl, fun j hj => ?_⟩
      · simp only [List.length_append, List.length_map, List.length_drop, List.length_set, hlen, h.size]
        omega
      · simp only [hlen]
        omega
      · have hj' : j < (l.eraseIdx i).length := hj
        simp only [Nat.zero_add, Nat.mod_eq_of_lt (show j < b.cap by omega)]
        rw [slot, List.getElem?_append_left (by rwa [List.length_map]), List.getElem?_map,
          List.getElem?_eq_getElem hj']
        rfl
    · exact ⟨fun _ => ⟨e, List.mem_of_getElem? he, hid⟩, fun _ => rfl⟩

/-- What `hist_buf_at` gives. -/
theorem Holds.entryAt (h : b.Holds l) (i : Nat) : b.entryAt i = some l[i]? := by
  unfold HistBuf.entryAt
  split
  next hnone =>
    have hle : l.length ≤ i := by
      rcases hnone with he | hi
      · have hsize := h.size
        have hle := h.n_le
        rw [he, List.length_nil] at hsize
        rw [← h.count]
        omega
      · rw [← h.count]
        exact hi
    rw [List.getElem?_eq_none hle]
  next hsome =>
    rw [not_or, Nat.not_le] at hsome
    have hlt : i < l.length := by rw [← h.count]; exact hsome.2
    rw [h.slot_eq hsome.2, Option.map_some, List.getElem?_eq_getElem hlt, List.get_eq_getElem]

end HistBuf

/-! ## 5. Runs -/

inductive HistOp
  | add (cap : Nat) (entry : HistEntry)
  | remove (msgid : Text)

def HistBuf.step (b : HistBuf) : HistOp → Option HistBuf
  | .add cap entry => b.add cap entry
  | .remove msgid => (b.removeMsgid msgid).map Prod.fst

def HistList.step (a : HistList) : HistOp → HistList
  | .add cap entry => a.add cap entry
  | .remove msgid => a.remove msgid

/-- The ring and the list, with the capacity of the last addition. -/
def HistBuf.Refines (b : HistBuf) (a : HistList) : Prop := b.Holds a.entries ∧ b.cap = a.cap

theorem HistBuf.Refines.step {b : HistBuf} {a : HistList} (h : b.Refines a) (op : HistOp) :
    ∃ b', b.step op = some b' ∧ b'.Refines (a.step op) := by
  obtain ⟨hheld, hcap⟩ := h
  have ha : HistList.mk b.cap a.entries = a := by rw [hcap]
  cases op with
  | add cap entry =>
    obtain ⟨b', hb', hheld', hcap'⟩ := hheld.add cap entry
    rw [ha] at hheld' hcap'
    exact ⟨b', hb', hheld', hcap'⟩
  | remove msgid =>
    obtain ⟨b', found, hb', hheld', hcap', -⟩ := hheld.removeMsgid msgid
    rw [ha] at hheld'
    refine ⟨b', by rw [HistBuf.step, hb']; rfl, hheld', hcap'.trans hcap⟩

/-- **The ring refines the list**, in every run of additions and removals: no access is outside the
allocated slots, and the entries are those of the list, in its order. A reader of the history never
has to know where in the ring an entry stands, nor that the slots are allocated late and doubled. -/
theorem history_refines (ops : List HistOp) : ∃ b, ops.foldlM HistBuf.step HistBuf.zero = some b ∧
    b.n = (ops.foldl HistList.step ⟨0, []⟩).entries.length ∧
    ∀ i, b.entryAt i = some (ops.foldl HistList.step ⟨0, []⟩).entries[i]? := by
  obtain ⟨b, hb, hheld, -⟩ : ∃ b, ops.foldlM HistBuf.step HistBuf.zero = some b ∧
      b.Refines (ops.foldl HistList.step ⟨0, []⟩) := by
    induction ops using List.reverseRecOn with
    | nil => exact ⟨_, rfl, HistBuf.holds_nil 0 0, rfl⟩
    | append_singleton ops op ih =>
      obtain ⟨b, hb, hrefines⟩ := ih
      obtain ⟨b', hb', hrefines'⟩ := hrefines.step op
      refine ⟨b', ?_, ?_⟩
      · rw [List.foldlM_append, hb]
        simp [hb']
      · rwa [List.foldl_append]
  exact ⟨b, hb, hheld.count, hheld.entryAt⟩

end SekurIRCd
