/-
# A table of counters that gives up the oldest

Events are counted by key in a table of a fixed number of slots.  A counter has a window: it starts
with the first event, and with the first event after it has passed a new one begins.  A key without
a slot takes an empty one, or that of the counter whose window started first.

A counter that still counts keeps the start it had, so the slot given up can belong to a key that
came just now.  As long as no window has events of more keys than there are slots, the window of
what is given up has passed (`Tracks.victim_passed`), and the table answers as one without a bound
(`Tracks.current_eq`).
-/
import Mathlib.Data.Finset.Card
import Mathlib.Data.List.Basic
import Mathlib.Logic.Function.Basic

namespace OldestOut

variable {K : Type*} [DecidableEq K]

/-! ## 1. The table and the one without a bound

The table without a bound is the meaning of the other: each key has a counter for itself. -/

/-- A slot; it is empty if its key is the blank one. -/
structure Slot (K : Type*) where
  key : K
  start : Nat
  count : Nat
deriving DecidableEq

structure Counter where
  start : Nat
  count : Nat
deriving DecidableEq

/-- Whether a window that began some time ago is over. -/
structure Period where
  passed : Nat → Bool
  mono : ∀ {d e}, d ≤ e → passed d = true → passed e = true

variable (w : Period)

/-- The counter after one more event. -/
def Counter.next (now : Nat) : Option Counter → Counter
  | none => ⟨now, 1⟩
  | some c => if w.passed (now - c.start) then ⟨now, 1⟩ else ⟨c.start, c.count + 1⟩

/-- What a counter says: the events of its window, none if that has passed. -/
def Counter.current (now : Nat) : Option Counter → Nat
  | none => 0
  | some c => if w.passed (now - c.start) then 0 else c.count

/-- An event in the table without a bound. -/
def count (u : K → Option Counter) (k : K) (now : Nat) : K → Option Counter :=
  Function.update u k (some (Counter.next w now (u k)))

/-- Where the key has its slot. -/
def place (slots : List (Slot K)) (k : K) : Option Nat := slots.findIdx? (·.key = k)

/-- An event in the table; a key without a slot takes slot `v`. -/
def touch (slots : List (Slot K)) (k : K) (now v : Nat) : List (Slot K) :=
  match place slots k with
  | some i =>
    match slots[i]? with
    | some s =>
      if w.passed (now - s.start) then slots.set i ⟨k, now, 1⟩
      else slots.set i ⟨k, s.start, s.count + 1⟩
    | none => slots
  | none => slots.set v ⟨k, now, 1⟩

/-- What the table says about a key. -/
def current (slots : List (Slot K)) (k : K) (now : Nat) : Nat :=
  match slots.find? (·.key = k) with
  | some s => Counter.current w now (some ⟨s.start, s.count⟩)
  | none => 0

/-- The keys of the events in the window that begins at `t`. -/
def crowd (evs : List (Nat × K)) (t : Nat) : Finset K :=
  ((evs.filter fun e => t ≤ e.1 ∧ w.passed (e.1 - t) = false).map Prod.snd).toFinset

theorem mem_crowd {evs : List (Nat × K)} {t s : Nat} {k : K} (he : (s, k) ∈ evs) (ht : t ≤ s)
    (hp : w.passed (s - t) = false) : k ∈ crowd w evs t := by
  rw [crowd, List.mem_toFinset]
  exact List.mem_map.mpr ⟨(s, k), List.mem_filter.mpr ⟨he, by simp [ht, hp]⟩, rfl⟩

theorem crowd_mono {evs evs' : List (Nat × K)} (h : evs ⊆ evs') (t : Nat) :
    crowd w evs t ⊆ crowd w evs' t := by
  intro k hk
  rw [crowd, List.mem_toFinset] at hk
  obtain ⟨e, he, rfl⟩ := List.mem_map.mp hk
  obtain ⟨hmem, hin⟩ := List.mem_filter.mp he
  simp only [decide_eq_true_eq] at hin
  exact mem_crowd w (h hmem) hin.1 hin.2

/-- An empty slot, or one of those that started first. Which of several is taken is left open. -/
def Victim (blank : K) (slots : List (Slot K)) (v : Nat) : Prop :=
  ∃ s, slots[v]? = some s ∧ (s.key = blank ∨ ∀ t ∈ slots, t.key ≠ blank ∧ s.start ≤ t.start)

/-! ## 2. What the table keeps

The invariant relates the two. It keeps for each counter that still counts the events of its
window, so that a table in which all slots still count witnesses as many keys in one window. -/

variable {w}
variable {blank : K} {past : List (Nat × K)} {now : Nat} {slots : List (Slot K)}
  {u : K → Option Counter}

/-- The table after the events `past`, beside the one without a bound. What it does not hold has
passed, so a key without a slot and a key whose window is over are answered alike. -/
structure Tracks (w : Period) (blank : K) (past : List (Nat × K)) (now : Nat)
    (slots : List (Slot K)) (u : K → Option Counter) : Prop where
  held : ∀ s ∈ slots, s.key ≠ blank → u s.key = some ⟨s.start, s.count⟩
  apart : ∀ (i j : Nat) (s t : Slot K), slots[i]? = some s → slots[j]? = some t →
    s.key ≠ blank → s.key = t.key → i = j
  began : ∀ s ∈ slots, s.key ≠ blank → (s.start, s.key) ∈ past ∧ s.start ≤ now
  gone : ∀ k c, k ≠ blank → u k = some c → (∀ s ∈ slots, s.key ≠ k) →
    c.start ≤ now ∧ w.passed (now - c.start) = true

theorem find_key {k : K} {s : Slot K} (h : slots.find? (·.key = k) = some s) :
    s ∈ slots ∧ s.key = k := by
  have hkey := List.find?_some h
  exact ⟨List.mem_of_find?_eq_some h, of_decide_eq_true hkey⟩

theorem place_some {k : K} {i : Nat} (h : place slots k = some i) :
    ∃ s, slots[i]? = some s ∧ s.key = k := by
  obtain ⟨hi, hkey, -⟩ := List.findIdx?_eq_some_iff_getElem.mp h
  exact ⟨slots[i], List.getElem?_eq_getElem hi, of_decide_eq_true hkey⟩

theorem place_none {k : K} (h : place slots k = none) : ∀ s ∈ slots, s.key ≠ k := by
  intro s hs hkey
  have := List.findIdx?_eq_none_iff.mp h s hs
  exact absurd hkey (of_decide_eq_false this)

namespace Tracks

omit [DecidableEq K] in
theorem empty (n now : Nat) :
    Tracks w blank [] now (List.replicate n ⟨blank, 0, 0⟩) (fun _ => none) := by
  have hblank : ∀ s ∈ List.replicate n (⟨blank, 0, 0⟩ : Slot K), s.key = blank := fun s hs => by
    rw [List.eq_of_mem_replicate hs]
  exact ⟨fun s hs hne => absurd (hblank s hs) hne,
    fun i j s t hs _ hne => absurd (hblank s (List.mem_of_getElem? hs)) hne,
    fun s hs hne => absurd (hblank s hs) hne, fun k c _ hc => by cases hc⟩

omit [DecidableEq K] in
theorem later (h : Tracks w blank past now slots u) {now' : Nat} (hnow : now ≤ now') :
    Tracks w blank past now' slots u where
  held := h.held
  apart := h.apart
  began := fun s hs hne => ⟨(h.began s hs hne).1, (h.began s hs hne).2.trans hnow⟩
  gone := fun k c hk hc hno => by
    obtain ⟨hle, hp⟩ := h.gone k c hk hc hno
    exact ⟨hle.trans hnow, w.mono (by omega) hp⟩

/-- Both tables say the same about every key. This is all that a caller of the table asks. -/
theorem current_eq (h : Tracks w blank past now slots u) {k : K} (hk : k ≠ blank) :
    current w slots k now = Counter.current w now (u k) := by
  unfold current
  cases hfind : slots.find? (·.key = k) with
  | some s =>
    obtain ⟨hs, rfl⟩ := find_key hfind
    rw [h.held s hs hk]
  | none =>
    have hno : ∀ s ∈ slots, s.key ≠ k := fun s hs hkey => by
      have := List.find?_eq_none.mp hfind s hs
      exact this (decide_eq_true hkey)
    cases hu : u k with
    | none => rfl
    | some c => simp [Counter.current, (h.gone k c hk hu hno).2]

/-- The keys of a full table are as many as its slots. -/
theorem card_keys (h : Tracks w blank past now slots u) (hfull : ∀ s ∈ slots, s.key ≠ blank) :
    (slots.map Slot.key).toFinset.card = slots.length := by
  rw [List.toFinset_card_of_nodup, List.length_map]
  rw [List.nodup_iff_getElem?_ne_getElem?]
  intro i j hij hj heq
  rw [List.length_map] at hj
  have hi : i < slots.length := hij.trans hj
  rw [List.getElem?_map, List.getElem?_map, List.getElem?_eq_getElem hi,
    List.getElem?_eq_getElem hj] at heq
  exact absurd (h.apart i j _ _ (List.getElem?_eq_getElem hi) (List.getElem?_eq_getElem hj)
    (hfull _ (List.getElem_mem hi)) (Option.some.inj heq)) (by omega)

/-- **What is given up has passed.**  Else the window that began with it had an event of every key
of the table, and one of the key that has no slot. -/
theorem victim_passed (h : Tracks w blank past now slots u) {k : K} {v : Nat} {s : Slot K}
    (hv : Victim blank slots v) (hs : slots[v]? = some s) (hkey : s.key ≠ blank)
    (hno : ∀ s ∈ slots, s.key ≠ k)
    (hcap : ∀ t, (crowd w (past ++ [(now, k)]) t).card ≤ slots.length) :
    w.passed (now - s.start) = true := by
  obtain ⟨s', hs', hor⟩ := hv
  obtain rfl := Option.some.inj (hs'.symm.trans hs)
  have hold := hor.resolve_left hkey
  have hnow : s'.start ≤ now := (h.began s' (List.mem_of_getElem? hs) hkey).2
  refine Bool.eq_true_of_not_eq_false fun hp => ?_
  have hkeys : insert k (slots.map Slot.key).toFinset ⊆ crowd w (past ++ [(now, k)]) s'.start := by
    intro a ha
    rcases Finset.mem_insert.mp ha with rfl | ha
    · exact mem_crowd w (List.mem_append_right _ (.head _)) hnow hp
    · obtain ⟨t, ht, rfl⟩ := List.mem_map.mp (List.mem_toFinset.mp ha)
      obtain ⟨hne, hle⟩ := hold t ht
      obtain ⟨hpast, htnow⟩ := h.began t ht hne
      refine mem_crowd w (List.mem_append_left _ hpast) hle ?_
      refine Bool.eq_false_of_not_eq_true fun hpt => ?_
      rw [w.mono (by omega) hpt] at hp
      cases hp
  have hnot : k ∉ (slots.map Slot.key).toFinset := fun hmem => by
    obtain ⟨t, ht, hk⟩ := List.mem_map.mp (List.mem_toFinset.mp hmem)
    exact hno t ht hk
  have hcard := (Finset.card_le_card hkeys).trans (hcap s'.start)
  rw [Finset.card_insert_of_notMem hnot, h.card_keys fun t ht => (hold t ht).1] at hcard
  omega

/-- A slot gets the counter that its key has, whoever had the slot before. -/
theorem write (h : Tracks w blank past now slots u) {k : K} {i : Nat} {s : Slot K}
    (hi : slots[i]? = some s)
    (hother : ∀ j t, slots[j]? = some t → t.key = k → j = i)
    (hout : s.key ≠ blank → s.key ≠ k → w.passed (now - s.start) = true)
    {c : Counter} (hc : (c.start, k) ∈ past ++ [(now, k)] ∧ c.start ≤ now)
    (hu : Counter.next w now (u k) = c) :
    Tracks w blank (past ++ [(now, k)]) now (slots.set i ⟨k, c.start, c.count⟩)
      (count w u k now) := by
  have hlt : i < slots.length := (List.getElem?_eq_some_iff.mp hi).1
  have hget : ∀ {j t}, (slots.set i ⟨k, c.start, c.count⟩)[j]? = some t →
      j = i ∧ t = ⟨k, c.start, c.count⟩ ∨ j ≠ i ∧ slots[j]? = some t := by
    intro j t ht
    by_cases hji : j = i
    · subst hji
      rw [List.getElem?_set_self hlt] at ht
      exact .inl ⟨rfl, (Option.some.inj ht).symm⟩
    · rw [List.getElem?_set_ne (fun e => hji e.symm)] at ht
      exact .inr ⟨hji, ht⟩
  have hmem : ∀ {t}, t ∈ slots.set i ⟨k, c.start, c.count⟩ →
      t = ⟨k, c.start, c.count⟩ ∨ t ∈ slots ∧ t.key ≠ k := by
    intro t ht
    obtain ⟨j, hj⟩ := List.mem_iff_getElem?.mp ht
    rcases hget hj with ⟨-, rfl⟩ | ⟨hji, hj⟩
    · exact .inl rfl
    · exact .inr ⟨List.mem_of_getElem? hj, fun hkey => hji (hother j t hj hkey)⟩
  refine ⟨?_, ?_, ?_, ?_⟩
  · intro t ht hne
    rcases hmem ht with rfl | ⟨hold, hnk⟩
    · rw [count, Function.update_self, hu]
    · rw [count, Function.update_of_ne hnk]
      exact h.held t hold hne
  · intro a b s₁ s₂ ha hb hne heq
    rcases hget ha with ⟨rfl, rfl⟩ | ⟨hai, ha'⟩ <;> rcases hget hb with ⟨rfl, rfl⟩ | ⟨hbi, hb'⟩
    · rfl
    · exact absurd (hother b s₂ hb' heq.symm) hbi
    · exact absurd (hother a s₁ ha' heq) hai
    · exact h.apart a b s₁ s₂ ha' hb' hne heq
  · intro t ht hne
    rcases hmem ht with rfl | ⟨hold, -⟩
    · exact hc
    · exact ⟨List.mem_append_left _ (h.began t hold hne).1, (h.began t hold hne).2⟩
  · intro a d ha hd hno
    have hak : a ≠ k := fun e =>
      hno ⟨k, c.start, c.count⟩ (List.mem_of_getElem? (List.getElem?_set_self hlt)) e.symm
    rw [count, Function.update_of_ne hak] at hd
    by_cases hsa : s.key = a
    · -- the counter that was given up
      have hne : s.key ≠ blank := hsa.symm ▸ ha
      have hs := h.held s (List.mem_of_getElem? hi) hne
      rw [hsa, hd] at hs
      obtain rfl := Option.some.inj hs
      exact ⟨(h.began s (List.mem_of_getElem? hi) hne).2, hout hne (hsa ▸ hak)⟩
    · refine h.gone a d ha hd fun t ht hta => ?_
      obtain ⟨j, hj⟩ := List.mem_iff_getElem?.mp ht
      by_cases hji : j = i
      · subst hji
        exact hsa (Option.some.inj (hi.symm.trans hj) ▸ hta)
      · refine hno t (List.mem_of_getElem? (i := j) ?_) hta
        rw [List.getElem?_set_ne (fun e => hji e.symm), hj]

/-- **An event.**  The two tables are beside each other again. -/
theorem touch (h : Tracks w blank past now slots u) {k : K} (hk : k ≠ blank) {v : Nat}
    (hv : Victim blank slots v)
    (hcap : ∀ t, (crowd w (past ++ [(now, k)]) t).card ≤ slots.length) :
    Tracks w blank (past ++ [(now, k)]) now (touch w slots k now v) (count w u k now) := by
  have hlast : (now, k) ∈ past ++ [(now, k)] := List.mem_append_right _ (.head _)
  unfold OldestOut.touch
  cases hplace : place slots k with
  | some i =>
    obtain ⟨s, hs, rfl⟩ := place_some hplace
    have hmem := List.mem_of_getElem? hs
    have hu := h.held s hmem hk
    have hother : ∀ j t, slots[j]? = some t → t.key = s.key → j = i := fun j t ht heq =>
      (h.apart i j s t hs ht hk heq.symm).symm
    simp only [hs]
    split
    · rename_i hp
      exact h.write hs hother (fun _ hne => absurd rfl hne) (c := ⟨now, 1⟩) ⟨hlast, le_refl _⟩
        (by rw [hu, Counter.next, if_pos hp])
    · rename_i hp
      obtain ⟨hpast, hle⟩ := h.began s hmem hk
      exact h.write hs hother (fun _ hne => absurd rfl hne) (c := ⟨s.start, s.count + 1⟩)
        ⟨List.mem_append_left _ hpast, hle⟩ (by rw [hu, Counter.next, if_neg hp])
  | none =>
    have hno := place_none hplace
    obtain ⟨s, hs, -⟩ := id hv
    refine h.write hs (fun j t ht heq => absurd heq (hno t (List.mem_of_getElem? ht)))
      (fun hne _ => h.victim_passed hv hs hne hno hcap) (c := ⟨now, 1⟩) ⟨hlast, le_refl _⟩ ?_
    cases hu : u k with
    | none => rfl
    | some c =>
      rw [Counter.next, if_pos (h.gone k c hk hu hno).2]

end Tracks

theorem length_touch (k : K) (now v : Nat) : (touch w slots k now v).length = slots.length := by
  unfold touch
  split
  · split
    · split <;> rw [List.length_set]
    · rfl
  · rw [List.length_set]

end OldestOut
