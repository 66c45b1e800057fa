/-
# The tables against floods

Connects are counted by address in a table of 256 slots, and failed logins in another one.  A new
address takes an empty slot or that of the address whose window began first; in the other table the
empty slot is the last there is and not the first.  Both are the table of `Lib.OldestOut`.

As long as no window sees more than 256 addresses, both answer as tables without a bound
(`throttles_faithful`).
-/
import SekurIRCd.Lib.OldestOut
import SekurIRCd.Lib.CString
import Mathlib.Data.Rat.Cast.Order

namespace SekurIRCd.Throttle

open CLib OldestOut

/-! ## 1. The tables

The two searches differ in which free slot they end at, and the two windows in whether their last
second belongs to them. -/

/-- `connect_track_t` and `auth_fail_track_t`: the key is the `ip`, empty in a slot that is free. -/
abbrev Track := Slot Text

/-- `CONNECT_FLOOD_SLOTS` and `AUTH_FAIL_SLOTS`. -/
def nSlots : Nat := 256

def noTracks : List Track := List.replicate nSlots ⟨[], 0, 0⟩

/-- What a caller passes: an address in a `char[64]`. -/
structure Ip where
  text : Text
  ne : text ≠ []
  lt : text.length < 64

/-- `slot`: that of the address, else the one that is given up. -/
def slotFor (tracks : List Track) (ip : Text) (oldestI : Nat) : Nat :=
  (tracks.findIdx? (·.key = ip)).getD oldestI

/-- The loop of `net_connect_flood_hit` for an address without a slot. -/
def connectOldest : List Track → (i oldest oldestI : Nat) → Nat
  | [], _, _, oldestI => oldestI
  | t :: ts, i, oldest, oldestI =>
    if t.key = [] then i
    else if t.start < oldest then connectOldest ts (i + 1) t.start i
    else connectOldest ts (i + 1) oldest oldestI

/-- `net_connect_flood_hit`, at the time `now`. A limit of 0 turns it off; a connect within the
window counts up, and any other begins a window of its own. -/
def netConnectFloodHit (floodMax : Int) (floodWindow : ℚ) (tracks : List Track) (ip : Text)
    (now : Nat) : Bool × List Track :=
  if floodMax ≤ 0 then (false, tracks)
  else
    let slot := slotFor tracks ip (connectOldest tracks 0 (now + 1) 0)
    let t := tracks.getD slot ⟨[], 0, 0⟩
    if t.key ≠ ip ∨ floodWindow < ((now : Int) - (t.start : Int) : Int) then
      (false, tracks.set slot ⟨clip 64 ip, now, 1⟩)
    else (decide (floodMax < ((t.count + 1 : Nat) : Int)),
      tracks.set slot { t with count := t.count + 1 })

def authFailMax : Nat := 5

def authFailWindow : Int := 60

/-- `auth_fail_throttled`. -/
def authFailThrottled (tracks : List Track) (ip : Text) (now : Nat) : Bool :=
  match tracks.find? (·.key = ip) with
  | some t => decide ((now : Int) - (t.start : Int) ≤ authFailWindow ∧ authFailMax ≤ t.count)
  | none => false

/-- What the loop of `auth_fail_record` leaves in `oldest_i` for an address without a slot: a free
slot counts as older than any. -/
def authOldest : List Track → (i oldest oldestI : Nat) → Nat
  | [], _, _, oldestI => oldestI
  | t :: ts, i, oldest, oldestI =>
    if t.key = [] then authOldest ts (i + 1) 0 i
    else if t.start < oldest then authOldest ts (i + 1) t.start i
    else authOldest ts (i + 1) oldest oldestI

/-- `auth_fail_record`. A failure counts in the window that its address has, or begins one; who
asks in between changes nothing. -/
def authFailRecord (tracks : List Track) (ip : Text) (now : Nat) : List Track :=
  let slot := slotFor tracks ip (authOldest tracks 0 (now + 1) 0)
  let t := tracks.getD slot ⟨[], 0, 0⟩
  let t : Track :=
    if t.key ≠ ip ∨ authFailWindow < (now : Int) - (t.start : Int) then ⟨clip 64 ip, now, 0⟩ else t
  tracks.set slot { t with count := t.count + 1 }

/-! ## 2. Runs -/

/-- The answers to a run of connects. -/
def floodAnswers (floodMax : Int) (floodWindow : ℚ) (tracks : List Track) :
    List (Nat × Ip) → List Bool
  | [] => []
  | e :: evs =>
    let r := netConnectFloodHit floodMax floodWindow tracks e.2.text e.1
    r.1 :: floodAnswers floodMax floodWindow r.2 evs

/-- A login that failed, or a question whether one may be tried. A question is not counted as a
failure. -/
inductive AuthEvent
  | record (ip : Ip)
  | ask (ip : Ip)

/-- The answers to the questions of a run. -/
def authAnswers (tracks : List Track) : List (Nat × AuthEvent) → List Bool
  | [] => []
  | (now, .record ip) :: evs => authAnswers (authFailRecord tracks ip.text now) evs
  | (now, .ask ip) :: evs => authFailThrottled tracks ip.text now :: authAnswers tracks evs

/-- The window of connects has passed after more than `floodWindow` seconds. -/
def connectWindow (floodWindow : ℚ) : Period where
  passed d := decide (floodWindow < (d : ℚ))
  mono hle h := by
    rw [decide_eq_true_eq] at h ⊢
    exact h.trans_le (by exact_mod_cast hle)

def authWindow : Period where
  passed d := decide (60 < d)
  mono hle h := by
    rw [decide_eq_true_eq] at h ⊢
    omega

/-- The same with one counter for each address. -/
def floodAnswersFree (floodMax : Int) (floodWindow : ℚ) (u : Text → Option Counter) :
    List (Nat × Ip) → List Bool
  | [] => []
  | e :: evs =>
    if floodMax ≤ 0 then false :: floodAnswersFree floodMax floodWindow u evs
    else
      let u := count (connectWindow floodWindow) u e.2.text e.1
      decide (floodMax < (Counter.current (connectWindow floodWindow) e.1 (u e.2.text) : Nat)) ::
        floodAnswersFree floodMax floodWindow u evs

def authAnswersFree (u : Text → Option Counter) : List (Nat × AuthEvent) → List Bool
  | [] => []
  | (now, .record ip) :: evs => authAnswersFree (count authWindow u ip.text now) evs
  | (now, .ask ip) :: evs =>
    decide (authFailMax ≤ Counter.current authWindow now (u ip.text)) :: authAnswersFree u evs

/-- The connects of a run, by address. -/
def connects (evs : List (Nat × Ip)) : List (Nat × Text) := evs.map fun e => (e.1, e.2.text)

/-- The failed logins of a run, by address. -/
def failures : List (Nat × AuthEvent) → List (Nat × Text)
  | [] => []
  | (now, .record ip) :: evs => (now, ip.text) :: failures evs
  | (_, .ask _) :: evs => failures evs

/-- No window has more addresses than there are slots. The window is one that ends at an event of
the run. -/
def Fits (w : Period) (evs : List (Nat × Text)) : Prop := ∀ t, (crowd w evs t).card ≤ nSlots

/-! ## 3. The slot for a new address

A free slot counts as older than any. The invariant of the search is where it stands behind the
slots it has seen. -/

variable {tracks : List Track} {now : Nat}

/-- Where the search stands behind the slots `pre`: at a free slot, or at the oldest of `pre`. -/
def Best (now : Nat) (pre ts : List Track) (oldest oldestI : Nat) : Prop :=
  (∃ s, (pre ++ ts)[oldestI]? = some s ∧ s.key = [] ∧ oldest = 0) ∨
    (∀ t ∈ pre, t.key ≠ [] ∧ oldest ≤ t.start) ∧
      (pre = [] ∧ oldest = now + 1 ∨ ∃ s, (pre ++ ts)[oldestI]? = some s ∧ s.start = oldest)

theorem best_start (ts : List Track) : Best now [] ts (now + 1) 0 :=
  .inr ⟨fun _ h => absurd h List.not_mem_nil, .inl ⟨rfl, rfl⟩⟩

theorem Best.next {pre ts : List Track} {t : Track} {oldest oldestI : Nat}
    (h : Best now pre (t :: ts) oldest oldestI) (ht : t.key ≠ []) (hnow : t.start ≤ now) :
    (t.start < oldest → Best now (pre ++ [t]) ts t.start pre.length) ∧
      (¬ t.start < oldest → Best now (pre ++ [t]) ts oldest oldestI) := by
  have hsplit : pre ++ [t] ++ ts = pre ++ t :: ts := by simp
  rcases h with ⟨s, hs, hblank, rfl⟩ | ⟨hall, hat⟩
  · exact ⟨fun hlt => absurd hlt (Nat.not_lt_zero _), fun _ => .inl ⟨s, hsplit ▸ hs, hblank, rfl⟩⟩
  · refine ⟨fun hlt => .inr ⟨?_, .inr ⟨t, ?_, rfl⟩⟩, fun hge => .inr ⟨?_, ?_⟩⟩
    · intro a ha
      rcases List.mem_append.mp ha with ha | ha
      · exact ⟨(hall a ha).1, by have := (hall a ha).2; omega⟩
      · rw [List.mem_singleton.mp ha]
        exact ⟨ht, le_refl _⟩
    · rw [hsplit, List.getElem?_append_right (le_refl _), Nat.sub_self, List.getElem?_cons_zero]
    · intro a ha
      rcases List.mem_append.mp ha with ha | ha
      · exact hall a ha
      · rw [List.mem_singleton.mp ha]
        exact ⟨ht, Nat.le_of_not_lt hge⟩
    · rcases hat with ⟨-, rfl⟩ | ⟨s, hs, hstart⟩
      · omega
      · exact .inr ⟨s, hsplit ▸ hs, hstart⟩

/-- At the end it stands at a slot that may be given up. -/
theorem Best.victim {pre : List Track} {oldest oldestI : Nat} (h : Best now pre [] oldest oldestI)
    (hne : pre ≠ []) : Victim [] pre oldestI := by
  unfold Best at h
  rw [List.append_nil] at h
  rcases h with ⟨s, hs, hblank, -⟩ | ⟨hall, ⟨rfl, -⟩ | ⟨s, hs, rfl⟩⟩
  · exact ⟨s, hs, .inl hblank⟩
  · exact absurd rfl hne
  · exact ⟨s, hs, .inr hall⟩

theorem connectOldest_victim (ts : List Track) {pre : List Track} {oldest oldestI : Nat}
    (h : Best now pre ts oldest oldestI) (hne : pre ++ ts ≠ [])
    (hnow : ∀ t ∈ ts, t.key ≠ [] → t.start ≤ now) :
    Victim [] (pre ++ ts) (connectOldest ts pre.length oldest oldestI) := by
  induction ts generalizing pre oldest oldestI with
  | nil =>
    rw [List.append_nil] at hne ⊢
    exact h.victim hne
  | cons t ts ih =>
    have hsplit : pre ++ t :: ts = pre ++ [t] ++ ts := by simp
    have hlen : pre.length + 1 = (pre ++ [t]).length := by simp
    unfold connectOldest
    split
    · rename_i hblank
      refine ⟨t, ?_, .inl hblank⟩
      rw [List.getElem?_append_right (le_refl _), Nat.sub_self, List.getElem?_cons_zero]
    · rename_i hused
      obtain ⟨hlt, hge⟩ := h.next hused (hnow t (.head _) hused)
      rw [hsplit] at hne ⊢
      rw [hlen]
      split
      · rename_i hless
        exact ih (hlt hless) hne fun a ha => hnow a (.tail _ ha)
      · rename_i hless
        exact ih (hge hless) hne fun a ha => hnow a (.tail _ ha)

theorem authOldest_victim (ts : List Track) {pre : List Track} {oldest oldestI : Nat}
    (h : Best now pre ts oldest oldestI) (hne : pre ++ ts ≠ [])
    (hnow : ∀ t ∈ ts, t.key ≠ [] → t.start ≤ now) :
    Victim [] (pre ++ ts) (authOldest ts pre.length oldest oldestI) := by
  induction ts generalizing pre oldest oldestI with
  | nil =>
    rw [List.append_nil] at hne ⊢
    exact h.victim hne
  | cons t ts ih =>
    have hsplit : pre ++ t :: ts = pre ++ [t] ++ ts := by simp
    have hlen : pre.length + 1 = (pre ++ [t]).length := by simp
    have htail : ∀ a ∈ ts, a.key ≠ [] → a.start ≤ now := fun a ha => hnow a (.tail _ ha)
    unfold authOldest
    rw [hlen]
    split
    · rename_i hblank
      rw [hsplit] at hne ⊢
      refine ih (.inl ⟨t, ?_, hblank, rfl⟩) hne htail
      rw [← hsplit, List.getElem?_append_right (le_refl _), Nat.sub_self, List.getElem?_cons_zero]
    · rename_i hused
      obtain ⟨hlt, hge⟩ := h.next hused (hnow t (.head _) hused)
      rw [hsplit] at hne ⊢
      split
      · rename_i hless
        exact ih (hlt hless) hne htail
      · rename_i hless
        exact ih (hge hless) hne htail

/-! ## 4. The functions are events of the table

Each function is an event of the table of the library: it looks at the counter of its address and
stores the next. -/

variable {w : Period} {past : List (Nat × Text)} {u : Text → Option Counter}

theorem clip_ip (ip : Ip) : clip 64 ip.text = ip.text := clip_of_fits ip.lt

theorem tracks_ne_nil (hlen : tracks.length = nSlots) : tracks ≠ [] := by
  rintro rfl
  exact absurd hlen (by decide)

theorem victim_connect (h : Tracks w [] past now tracks u) (hlen : tracks.length = nSlots) :
    Victim [] tracks (connectOldest tracks 0 (now + 1) 0) :=
  connectOldest_victim tracks (best_start tracks) (tracks_ne_nil hlen)
    fun t ht hne => (h.began t ht hne).2

theorem victim_auth (h : Tracks w [] past now tracks u) (hlen : tracks.length = nSlots) :
    Victim [] tracks (authOldest tracks 0 (now + 1) 0) :=
  authOldest_victim tracks (best_start tracks) (tracks_ne_nil hlen)
    fun t ht hne => (h.began t ht hne).2

theorem passed_connect {W : ℚ} {start : Nat} (h : start ≤ now) :
    (connectWindow W).passed (now - start) = true ↔
      W < (((now : Int) - (start : Int) : Int) : ℚ) := by
  rw [← Int.ofNat_sub h]
  exact decide_eq_true_iff

theorem passed_auth {start : Nat} (h : start ≤ now) :
    authWindow.passed (now - start) = true ↔ authFailWindow < (now : Int) - (start : Int) := by
  rw [← Int.ofNat_sub h]
  simp only [authWindow, authFailWindow, decide_eq_true_eq]
  omega

@[simp] theorem count_self (w : Period) (u : Text → Option Counter) (k : Text) (now : Nat) :
    count w u k now k = some (Counter.next w now (u k)) := Function.update_self ..

/-- A counter that begins says no more than 1. -/
theorem current_fresh_le (w : Period) (now : Nat) : Counter.current w now (some ⟨now, 1⟩) ≤ 1 := by
  simp only [Counter.current]
  split <;> omega

theorem slotFor_some {k : Text} {i : Nat} (h : place tracks k = some i) (v : Nat) :
    slotFor tracks k v = i := by
  rw [slotFor, show tracks.findIdx? (·.key = k) = some i from h, Option.getD_some]

theorem slotFor_none {k : Text} (h : place tracks k = none) (v : Nat) : slotFor tracks k v = v := by
  rw [slotFor, show tracks.findIdx? (·.key = k) = none from h, Option.getD_none]

/-- An address without a slot has no counter that still counts. -/
theorem next_of_absent (h : Tracks w [] past now tracks u) {k : Text} (hk : k ≠ [])
    (hno : ∀ t ∈ tracks, t.key ≠ k) : Counter.next w now (u k) = ⟨now, 1⟩ := by
  cases hu : u k with
  | none => rfl
  | some c => rw [Counter.next, if_pos (h.gone k c hk hu hno).2]

theorem netConnectFloodHit_eq {floodMax : Int} (hmax : ¬ floodMax ≤ 0) (W : ℚ) (ip : Ip)
    (h : Tracks (connectWindow W) [] past now tracks u) (hlen : tracks.length = nSlots) :
    netConnectFloodHit floodMax W tracks ip.text now =
      (decide (floodMax < (Counter.current (connectWindow W) now
        (count (connectWindow W) u ip.text now ip.text) : Nat)),
      touch (connectWindow W) tracks ip.text now (connectOldest tracks 0 (now + 1) 0)) := by
  -- a counter that begins is not over a limit that is on
  have hfresh : decide (floodMax < (Counter.current (connectWindow W) now (some ⟨now, 1⟩) : Nat)) =
      false := by
    have := current_fresh_le (connectWindow W) now
    rw [decide_eq_false_iff_not]
    omega
  unfold netConnectFloodHit
  simp only [if_neg hmax, touch, count_self, clip_ip]
  cases hplace : place tracks ip.text with
  | some i =>
    obtain ⟨t, ht, hkey⟩ := place_some hplace
    have hmem := List.mem_of_getElem? ht
    have hne : t.key ≠ [] := hkey ▸ ip.ne
    obtain ⟨-, hle⟩ := h.began t hmem hne
    have hu := h.held t hmem hne
    rw [hkey] at hu
    simp only [slotFor_some hplace, List.getD_eq_getElem?_getD, ht, Option.getD_some, hkey, ne_eq,
      not_true, false_or, ← passed_connect hle, hu, Counter.next]
    by_cases hp : (connectWindow W).passed (now - t.start) = true
    · simp only [hp, if_true, hfresh]
    · rw [if_neg hp, if_neg hp, if_neg hp, Counter.current, if_neg hp, ← hkey]
  | none =>
    have hno := place_none hplace
    obtain ⟨t, ht, -⟩ := victim_connect h hlen
    simp only [slotFor_none hplace, List.getD_eq_getElem?_getD, ht, Option.getD_some, ne_eq,
      hno t (List.mem_of_getElem? ht), not_false_eq_true, true_or, if_true,
      next_of_absent h ip.ne hno, hfresh]

theorem authFailRecord_eq (ip : Ip) (h : Tracks authWindow [] past now tracks u)
    (hlen : tracks.length = nSlots) :
    authFailRecord tracks ip.text now =
      touch authWindow tracks ip.text now (authOldest tracks 0 (now + 1) 0) := by
  unfold authFailRecord
  simp only [touch, clip_ip]
  cases hplace : place tracks ip.text with
  | some i =>
    obtain ⟨t, ht, hkey⟩ := place_some hplace
    obtain ⟨-, hle⟩ := h.began t (List.mem_of_getElem? ht) (hkey ▸ ip.ne)
    simp only [slotFor_some hplace, List.getD_eq_getElem?_getD, ht, Option.getD_some, hkey, ne_eq,
      not_true, false_or, ← passed_auth hle]
    by_cases hp : authWindow.passed (now - t.start) = true
    · simp only [hp, if_true]
    · rw [if_neg hp, if_neg hp, ← hkey]
  | none =>
    obtain ⟨t, ht, -⟩ := victim_auth h hlen
    simp only [slotFor_none hplace, List.getD_eq_getElem?_getD, ht, Option.getD_some, ne_eq,
      place_none hplace t (List.mem_of_getElem? ht), not_false_eq_true, true_or, if_true]

theorem authFailThrottled_eq (ip : Ip) (h : Tracks authWindow [] past now tracks u) :
    authFailThrottled tracks ip.text now =
      decide (authFailMax ≤ Counter.current authWindow now (u ip.text)) := by
  rw [← h.current_eq ip.ne]
  unfold authFailThrottled current
  cases hfind : tracks.find? (·.key = ip.text) with
  | none => rfl
  | some t =>
    obtain ⟨hmem, hkey⟩ := find_key hfind
    obtain ⟨-, hle⟩ := h.began t hmem (hkey ▸ ip.ne)
    simp only [Counter.current]
    by_cases hp : authWindow.passed (now - t.start) = true
    · have hlate := (passed_auth hle).mp hp
      simp [hp, authFailMax, Int.not_le.mpr hlate]
    · have hin := fun h => hp ((passed_auth hle).mpr h)
      simp [hp, Int.not_lt.mp hin]

/-! ## 5. Whole runs

The library says that the table and the counters agree as long as there is a slot for each address
of a window. -/

/-- As many events as there are slots always fit. -/
theorem fits_of_length {evs : List (Nat × Text)} (h : evs.length ≤ nSlots) : Fits w evs := by
  intro t
  refine (List.toFinset_card_le _).trans ?_
  rw [List.length_map]
  exact (List.length_filter_le _ _).trans h

theorem Fits.upTo {evs : List (Nat × Text)} {e : Nat × Text}
    (h : Fits w (past ++ e :: evs)) : Fits w (past ++ [e]) := fun t =>
  (Finset.card_le_card (crowd_mono w (by simp) t)).trans (h t)

theorem floodAnswers_off {floodMax : Int} (hmax : floodMax ≤ 0) (W : ℚ) (evs : List (Nat × Ip))
    (tracks : List Track) (u : Text → Option Counter) :
    floodAnswers floodMax W tracks evs = floodAnswersFree floodMax W u evs := by
  induction evs with
  | nil => rfl
  | cons e evs ih =>
    unfold floodAnswers floodAnswersFree
    simp only [netConnectFloodHit, if_pos hmax, ih]

theorem floodAnswers_on {floodMax : Int} (hmax : ¬ floodMax ≤ 0) (W : ℚ) (evs : List (Nat × Ip))
    (h : Tracks (connectWindow W) [] past now tracks u) (hlen : tracks.length = nSlots)
    (hlate : ∀ e ∈ evs, now ≤ e.1) (htime : evs.Pairwise fun a b => a.1 ≤ b.1)
    (hfits : Fits (connectWindow W) (past ++ connects evs)) :
    floodAnswers floodMax W tracks evs = floodAnswersFree floodMax W u evs := by
  induction evs generalizing past now tracks u with
  | nil => rfl
  | cons e evs ih =>
    obtain ⟨hhead, htail⟩ := List.pairwise_cons.mp htime
    have h' := h.later (hlate e (.head _))
    have hcap : Fits (connectWindow W) (past ++ [(e.1, e.2.text)]) := Fits.upTo hfits
    have hnext := h'.touch e.2.ne (victim_connect h' hlen) (hlen ▸ hcap)
    unfold floodAnswers floodAnswersFree
    rw [if_neg hmax, netConnectFloodHit_eq hmax W e.2 h' hlen]
    refine congrArg _ (ih hnext ((length_touch _ _ _).trans hlen) hhead htail ?_)
    rwa [List.append_assoc]

theorem authAnswers_eq (evs : List (Nat × AuthEvent))
    (h : Tracks authWindow [] past now tracks u) (hlen : tracks.length = nSlots)
    (hlate : ∀ e ∈ evs, now ≤ e.1) (htime : evs.Pairwise fun a b => a.1 ≤ b.1)
    (hfits : Fits authWindow (past ++ failures evs)) :
    authAnswers tracks evs = authAnswersFree u evs := by
  induction evs generalizing past now tracks u with
  | nil => rfl
  | cons e evs ih =>
    obtain ⟨hhead, htail⟩ := List.pairwise_cons.mp htime
    have h' := h.later (hlate e (.head _))
    obtain ⟨time, ev⟩ := e
    cases ev with
    | record ip =>
      have hcap : Fits authWindow (past ++ [(time, ip.text)]) := Fits.upTo hfits
      have hnext := h'.touch ip.ne (victim_auth h' hlen) (hlen ▸ hcap)
      rw [authAnswers, authAnswersFree, authFailRecord_eq ip h' hlen]
      refine ih hnext ((length_touch _ _ _).trans hlen) hhead htail ?_
      rwa [List.append_assoc]
    | ask ip =>
      rw [authAnswers, authAnswersFree, authFailThrottled_eq ip h']
      exact congrArg _ (ih h' hlen hhead htail hfits)

/-- **Both tables answer as tables without a bound.**  This holds of every run in which time does
not go back and no window has more than 256 addresses; of the failed logins only those that are
recorded count. -/
theorem throttles_faithful :
    (∀ (floodMax : Int) (floodWindow : ℚ) (evs : List (Nat × Ip)),
      evs.Pairwise (fun a b => a.1 ≤ b.1) → Fits (connectWindow floodWindow) (connects evs) →
      floodAnswers floodMax floodWindow noTracks evs =
        floodAnswersFree floodMax floodWindow (fun _ => none) evs) ∧
    (∀ evs : List (Nat × AuthEvent),
      evs.Pairwise (fun a b => a.1 ≤ b.1) → Fits authWindow (failures evs) →
      authAnswers noTracks evs = authAnswersFree (fun _ => none) evs) := by
  have hlen : noTracks.length = nSlots := List.length_replicate
  refine ⟨fun floodMax W evs htime hfits => ?_, fun evs htime hfits => ?_⟩
  · by_cases hmax : floodMax ≤ 0
    · exact floodAnswers_off hmax W evs _ _
    · exact floodAnswers_on hmax W evs (Tracks.empty nSlots 0) hlen (fun _ _ => Nat.zero_le _) htime
        hfits
  · exact authAnswers_eq evs (Tracks.empty nSlots 0) hlen (fun _ _ => Nat.zero_le _) htime hfits

/-- Connects from two addresses, three of them from one where two are allowed, and again when its
window is over; and logins that failed from both, asked about. -/
theorem throttles_three :
    floodAnswers 2 10 noTracks [(5, ⟨['a'], by decide, by decide⟩),
      (5, ⟨['b'], by decide, by decide⟩), (5, ⟨['a'], by decide, by decide⟩),
      (6, ⟨['a'], by decide, by decide⟩), (20, ⟨['a'], by decide, by decide⟩)] =
      floodAnswersFree 2 10 (fun _ => none) [(5, ⟨['a'], by decide, by decide⟩),
        (5, ⟨['b'], by decide, by decide⟩), (5, ⟨['a'], by decide, by decide⟩),
        (6, ⟨['a'], by decide, by decide⟩), (20, ⟨['a'], by decide, by decide⟩)] ∧
    authAnswers noTracks [(5, .record ⟨['a'], by decide, by decide⟩),
      (5, .record ⟨['b'], by decide, by decide⟩), (6, .record ⟨['a'], by decide, by decide⟩),
      (6, .ask ⟨['a'], by decide, by decide⟩), (7, .ask ⟨['b'], by decide, by decide⟩)] =
      authAnswersFree (fun _ => none) [(5, .record ⟨['a'], by decide, by decide⟩),
        (5, .record ⟨['b'], by decide, by decide⟩), (6, .record ⟨['a'], by decide, by decide⟩),
        (6, .ask ⟨['a'], by decide, by decide⟩), (7, .ask ⟨['b'], by decide, by decide⟩)] :=
  ⟨throttles_faithful.1 2 10 _ (by simp) (fits_of_length (by decide)),
    throttles_faithful.2 _ (by simp) (fits_of_length (by decide))⟩

end SekurIRCd.Throttle
