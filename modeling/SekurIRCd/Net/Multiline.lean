/-
# Multiline batches and where they wait

A client's batch is collected line by line, and what does not fit the limits ends it.  On its way
to other servers it is taken apart again: its lines go ahead as MLINE, and wait at each server in a
table of 32 slots, under their sender and msgid, until the message itself comes and takes them.

The table is bounded.  A slot that has not been added to for 30 seconds is given up when the next
line of any batch comes, and a new batch that finds no free slot takes the oldest.  What is shown
here is what each operation does to the slot of one batch: its own lines add to it, its message
empties it, and the others leave it alone as long as it is neither given up nor taken (`Spares`).
-/
import SekurIRCd.Client
import Mathlib.Logic.Function.Basic

namespace SekurIRCd

open CLib

/-! ## 1. A batch is collected

A line is cut as it comes, and a batch that has become too long or has too many lines
is given up. -/

/-- `ML_MAX_LINES`. -/
def mlMaxLines : Nat := 24

/-- `ML_MAX_BYTES`. -/
def mlMaxBytes : Nat := 4096

/-- A line of a batch, with whether it is glued onto the one before. -/
abbrev MlLine := Bool × Text

/-- `ml->bytes`. -/
def mlBytes (ls : List MlLine) : Nat := (ls.map fun l => l.2.length).sum

/-- `ml_state_t`, a batch that a client has open. Its verb is that of its first line. -/
structure MlState where
  ref : Text
  target : Text
  verb : Text
  lines : List MlLine
deriving DecidableEq, Repr

/-- `snprintf(text, 420, "%.*s", max_message_length, s)`. -/
def mlText (maxLen : Nat) (s : Text) : Text := clip 420 (s.take maxLen)

/-- `ml_collect`, for a line tagged with the batch `ref`: the client's open batch after it. A line
that is too much ends the batch and is not sent by itself either. -/
def mlCollect (maxLen : Nat) (ml : Option MlState) (ref : Text) (concat : Bool)
    (verb target text : Text) : Option MlState :=
  ml.bind fun ml =>
    if ml.ref ≠ ref then some ml
    else if ircCasefold 72 ml.target ≠ ircCasefold 72 target then none
    else if ml.lines ≠ [] ∧ ml.verb ≠ verb then none
    else if ml.lines.length ≥ mlMaxLines then none
    else if ml.lines = [] ∧ concat then none
    else if concat = false ∧ text = [] then none
    else if mlBytes ml.lines + text.length > mlMaxBytes then none
    else some { ml with
      verb := if ml.lines = [] then clip 8 verb else ml.verb
      lines := ml.lines ++ [(concat, mlText maxLen text)] }

/-- BATCH +: the batch that is opened. -/
def mlOpen (ref target : Text) : Option MlState :=
  if ref.length ≥ 32 ∨ target.length ≥ 72 then none else some ⟨ref, target, [], []⟩

/-- `cmd_privmsg` and `cmd_notice`. -/
def mlVerb (notice : Bool) : Text := if notice then "NOTICE".toList else "PRIVMSG".toList

/-- A line of a client within its batch. `ref` names the batch, and `concat` says that the line
goes on where the one before ended. -/
structure MlInput where
  ref : Text
  concat : Bool
  notice : Bool
  target : Text
  text : Text

/-- What the lines of a client leave of its batch. -/
def mlCollectAll (maxLen : Nat) (ml : Option MlState) (ls : List MlInput) : Option MlState :=
  ls.foldl (fun ml l => mlCollect maxLen ml l.ref l.concat (mlVerb l.notice) l.target l.text) ml

/-- BATCH - accepts it. -/
def MlState.accepted (ml : MlState) : Bool := ml.lines.any fun l => !l.1

/-- The lines of a batch in one, as `cmd_batch` joins them. -/
def mlFull : List MlLine → Text
  | [] => []
  | l :: ls => l.2 ++ ls.flatMap fun l => (if l.1 then [] else [' ']) ++ l.2

/-- `joined`. -/
def mlJoined (ls : List MlLine) : Text := clip 420 (clip (mlMaxBytes + mlMaxLines + 1) (mlFull ls))

/-- A batch within the limits: of lines, of bytes, and of the length of each line. Every batch that
is delivered was one. -/
structure MlState.Ok (ml : MlState) (maxLen : Nat) : Prop where
  target : ml.target.length < 72
  lines : ml.lines.length ≤ mlMaxLines
  bytes : mlBytes ml.lines ≤ mlMaxBytes
  first : ∀ l ∈ ml.lines.head?, l.1 = false
  texts : ∀ l ∈ ml.lines, mlText maxLen l.2 = l.2
  verb : ml.lines ≠ [] → ∃ notice, ml.verb = mlVerb notice

theorem mlText_eq_take (maxLen : Nat) (s : Text) : mlText maxLen s = s.take (min 419 maxLen) := by
  rw [mlText, clip, List.take_take]

theorem mlText_mlText (maxLen : Nat) (s : Text) : mlText maxLen (mlText maxLen s) = mlText maxLen s := by
  simp only [mlText, clip, List.take_take]
  congr 1
  omega

theorem mlText_length (maxLen : Nat) (s : Text) : (mlText maxLen s).length ≤ s.length := by
  rw [mlText, clip, List.take_take]
  exact List.length_take_le' ..

theorem mlText_lt (maxLen : Nat) (s : Text) : (mlText maxLen s).length < 420 := by
  have h := clip_length_le 420 (s.take maxLen)
  rw [mlText]
  omega

@[simp] theorem mlBytes_append (ls : List MlLine) (l : MlLine) :
    mlBytes (ls ++ [l]) = mlBytes ls + l.2.length := by
  simp [mlBytes]

/-- A line that is collected keeps the limits. -/
theorem mlCollect_ok {maxLen : Nat} {ml : Option MlState} (h : ∀ b ∈ ml, b.Ok maxLen) (l : MlInput) :
    ∀ b ∈ mlCollect maxLen ml l.ref l.concat (mlVerb l.notice) l.target l.text, b.Ok maxLen := by
  intro b hb
  cases ml with
  | none => exact absurd hb (by simp [mlCollect])
  | some a =>
    have ha := h a rfl
    simp only [mlCollect, Option.bind_some, Option.mem_def] at hb
    split at hb
    next => exact Option.some.inj hb ▸ ha
    next =>
      have hverb : ∃ notice, (if a.lines = [] then clip 8 (mlVerb l.notice) else a.verb) =
          mlVerb notice := by
        split
        next => exact ⟨l.notice, by cases l.notice <;> rfl⟩
        next hne => exact ha.verb hne
      generalize (if a.lines = [] then clip 8 (mlVerb l.notice) else a.verb) = verb at hb hverb
      split_ifs at hb with h1 h2 h3 h4 h5 h6
      obtain rfl := Option.some.inj hb
      have hlen := mlText_length maxLen l.text
      refine ⟨ha.target, ?_, ?_, ?_, ?_, fun _ => hverb⟩
      · simp only [List.length_append, List.length_singleton]
        omega
      · rw [mlBytes_append]
        simp only
        omega
      · intro x hx
        cases hl : a.lines with
        | nil =>
          rw [hl, List.nil_append, List.head?_cons] at hx
          obtain rfl := Option.some.inj hx
          simpa [hl] using h4
        | cons y ys =>
          rw [hl, List.cons_append, List.head?_cons] at hx
          exact ha.first x (by rw [hl]; exact hx)
      · intro x hx
        rcases List.mem_append.mp hx with hx | hx
        · exact ha.texts x hx
        · rw [List.mem_singleton.mp hx]
          exact mlText_mlText ..

/-- **What is collected is within the limits.** -/
theorem mlCollectAll_ok {maxLen : Nat} {ref target : Text} {ls : List MlInput} {ml : MlState}
    (h : mlCollectAll maxLen (mlOpen ref target) ls = some ml) : ml.Ok maxLen := by
  have hall : ∀ (ls : List MlInput) (o : Option MlState), (∀ b ∈ o, b.Ok maxLen) →
      ∀ b ∈ mlCollectAll maxLen o ls, b.Ok maxLen := by
    intro ls
    induction ls with
    | nil => exact fun _ ho => ho
    | cons l ls ih => exact fun o ho => ih _ (mlCollect_ok ho l)
  refine hall ls _ (fun b hb => ?_) ml h
  unfold mlOpen at hb
  split at hb
  next => exact absurd hb (by simp)
  next hfit =>
    obtain rfl := Option.some.inj hb
    rw [not_or] at hfit
    exact ⟨by simpa using hfit.2, by simp, by simp [mlBytes], by simp, by simp,
      fun hne => absurd rfl hne⟩

/-! ## 2. The table -/

/-- `ML_PENDING_MAX`. -/
def mlPendingMax : Nat := 32

/-- `ML_PENDING_TTL`. -/
def mlPendingTtl : Int := 30

/-- A slot of `g_mlp`; `from` is a client, named by its UID.  It is free if it has no msgid. -/
structure MlSlot where
  lines : List MlLine
  msgid : Text
  sender : Text
  time : Int
deriving DecidableEq, Repr

/-- The slots `0` to `31`. -/
abbrev MlTable := Nat → MlSlot

def MlTable.start : MlTable := fun _ => ⟨[], [], [], 0⟩

/-- The slot holds lines of the sender's message. -/
def MlSlot.isOf (m : MlSlot) (sender msgid : Text) : Bool :=
  m.msgid != [] && m.sender == sender && m.msgid == msgid

/-- What the loop of `cmd_ml_part` has come to. -/
structure MlScan where
  table : MlTable
  slot : Option Nat
  oldest : Nat

/-- A slot that has waited too long is given up. -/
def MlSlot.aged (m : MlSlot) (now : Int) : MlSlot :=
  if m.msgid ≠ [] ∧ now - m.time > mlPendingTtl then { m with msgid := [] } else m

/-- One turn of the loop, until it is left. -/
def mlScan (now : Int) (sender msgid : Text) (s : MlScan) (i : Nat) : MlScan :=
  if s.slot.isSome then s
  else
    let t := Function.update s.table i ((s.table i).aged now)
    if (t i).isOf sender msgid then ⟨t, some i, s.oldest⟩
    else if (t s.oldest).msgid = [] then ⟨t, none, s.oldest⟩
    else if (t i).msgid = [] ∨ (t i).time < (t s.oldest).time then ⟨t, none, i⟩
    else ⟨t, none, s.oldest⟩

/-- The whole loop. -/
def MlTable.scan (t : MlTable) (now : Int) (sender msgid : Text) : MlScan :=
  (List.range mlPendingMax).foldl (mlScan now sender msgid) ⟨t, none, 0⟩

/-- The slot that a line goes to, and the table with it made ready. -/
def MlTable.place (t : MlTable) (now : Int) (sender msgid : Text) : Nat × MlTable :=
  let r := t.scan now sender msgid
  match r.slot with
  | some i => (i, Function.update r.table i { r.table i with time := now })
  | none => (r.oldest, Function.update r.table r.oldest ⟨[], clip 48 msgid, sender, now⟩)

/-- A line is added to a slot, if there is room. -/
def MlSlot.push (m : MlSlot) (maxLen : Nat) (concat : Bool) (text : Text) : MlSlot :=
  if m.lines.length ≥ mlMaxLines ∨ (m.lines = [] ∧ concat) then m
  else if mlBytes m.lines + (mlText maxLen text).length > mlMaxBytes then m
  else { m with lines := m.lines ++ [(concat, mlText maxLen text)] }

/-- `cmd_ml_part`. A line that finds no room in its slot is dropped, and the rest of its batch is
kept. -/
def cmdMlPart (maxLen : Nat) (t : MlTable) (now : Int) (sender msgid : Text) (concat : Bool)
    (text : Text) : MlTable :=
  let r := t.place now sender msgid
  Function.update r.2 r.1 ((r.2 r.1).push maxLen concat text)

/-- `ml_take`. -/
def mlTake (t : MlTable) (sender msgid : Text) : Option (List MlLine) × MlTable :=
  match (List.range mlPendingMax).find? fun i => (t i).isOf sender msgid with
  | some i =>
    (if (t i).lines = [] then none else some (t i).lines,
      Function.update t i { t i with msgid := [] })
  | none => (none, t)

/-! ## 3. What becomes of one slot -/

section Slots

variable {m : MlSlot} {now : Int} {sender msgid : Text}

theorem aged_of_le (h : now - m.time ≤ mlPendingTtl) : m.aged now = m := by
  rw [MlSlot.aged, if_neg fun hn => by omega]

@[simp] theorem aged_time : (m.aged now).time = m.time := by
  unfold MlSlot.aged
  split <;> rfl

theorem aged_of_isOf (h : (m.aged now).isOf sender msgid = true) : m.aged now = m := by
  unfold MlSlot.aged at h ⊢
  split
  next hold =>
    rw [if_pos hold] at h
    simp [MlSlot.isOf] at h
  next => rfl

theorem isOf_aged (h : m.isOf sender msgid = false) : (m.aged now).isOf sender msgid = false := by
  cases ha : (m.aged now).isOf sender msgid with
  | false => rfl
  | true =>
    rw [aged_of_isOf ha, h] at ha
    exact absurd ha (by simp)

theorem isOf_unique {sender' msgid' : Text} (h : m.isOf sender msgid = true)
    (h' : m.isOf sender' msgid' = true) : sender = sender' ∧ msgid = msgid' := by
  simp only [MlSlot.isOf, Bool.and_eq_true, beq_iff_eq] at h h'
  exact ⟨h.1.2.symm.trans h'.1.2, h.2.symm.trans h'.2⟩

end Slots

section Scan

variable (t : MlTable) (now : Int) (sender msgid : Text)

/-- The loop after `n` turns: either no slot is of the message, and the oldest is known, or the loop
was left at the first that is. -/
structure MissedUpTo (n : Nat) (r : MlScan) : Prop where
  slot : r.slot = none
  table : ∀ i, r.table i = if i < n then (t i).aged now else t i
  none : ∀ i, i < n → ((t i).aged now).isOf sender msgid = false
  start : n = 0 → r.oldest = 0
  lt : 0 < n → r.oldest < n
  oldest : 0 < n → ((t r.oldest).aged now).msgid = [] ∨
    ∀ i, i < n → ((t i).aged now).msgid ≠ [] ∧ (t r.oldest).time ≤ (t i).time

structure FoundAt (n j : Nat) (r : MlScan) : Prop where
  lt : j < n
  slot : r.slot = some j
  isOf : (t j).isOf sender msgid = true
  table : ∀ i, r.table i = if i ≤ j then (t i).aged now else t i
  kept : (t j).aged now = t j

theorem scan_upTo (n : Nat) :
    MissedUpTo t now sender msgid n
        ((List.range n).foldl (mlScan now sender msgid) ⟨t, none, 0⟩) ∨
      ∃ j, FoundAt t now sender msgid n j
        ((List.range n).foldl (mlScan now sender msgid) ⟨t, none, 0⟩) := by
  induction n with
  | zero =>
    refine Or.inl ⟨rfl, fun i => ?_, fun i hi => absurd hi (Nat.not_lt_zero i), fun _ => rfl,
      fun h => absurd h (lt_irrefl 0), fun h => absurd h (lt_irrefl 0)⟩
    simp
  | succ n ih =>
    rw [List.range_succ, List.foldl_append, List.foldl_cons, List.foldl_nil]
    generalize (List.range n).foldl (mlScan now sender msgid) ⟨t, none, 0⟩ = r at ih ⊢
    rcases ih with hr | ⟨j, hj⟩
    · have hn : r.table n = t n := by rw [hr.table, if_neg (lt_irrefl n)]
      have htable : ∀ i, Function.update r.table n ((r.table n).aged now) i =
          if i < n + 1 then (t i).aged now else t i := by
        intro i
        by_cases hin : i = n
        · rw [hin, Function.update_self, if_pos (Nat.lt_succ_self n), hn]
        · rw [Function.update_of_ne hin, hr.table]
          congr 1
          exact propext ⟨fun h => by omega, fun h => by omega⟩
      have hself := htable n
      rw [if_pos (Nat.lt_succ_self n)] at hself
      have hle : r.oldest ≤ n := by
        rcases Nat.eq_zero_or_pos n with h0 | hpos
        · exact (hr.start h0).le.trans (Nat.zero_le n)
        · exact (hr.lt hpos).le
      -- the oldest so far has been passed, or it is this one
      have hold := htable r.oldest
      rw [if_pos (Nat.lt_succ_of_le hle)] at hold
      rw [mlScan, if_neg (by simp [hr.slot])]
      generalize Function.update r.table n ((r.table n).aged now) = u at htable hself hold ⊢
      simp only [hold, hself, aged_time]
      split
      next hof =>
        have hkept := aged_of_isOf hof
        refine Or.inr ⟨n, Nat.lt_succ_self n, rfl, hkept ▸ hof, fun i => (htable i).trans ?_, hkept⟩
        congr 1
        exact propext Nat.lt_succ_iff
      next hof =>
        rw [Bool.not_eq_true] at hof
        have hnone : ∀ i, i < n + 1 → ((t i).aged now).isOf sender msgid = false := by
          intro i hi
          rcases Nat.lt_succ_iff_lt_or_eq.mp hi with hi | rfl
          · exact hr.none i hi
          · exact hof
        have hzero : n + 1 = 0 → ∀ k : Nat, k = 0 := fun h => absurd h (Nat.succ_ne_zero n)
        split
        next hfree =>
          exact Or.inl ⟨rfl, htable, hnone, fun h => hzero h _, fun _ => Nat.lt_succ_of_le hle,
            fun _ => Or.inl hfree⟩
        next hfree =>
          split
          next hnew =>
            refine Or.inl ⟨rfl, htable, hnone, fun h => hzero h _, fun _ => Nat.lt_succ_self n,
              fun _ => ?_⟩
            rcases hnew with hempty | hless
            · exact Or.inl hempty
            · by_cases hempty : ((t n).aged now).msgid = []
              · exact Or.inl hempty
              · refine Or.inr fun i hi => ?_
                rcases Nat.lt_succ_iff_lt_or_eq.mp hi with hi | rfl
                · obtain ⟨hne, hmin⟩ := (hr.oldest (by omega)).resolve_left hfree i hi
                  exact ⟨hne, hless.le.trans hmin⟩
                · exact ⟨hempty, le_refl _⟩
          next hnew =>
            rw [not_or, not_lt] at hnew
            refine Or.inl ⟨rfl, htable, hnone, fun h => hzero h _, fun _ => Nat.lt_succ_of_le hle,
              fun _ => Or.inr fun i hi => ?_⟩
            rcases Nat.lt_succ_iff_lt_or_eq.mp hi with hi | rfl
            · exact (hr.oldest (by omega)).resolve_left hfree i hi
            · exact hnew
    · refine Or.inr ⟨j, Nat.lt_succ_of_lt hj.lt, ?_, hj.isOf, ?_, hj.kept⟩
      · rw [mlScan, if_pos (by simp [hj.slot]), hj.slot]
      · rw [mlScan, if_pos (by simp [hj.slot])]
        exact hj.table

/-- Where a line goes: to the slot of its message, or to a free or the oldest one; the other slots
are as they were, or given up. -/
structure PlacedAt (j : Nat) (u : MlTable) : Prop where
  lt : j < mlPendingMax
  others : ∀ i, i ≠ j → u i = t i ∨ u i = (t i).aged now
  slot : ((t j).isOf sender msgid = true ∧ (t j).aged now = t j ∧ u j = { t j with time := now }) ∨
    ((∀ i, i < mlPendingMax → ((t i).aged now).isOf sender msgid = false) ∧
      (((t j).aged now).msgid = [] ∨
        ∀ i, i < mlPendingMax → ((t i).aged now).msgid ≠ [] ∧ (t j).time ≤ (t i).time) ∧
      u j = ⟨[], clip 48 msgid, sender, now⟩)

theorem place_placedAt :
    PlacedAt t now sender msgid (t.place now sender msgid).1 (t.place now sender msgid).2 := by
  have hrest : ∀ {P : Prop} [Decidable P] (i : Nat),
      (if P then (t i).aged now else t i) = t i ∨ (if P then (t i).aged now else t i) = (t i).aged now := by
    intro P _ i
    split
    · exact Or.inr rfl
    · exact Or.inl rfl
  have hscan := scan_upTo t now sender msgid mlPendingMax
  rw [← MlTable.scan] at hscan
  unfold MlTable.place
  generalize t.scan now sender msgid = r at hscan
  rcases hscan with hr | ⟨j, hj⟩
  · simp only [hr.slot]
    refine ⟨hr.lt (by decide), fun i hi => ?_, Or.inr ⟨hr.none, hr.oldest (by decide), ?_⟩⟩
    · rw [Function.update_of_ne hi, hr.table]
      exact hrest i
    · exact Function.update_self ..
  · simp only [hj.slot]
    refine ⟨hj.lt, fun i hi => ?_, Or.inl ⟨hj.isOf, hj.kept, ?_⟩⟩
    · rw [Function.update_of_ne hi, hj.table]
      exact hrest i
    · rw [Function.update_self, hj.table, if_pos le_rfl, hj.kept]

end Scan

/-! ## 4. The slot of one message -/

/-- No slot is of the message. -/
def MlTable.Absent (t : MlTable) (sender msgid : Text) : Prop :=
  ∀ i, i < mlPendingMax → (t i).isOf sender msgid = false

/-- One slot is of the message, and holds these lines. -/
structure MlTable.Waits (t : MlTable) (sender msgid : Text) (ls : List MlLine) (time : Int) (j : Nat) :
    Prop where
  lt : j < mlPendingMax
  slot : t j = ⟨ls, msgid, sender, time⟩
  alone : ∀ i, i < mlPendingMax → i ≠ j → (t i).isOf sender msgid = false

/-- A line of the message `msgid'` comes in time for the slot of `msgid` to be kept, and does not
take it: there is a slot for it already, a free one or an older one. -/
def MlTable.Spares (t : MlTable) (now : Int) (sender' msgid' sender msgid : Text) : Prop :=
  ∀ j, j < mlPendingMax → (t j).isOf sender msgid = true → now - (t j).time ≤ mlPendingTtl ∧
    ∃ i, i < mlPendingMax ∧ ((t i).isOf sender' msgid' = true ∨ ((t i).aged now).msgid = [] ∨
      (t i).time < (t j).time)

section Message

variable {t : MlTable} {sender msgid sender' msgid' : Text} {ls : List MlLine} {time : Int} {j : Nat}

theorem MlSlot.isOf_mk (ls : List MlLine) (hid : msgid ≠ []) (time : Int) :
    (MlSlot.mk ls msgid sender time).isOf sender msgid = true := by
  simp [MlSlot.isOf, hid]

@[simp] theorem push_isOf (m : MlSlot) (maxLen : Nat) (concat : Bool) (text : Text) :
    (m.push maxLen concat text).isOf sender msgid = m.isOf sender msgid := by
  unfold MlSlot.push
  split_ifs <;> rfl

/-- A line that goes elsewhere leaves the slot without the message. -/
theorem PlacedAt.absent_at {now : Int} {k i : Nat} {u : MlTable}
    (h : PlacedAt t now sender' msgid' k u) (hi : (t i).isOf sender msgid = false) (hik : i ≠ k) :
    (u i).isOf sender msgid = false := by
  rcases h.others i hik with hu | hu <;> rw [hu]
  · exact hi
  · exact isOf_aged hi

/-- **The first line** of a message opens its slot. -/
theorem part_first (h : t.Absent sender msgid) (hlen : msgid.length < 48)
    (maxLen : Nat) (now : Int) (text : Text) :
    ∃ j, (cmdMlPart maxLen t now sender msgid false text).Waits sender msgid
      [(false, mlText maxLen text)] now j := by
  have hp := place_placedAt t now sender msgid
  simp only [cmdMlPart]
  generalize t.place now sender msgid = r at hp ⊢
  obtain ⟨-, -, hslot⟩ := hp.slot.resolve_left fun hf => by
    rw [h r.1 hp.lt] at hf
    exact absurd hf.1 (by simp)
  refine ⟨r.1, hp.lt, ?_, fun i hi hij => ?_⟩
  · have hshort := mlText_lt maxLen text
    have hroom : ¬ mlBytes ([] : List MlLine) + (mlText maxLen text).length > mlMaxBytes := by
      simp only [mlBytes, mlMaxBytes, List.map_nil, List.sum_nil]
      omega
    rw [Function.update_self, hslot, clip_of_fits hlen, MlSlot.push, if_neg (by simp [mlMaxLines]),
      if_neg hroom]
    rfl
  · rw [Function.update_of_ne hij]
    exact hp.absent_at (h i hi) hij

/-- **The next line** is added to it. -/
theorem part_next (h : t.Waits sender msgid ls time j) (hid : msgid ≠ []) {now : Int}
    (hsoon : now - time ≤ mlPendingTtl) (maxLen : Nat) (concat : Bool) (text : Text)
    (hne : ls ≠ []) (hlines : ls.length < mlMaxLines)
    (hbytes : mlBytes ls + (mlText maxLen text).length ≤ mlMaxBytes) :
    (cmdMlPart maxLen t now sender msgid concat text).Waits sender msgid
      (ls ++ [(concat, mlText maxLen text)]) now j := by
  have hp := place_placedAt t now sender msgid
  simp only [cmdMlPart]
  generalize t.place now sender msgid = r at hp ⊢
  have hof : (t j).isOf sender msgid = true := by rw [h.slot]; exact MlSlot.isOf_mk ls hid time
  have hkept : (t j).aged now = t j := aged_of_le (by rw [h.slot]; exact hsoon)
  obtain ⟨hfound, -, hslot⟩ := hp.slot.resolve_right fun hf => by
    have hnone := hf.1 j h.lt
    rw [hkept, hof] at hnone
    exact absurd hnone (by simp)
  have hj : r.1 = j := by
    by_contra hne
    rw [h.alone r.1 hp.lt hne] at hfound
    exact absurd hfound (by simp)
  rw [hj] at hslot hp ⊢
  refine ⟨h.lt, ?_, fun i hi hij => ?_⟩
  · rw [Function.update_self, hslot, h.slot, MlSlot.push, if_neg, if_neg (by simp only; omega)]
    simp only [not_or, not_and]
    exact ⟨by omega, fun hnil => absurd hnil hne⟩
  · rw [Function.update_of_ne hij]
    exact hp.absent_at (h.alone i hi hij) hij

/-- Messages are other if one could not be taken for the other. -/
def Apart (sender' msgid' sender msgid : Text) : Prop := sender' = sender → clip 48 msgid' ≠ msgid

theorem Apart.not_both (h : Apart sender' msgid' sender msgid) (hlen : msgid.length < 48) {m : MlSlot}
    (hm : m.isOf sender' msgid' = true) : m.isOf sender msgid = false := by
  cases hs : m.isOf sender msgid with
  | false => rfl
  | true =>
    obtain ⟨hsend, rfl⟩ := isOf_unique hm hs
    exact absurd (clip_of_fits hlen) (h hsend)

/-- The slot that a line of another message is placed at is not of this one then. -/
theorem PlacedAt.apart {now : Int} {k : Nat} {u : MlTable} (h : PlacedAt t now sender' msgid' k u)
    (ha : Apart sender' msgid' sender msgid) (hlen : msgid.length < 48) :
    (u k).isOf sender msgid = false := by
  rcases h.slot with ⟨hof, -, hu⟩ | ⟨-, -, hu⟩
  · have hnot := ha.not_both hlen hof
    rw [hu]
    exact hnot
  · rw [hu]
    simp only [MlSlot.isOf, Bool.and_eq_false_iff, beq_eq_false_iff_ne, bne_eq_false_iff_eq]
    by_cases hs : sender' = sender
    · exact Or.inr (ha hs)
    · exact Or.inl (Or.inr hs)

theorem part_other_absent (h : t.Absent sender msgid) (ha : Apart sender' msgid' sender msgid)
    (hlen : msgid.length < 48) (maxLen : Nat) (now : Int) (concat : Bool) (text : Text) :
    (cmdMlPart maxLen t now sender' msgid' concat text).Absent sender msgid := by
  have hp := place_placedAt t now sender' msgid'
  simp only [cmdMlPart]
  generalize t.place now sender' msgid' = r at hp ⊢
  intro i hi
  by_cases hik : i = r.1
  · rw [hik, Function.update_self, push_isOf]
    exact hp.apart ha hlen
  · rw [Function.update_of_ne hik]
    exact hp.absent_at (h i hi) hik

/-- **A line of another message** leaves the slot alone, if it spares it. -/
theorem part_other_waits (h : t.Waits sender msgid ls time j) (hid : msgid ≠ [])
    (ha : Apart sender' msgid' sender msgid) (hlen : msgid.length < 48) {now : Int}
    (hs : t.Spares now sender' msgid' sender msgid) (maxLen : Nat) (concat : Bool) (text : Text) :
    (cmdMlPart maxLen t now sender' msgid' concat text).Waits sender msgid ls time j := by
  have hp := place_placedAt t now sender' msgid'
  simp only [cmdMlPart]
  generalize t.place now sender' msgid' = r at hp ⊢
  have hof : (t j).isOf sender msgid = true := by rw [h.slot]; exact MlSlot.isOf_mk ls hid time
  obtain ⟨hsoon, i, hi, hroom⟩ := hs j h.lt hof
  have hkept : (t j).aged now = t j := aged_of_le hsoon
  have hjk : j ≠ r.1 := by
    intro hjk
    rcases hp.slot with ⟨hfound, -⟩ | ⟨hnone, hchosen, -⟩
    · rw [← hjk] at hfound
      rw [ha.not_both hlen hfound] at hof
      exact absurd hof (by simp)
    · rw [← hjk, hkept] at hchosen
      have hheld : (t j).msgid ≠ [] := by rw [h.slot]; exact hid
      -- so this one was the oldest, and no slot was free
      have hall := (hchosen.resolve_left hheld) i hi
      rcases hroom with hother | hfree | holder
      · have hgone := hnone i hi
        by_cases haged : (t i).aged now = t i
        · rw [haged, hother] at hgone
          exact absurd hgone (by simp)
        · unfold MlSlot.aged at hall haged
          split at hall
          next => exact hall.1 rfl
          next hno =>
            rw [if_neg hno] at haged
            exact haged rfl
      · exact hall.1 hfree
      · omega
  refine ⟨h.lt, ?_, fun i hi hij => ?_⟩
  · rw [Function.update_of_ne hjk]
    rcases hp.others j hjk with hu | hu <;> rw [hu]
    · exact h.slot
    · rw [hkept, h.slot]
  · by_cases hik : i = r.1
    · rw [hik, Function.update_self, push_isOf]
      exact hp.apart ha hlen
    · rw [Function.update_of_ne hik]
      exact hp.absent_at (h.alone i hi hij) hik

/-- A message takes a slot of its own, if there is one. -/
theorem mlTake_cases (t : MlTable) (sender msgid : Text) :
    (t.Absent sender msgid ∧ mlTake t sender msgid = (none, t)) ∨
      ∃ i, i < mlPendingMax ∧ (t i).isOf sender msgid = true ∧
        mlTake t sender msgid = (if (t i).lines = [] then none else some (t i).lines,
          Function.update t i { t i with msgid := [] }) := by
  cases hfind : (List.range mlPendingMax).find? fun i => (t i).isOf sender msgid with
  | none =>
    refine Or.inl ⟨fun i hi => ?_, by rw [mlTake, hfind]⟩
    simpa using List.find?_eq_none.mp hfind i (List.mem_range.mpr hi)
  | some i =>
    exact Or.inr ⟨i, List.mem_range.mp (List.mem_of_find?_eq_some hfind),
      List.find?_some (p := fun i => (t i).isOf sender msgid) hfind, by rw [mlTake, hfind]⟩

/-- **The message** takes the lines, and leaves none. -/
theorem mlTake_waits (h : t.Waits sender msgid ls time j) (hid : msgid ≠ []) (hne : ls ≠ []) :
    (mlTake t sender msgid).1 = some ls ∧ (mlTake t sender msgid).2.Absent sender msgid := by
  have hof : (t j).isOf sender msgid = true := by rw [h.slot]; exact MlSlot.isOf_mk ls hid time
  rcases mlTake_cases t sender msgid with ⟨habs, -⟩ | ⟨i, hi, hiof, he⟩
  · rw [habs j h.lt] at hof
    exact absurd hof (by simp)
  · have hij : i = j := by
      by_contra hij
      rw [h.alone i hi hij] at hiof
      exact absurd hiof (by simp)
    subst hij
    rw [he]
    refine ⟨by simp only [h.slot, if_neg hne], fun k hk => ?_⟩
    simp only
    by_cases hki : k = i
    · rw [hki, Function.update_self]
      simp [MlSlot.isOf]
    · rw [Function.update_of_ne hki]
      exact h.alone k hk hki

theorem take_other_absent (h : t.Absent sender msgid) (sender' msgid' : Text) :
    (mlTake t sender' msgid').2.Absent sender msgid := by
  rcases mlTake_cases t sender' msgid' with ⟨-, he⟩ | ⟨i, -, -, he⟩
  · rw [he]
    exact h
  · rw [he]
    intro k hk
    simp only
    by_cases hki : k = i
    · rw [hki, Function.update_self]
      simp [MlSlot.isOf]
    · rw [Function.update_of_ne hki]
      exact h k hk

theorem take_other_waits (h : t.Waits sender msgid ls time j) (hid : msgid ≠ [])
    (hne : sender' = sender → msgid' ≠ msgid) :
    (mlTake t sender' msgid').2.Waits sender msgid ls time j := by
  have hof : (t j).isOf sender msgid = true := by rw [h.slot]; exact MlSlot.isOf_mk ls hid time
  rcases mlTake_cases t sender' msgid' with ⟨-, he⟩ | ⟨i, -, hi, he⟩
  · rw [he]
    exact h
  · have hij : i ≠ j := by
      rintro rfl
      obtain ⟨hs, hm⟩ := isOf_unique hi hof
      exact hne hs hm
    rw [he]
    refine ⟨h.lt, (Function.update_of_ne hij.symm ..).trans h.slot, fun k hk hkj => ?_⟩
    simp only
    by_cases hki : k = i
    · rw [hki, Function.update_self]
      simp [MlSlot.isOf]
    · rw [Function.update_of_ne hki]
      exact h.alone k hk hkj

end Message

end SekurIRCd
