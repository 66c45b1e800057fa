/-
# Files that survive a crash

A disk has a directory, names for files by number, and what the files hold.  A program that is
killed leaves it as it is.  When the power goes, a file that was written after its last `fsync` may
come back with anything in it, and so may any directory there has been since the start.

`Guards n P` says that whatever comes back, the file of that name is whole and holds what `P` says.
It is kept by everything that is done under other names (`Guards.exec`), and by giving the name to
a file that is written and synced (`Guards.replace`): this is how a file is replaced.
-/
import SekurIRCd.Lib.CString
import Mathlib.Logic.Function.Basic

namespace DiskFiles

open CLib

variable {ν : Type}

/-- Files by number, and the directories that a power cut may bring back: a directory is not
synced, so any it has ever been may be the one on the disk. -/
structure Disk (ν : Type) where
  dir : ν → Option Nat
  past : List (ν → Option Nat)
  data : Nat → Text
  safe : Nat → Bool
  next : Nat

/-- What a program does to files: `open` with `O_CREAT` and `O_TRUNC`, `write` at the end, `fsync`,
`rename` and `unlink`. -/
inductive Op (ν : Type)
  | create (n : ν)
  | append (n : ν) (t : Text)
  | sync (n : ν)
  | move (a b : ν)
  | remove (n : ν)

/-- The names it is about. -/
def Op.names : Op ν → List ν
  | .create n => [n]
  | .append n _ => [n]
  | .sync n => [n]
  | .move a b => [a, b]
  | .remove n => [n]

namespace Disk

variable (d : Disk ν)

/-- What a reader finds. -/
def read (n : ν) : Option Text := (d.dir n).map d.data

/-- Another directory. -/
def enter (dir : ν → Option Nat) : Disk ν := { d with dir := dir, past := d.dir :: d.past }

/-- Other contents of one file. -/
def write (i : Nat) (t : Text) (safe : Bool) : Disk ν :=
  { d with data := Function.update d.data i t, safe := Function.update d.safe i safe }

def exec [DecidableEq ν] (op : Op ν) : Disk ν :=
  match op with
  | .create n =>
    match d.dir n with
    | some i => d.write i [] false
    | none =>
      { (d.write d.next [] false).enter (Function.update d.dir n (some d.next)) with
        next := d.next + 1 }
  | .append n t =>
    match d.dir n with
    | some i => d.write i (d.data i ++ t) false
    | none => d
  | .sync n =>
    match d.dir n with
    | some i => d.write i (d.data i) true
    | none => d
  | .move a b =>
    match d.dir a with
    | some i =>
      if a = b then d else d.enter (Function.update (Function.update d.dir a none) b (some i))
    | none => d
  | .remove n => d.enter (Function.update d.dir n none)

def execAll [DecidableEq ν] (ops : List (Op ν)) : Disk ν := ops.foldl (fun d op => d.exec op) d

/-- A file is written, in pieces, and synced. -/
def writing (a : ν) (chunks : List Text) : List (Op ν) :=
  .create a :: (chunks.map (.append a) ++ [.sync a])

/-- The power goes; `dir` comes back, and `junk` where nothing is safe. -/
def powerCut (dir : ν → Option Nat) (junk : Nat → Text) : Disk ν where
  dir := dir
  past := []
  data i := if d.safe i then d.data i else junk i
  safe _ := true
  next := d.next

/-- Every name has a file of its own. A file that was renamed away is not written under its old
name any more, which is what an atomic replacement needs. -/
structure Tidy (dir : ν → Option Nat) (next : Nat) : Prop where
  lt : ∀ n i, dir n = some i → i < next
  single : ∀ m n i, dir m = some i → dir n = some i → m = n

/-- Every directory that may come back is tidy. -/
def AllTidy : Prop := ∀ dir ∈ d.dir :: d.past, Tidy dir d.next

/-- Whatever comes back, a file of this name is whole, and nothing else that is written is it. This
is what makes the replacement of a file atomic, and it speaks of all directories of the past at
once. -/
def Guards (n : ν) (P : Text → Prop) : Prop :=
  ∀ dir ∈ d.dir :: d.past, ∀ i, dir n = some i →
    d.safe i = true ∧ P (d.data i) ∧ ∀ m, d.dir m = some i → m = n

variable {d}

/-! ## 1. Tidy directories

Two names for one file would let a write under one name change what is read under the other. No
operation here makes a second name, so this is an invariant of its own. -/

theorem Tidy.update_none [DecidableEq ν] {dir : ν → Option Nat} {k : Nat} (h : Tidy dir k)
    (n : ν) :
    Tidy (Function.update dir n none) k := by
  have hold : ∀ m i, Function.update dir n none m = some i → dir m = some i := by
    intro m i hm
    by_cases hmn : m = n
    · rw [hmn, Function.update_self] at hm
      cases hm
    · rwa [Function.update_of_ne hmn] at hm
  exact ⟨fun m i hm => h.lt m i (hold m i hm),
    fun m m' i hm hm' => h.single m m' i (hold m i hm) (hold m' i hm')⟩

theorem Tidy.update_some [DecidableEq ν] {dir : ν → Option Nat} {k j : Nat} (h : Tidy dir k) (n : ν)
    (hj : j < k)
    (hno : ∀ m, m ≠ n → dir m ≠ some j) : Tidy (Function.update dir n (some j)) k := by
  have hold : ∀ m i, Function.update dir n (some j) m = some i →
      m = n ∧ i = j ∨ m ≠ n ∧ dir m = some i := by
    intro m i hm
    by_cases hmn : m = n
    · rw [hmn, Function.update_self] at hm
      exact .inl ⟨hmn, (Option.some.inj hm).symm⟩
    · rw [Function.update_of_ne hmn] at hm
      exact .inr ⟨hmn, hm⟩
  refine ⟨fun m i hm => ?_, fun m m' i hm hm' => ?_⟩
  · rcases hold m i hm with ⟨-, rfl⟩ | ⟨-, hm⟩
    · exact hj
    · exact h.lt m i hm
  · rcases hold m i hm with ⟨rfl, rfl⟩ | ⟨hmn, hm⟩
    · rcases hold m' _ hm' with ⟨rfl, -⟩ | ⟨hmn', hm'⟩
      · rfl
      · exact absurd hm' (hno m' hmn')
    · rcases hold m' i hm' with ⟨-, hij⟩ | ⟨-, hm'⟩
      · exact absurd (hij ▸ hm) (hno m hmn)
      · exact h.single m m' i hm hm'

theorem Tidy.mono {dir : ν → Option Nat} {k k' : Nat} (h : Tidy dir k) (hk : k ≤ k') :
    Tidy dir k' := ⟨fun n i hn => (h.lt n i hn).trans_le hk, h.single⟩

theorem AllTidy.enter (h : d.AllTidy) {dir : ν → Option Nat} (hdir : Tidy dir d.next) :
    (d.enter dir).AllTidy := by
  intro e he
  rcases List.mem_cons.mp he with rfl | he
  · exact hdir
  · exact h e he

theorem AllTidy.exec [DecidableEq ν] (h : d.AllTidy) (op : Op ν) : (d.exec op).AllTidy := by
  have hdir := h d.dir List.mem_cons_self
  cases op with
  | create n =>
    rw [Disk.exec]
    split
    · exact h
    · next hn =>
      have hgrow : ({ d with next := d.next + 1 } : Disk ν).AllTidy := fun e he =>
        (h e he).mono (Nat.le_succ _)
      refine AllTidy.enter (d := { d.write d.next [] false with next := d.next + 1 }) hgrow ?_
      refine (hdir.mono (Nat.le_succ _)).update_some n (Nat.lt_succ_self _) fun m _ hm => ?_
      exact absurd (hdir.lt m _ hm) (Nat.lt_irrefl _)
  | append n t =>
    rw [Disk.exec]
    split <;> exact h
  | sync n =>
    rw [Disk.exec]
    split <;> exact h
  | move a b =>
    rw [Disk.exec]
    split
    · next i hi =>
      split
      · exact h
      · refine h.enter ((hdir.update_none a).update_some b (hdir.lt a i hi) fun m _ hm => ?_)
        by_cases hma : m = a
        · rw [hma, Function.update_self] at hm
          cases hm
        · rw [Function.update_of_ne hma] at hm
          exact hma (hdir.single m a i hm hi)
    · exact h
  | remove n => exact h.enter (hdir.update_none n)

theorem AllTidy.powerCut (h : d.AllTidy) {dir : ν → Option Nat} (hdir : dir ∈ d.dir :: d.past)
    (junk : Nat → Text) : (d.powerCut dir junk).AllTidy := by
  intro e he
  rw [List.mem_singleton.mp he]
  exact h dir hdir

/-! ## 2. A file that is guarded

`Guards n P` quantifies over the directories that may come back, and asks that the file each of
them has under `n` was synced. Everything a program does under other names keeps it; the name
itself is only ever given to another file by a rename. -/

section Guards

variable {n : ν} {P : Text → Prop}

theorem Guards.mono {Q : Text → Prop} (h : d.Guards n P) (hPQ : ∀ t, P t → Q t) :
    d.Guards n Q := by
  intro dir hdir i hi
  obtain ⟨hsafe, hP, hown⟩ := h dir hdir i hi
  exact ⟨hsafe, hPQ _ hP, hown⟩

theorem Guards.write (h : d.Guards n P) {j : Nat} (hj : ∀ dir ∈ d.dir :: d.past, dir n ≠ some j)
    (t : Text) (safe : Bool) : (d.write j t safe).Guards n P := by
  intro dir hdir i hi
  obtain ⟨hsafe, hP, hown⟩ := h dir hdir i hi
  have hij : i ≠ j := by
    rintro rfl
    exact hj dir hdir hi
  refine ⟨?_, ?_, hown⟩
  · exact (Function.update_of_ne hij ..).trans hsafe
  · exact (congrArg P (Function.update_of_ne hij ..)).mpr hP

/-- A file of another name is none that may come back under this one. -/
theorem Guards.ne_of_dir (h : d.Guards n P) {m : ν} {j : Nat} (hmn : m ≠ n)
    (hm : d.dir m = some j) : ∀ dir ∈ d.dir :: d.past, dir n ≠ some j := by
  intro dir hdir hn
  exact hmn ((h dir hdir j hn).2.2 m hm)

/-- Another directory, in which the name and the file's names are the same. -/
theorem Guards.enter (h : d.Guards n P) {dir : ν → Option Nat} (hn : dir n = d.dir n)
    (hown : ∀ e ∈ d.dir :: d.past, ∀ i, e n = some i → ∀ m, dir m = some i → d.dir m = some i) :
    (d.enter dir).Guards n P := by
  have hall : ∀ e ∈ d.dir :: d.past, ∀ i, e n = some i →
      d.safe i = true ∧ P (d.data i) ∧ ∀ m, dir m = some i → m = n := by
    intro e he i hi
    obtain ⟨hsafe, hP, hold⟩ := h e he i hi
    exact ⟨hsafe, hP, fun m hm => hold m (hown e he i hi m hm)⟩
  intro e he i hi
  rcases List.mem_cons.mp he with rfl | he
  · have hi' : d.dir n = some i := hn.symm.trans hi
    exact hall d.dir List.mem_cons_self i hi'
  · exact hall e he i hi

theorem Guards.create_new [DecidableEq ν] (h : d.Guards n P) (htidy : d.AllTidy) {m : ν}
    (hmn : m ≠ n) :
    ({ (d.write d.next [] false).enter (Function.update d.dir m (some d.next)) with
      next := d.next + 1 } : Disk ν).Guards n P := by
  have hnext : ∀ dir ∈ d.dir :: d.past, dir n ≠ some d.next := by
    intro dir hdir hn
    exact absurd ((htidy dir hdir).lt n _ hn) (Nat.lt_irrefl _)
  refine Guards.enter (d := d.write d.next [] false) (h.write hnext [] false)
    (Function.update_of_ne (Ne.symm hmn) ..) ?_
  intro e he i hi m' hm'
  have hm' : Function.update d.dir m (some d.next) m' = some i := hm'
  by_cases hm : m' = m
  · rw [hm, Function.update_self] at hm'
    exact absurd (hi.trans hm'.symm) (hnext e he)
  · rwa [Function.update_of_ne hm] at hm'

theorem Guards.move_other [DecidableEq ν] (h : d.Guards n P) {a b : ν} {j : Nat} (ha : a ≠ n)
    (hb : b ≠ n) (hj : d.dir a = some j) :
    (d.enter (Function.update (Function.update d.dir a none) b (some j))).Guards n P := by
  refine h.enter ?_ fun e he i hi m hm => ?_
  · rw [Function.update_of_ne (Ne.symm hb), Function.update_of_ne (Ne.symm ha)]
  · by_cases hmb : m = b
    · rw [hmb, Function.update_self] at hm
      exact absurd (hi.trans hm.symm) (h.ne_of_dir ha hj e he)
    · rw [Function.update_of_ne hmb] at hm
      by_cases hma : m = a
      · rw [hma, Function.update_self] at hm
        cases hm
      · rwa [Function.update_of_ne hma] at hm

theorem Guards.exec [DecidableEq ν] (h : d.Guards n P) (htidy : d.AllTidy) {op : Op ν}
    (hop : n ∉ op.names) :
    (d.exec op).Guards n P := by
  cases op with
  | create m =>
    have hmn : m ≠ n := fun hmn => hop (List.mem_singleton.mpr hmn.symm)
    rw [Disk.exec]
    split
    · next i hi => exact h.write (h.ne_of_dir hmn hi) [] false
    · exact h.create_new htidy hmn
  | append m t =>
    have hmn : m ≠ n := fun hmn => hop (List.mem_singleton.mpr hmn.symm)
    rw [Disk.exec]
    split
    · next i hi => exact h.write (h.ne_of_dir hmn hi) _ false
    · exact h
  | sync m =>
    have hmn : m ≠ n := fun hmn => hop (List.mem_singleton.mpr hmn.symm)
    rw [Disk.exec]
    split
    · next i hi => exact h.write (h.ne_of_dir hmn hi) _ true
    · exact h
  | move a b =>
    have ha : a ≠ n := by
      rintro rfl
      exact hop List.mem_cons_self
    have hb : b ≠ n := by
      rintro rfl
      exact hop (List.mem_cons_of_mem _ List.mem_cons_self)
    rw [Disk.exec]
    split
    · next i hi =>
      split
      · exact h
      · exact h.move_other ha hb hi
    · exact h
  | remove m =>
    have hmn : m ≠ n := fun hmn => hop (List.mem_singleton.mpr hmn.symm)
    refine h.enter (Function.update_of_ne (Ne.symm hmn) ..) fun e he i hi m' hm' => ?_
    by_cases hm : m' = m
    · rw [hm, Function.update_self] at hm'
      cases hm'
    · rwa [Function.update_of_ne hm] at hm'

/-- **The name is given to a file that is written and synced.** From here on the old file or the
new one comes back, and both hold what `P` says. -/
theorem Guards.replace [DecidableEq ν] (h : d.Guards n P) (htidy : d.AllTidy) {a : ν} {j : Nat}
    (ha : a ≠ n) (hj : d.dir a = some j) (hsafe : d.safe j = true) (hP : P (d.data j)) :
    (d.exec (.move a n)).Guards n P := by
  have hmoved : d.exec (.move a n) =
      d.enter (Function.update (Function.update d.dir a none) n (some j)) := by
    rw [Disk.exec, hj]
    exact if_neg ha
  have hdir : ∀ i m, m ≠ n → Function.update (Function.update d.dir a none) n (some j) m = some i →
      d.dir m = some i ∧ m ≠ a := by
    intro i m hmn hm
    rw [Function.update_of_ne hmn] at hm
    by_cases hma : m = a
    · rw [hma, Function.update_self] at hm
      cases hm
    · rw [Function.update_of_ne hma] at hm
      exact ⟨hm, hma⟩
  rw [hmoved]
  intro e he i hi
  rcases List.mem_cons.mp he with rfl | he
  · have hi : Function.update (Function.update d.dir a none) n (some j) n = some i := hi
    rw [Function.update_self] at hi
    cases hi
    refine ⟨hsafe, hP, fun m hm => by_contra fun hmn => ?_⟩
    obtain ⟨hold, hma⟩ := hdir _ m hmn hm
    exact hma ((htidy d.dir List.mem_cons_self).single m a _ hold hj)
  · obtain ⟨hs, hp, hown⟩ := h e he i hi
    refine ⟨hs, hp, fun m hm => by_contra fun hmn => ?_⟩
    exact hmn (hown m (hdir _ m hmn hm).1)

/-- **Whatever comes back** was guarded, so it is again a disk on which the file is whole. -/
theorem Guards.powerCut (h : d.Guards n P) (htidy : d.AllTidy) {dir : ν → Option Nat}
    (hdir : dir ∈ d.dir :: d.past) (junk : Nat → Text) : (d.powerCut dir junk).Guards n P := by
  intro e he i hi
  rw [List.mem_singleton.mp he] at hi
  obtain ⟨hsafe, hP, -⟩ := h dir hdir i hi
  refine ⟨rfl, ?_, fun m hm => (htidy dir hdir).single m n i hm hi⟩
  exact (congrArg P (if_pos hsafe)).mpr hP

theorem AllTidy.execAll [DecidableEq ν] (h : d.AllTidy) (ops : List (Op ν)) :
    (d.execAll ops).AllTidy := by
  induction ops generalizing d with
  | nil => exact h
  | cons op ops ih => exact ih (h.exec op)

theorem Guards.execAll [DecidableEq ν] (h : d.Guards n P) (htidy : d.AllTidy) {ops : List (Op ν)}
    (hops : ∀ op ∈ ops, n ∉ op.names) : (d.execAll ops).Guards n P := by
  induction ops generalizing d with
  | nil => exact h
  | cons op ops ih =>
    exact ih (h.exec htidy (hops op List.mem_cons_self)) (htidy.exec op)
      fun op hop => hops op (List.mem_cons_of_mem _ hop)

theorem Guards.read (h : d.Guards n P) {t : Text} (ht : d.read n = some t) : P t := by
  obtain ⟨i, hi, rfl⟩ := Option.map_eq_some_iff.mp ht
  exact (h d.dir List.mem_cons_self i hi).2.1

end Guards

/-! ## 3. What a reader finds -/

section Read

variable {n : ν}

theorem read_write {j : Nat} (hj : d.dir n ≠ some j) (t : Text) (safe : Bool) :
    (d.write j t safe).read n = d.read n := by
  rw [read, read]
  cases hn : d.dir n with
  | none => rw [show (d.write j t safe).dir n = none from hn, Option.map_none, Option.map_none]
  | some i =>
    have hij : i ≠ j := by
      rintro rfl
      exact hj hn
    rw [show (d.write j t safe).dir n = some i from hn]
    exact congrArg some (Function.update_of_ne hij ..)

theorem names_writing {a : ν} {chunks : List Text} : ∀ op ∈ writing a chunks, op.names = [a] := by
  intro op hop
  rcases List.mem_cons.mp hop with rfl | hop
  · rfl
  · rcases List.mem_append.mp hop with hop | hop
    · obtain ⟨t, -, rfl⟩ := List.mem_map.mp hop
      rfl
    · rw [List.mem_singleton.mp hop]
      rfl

variable [DecidableEq ν]

theorem execAll_append (ops ops' : List (Op ν)) :
    d.execAll (ops ++ ops') = (d.execAll ops).execAll ops' := List.foldl_append

/-- Nothing that is done under other names is seen. -/
theorem read_exec (h : d.AllTidy) {op : Op ν} (hop : n ∉ op.names) :
    (d.exec op).read n = d.read n := by
  have hdir := h d.dir List.mem_cons_self
  have hother : ∀ {m j}, n ≠ m → d.dir m = some j → d.dir n ≠ some j :=
    fun hne hm hn => hne (hdir.single n _ _ hn hm)
  cases op with
  | create m =>
    have hne : n ≠ m := fun hne => hop (List.mem_singleton.mpr hne)
    rw [exec]
    split
    · next i hi => exact read_write (hother hne hi) [] false
    · refine Eq.trans ?_ (read_write (d := d) (j := d.next)
        (fun hn => absurd (hdir.lt n _ hn) (Nat.lt_irrefl _)) [] false)
      exact congrArg (Option.map _) (Function.update_of_ne hne ..)
  | append m t =>
    have hne : n ≠ m := fun hne => hop (List.mem_singleton.mpr hne)
    rw [exec]
    split
    · next i hi => exact read_write (hother hne hi) _ false
    · rfl
  | sync m =>
    have hne : n ≠ m := fun hne => hop (List.mem_singleton.mpr hne)
    rw [exec]
    split
    · next i hi => exact read_write (hother hne hi) _ true
    · rfl
  | move a b =>
    have ha : n ≠ a := by
      rintro rfl
      exact hop List.mem_cons_self
    have hb : n ≠ b := by
      rintro rfl
      exact hop (List.mem_cons_of_mem _ List.mem_cons_self)
    rw [exec]
    split
    · split
      · rfl
      · refine congrArg (Option.map _) ?_
        exact (Function.update_of_ne hb ..).trans (Function.update_of_ne ha ..)
    · rfl
  | remove m =>
    have hne : n ≠ m := fun hne => hop (List.mem_singleton.mpr hne)
    exact congrArg (Option.map _) (Function.update_of_ne hne ..)

theorem read_execAll (h : d.AllTidy) {ops : List (Op ν)} (hops : ∀ op ∈ ops, n ∉ op.names) :
    (d.execAll ops).read n = d.read n := by
  induction ops generalizing d with
  | nil => rfl
  | cons op ops ih =>
    exact (ih (h.exec op) fun op hop => hops op (List.mem_cons_of_mem _ hop)).trans
      (read_exec h (hops op List.mem_cons_self))

/-- A file that is moved here is what a reader finds. -/
theorem read_move {a : ν} {j : Nat} (ha : a ≠ n) (hj : d.dir a = some j) :
    (d.exec (.move a n)).read n = some (d.data j) := by
  have hmoved : d.exec (.move a n) =
      d.enter (Function.update (Function.update d.dir a none) n (some j)) := by
    rw [exec, hj]
    exact if_neg ha
  have hname : Function.update (Function.update d.dir a none) n (some j) n = some j :=
    Function.update_self ..
  rw [hmoved]
  exact congrArg (Option.map d.data) hname

/-! ## 4. A file that is written anew

Pieces are appended to a new file, which is then synced. What it holds is the pieces in a row, and
from then on it is safe to give it the name. -/

theorem execAll_appends {a : ν} {i : Nat} (hi : d.dir a = some i) (chunks : List Text) :
    (d.execAll (chunks.map (.append a))).dir a = some i ∧
      (d.execAll (chunks.map (.append a))).data i = d.data i ++ chunks.flatten := by
  induction chunks generalizing d with
  | nil => exact ⟨hi, (List.append_nil _).symm⟩
  | cons t chunks ih =>
    have hstep : d.exec (.append a t) = d.write i (d.data i ++ t) false := by rw [exec, hi]
    have hdata : (d.exec (.append a t)).data i = d.data i ++ t := by
      rw [hstep]
      exact Function.update_self ..
    obtain ⟨hdir, hall⟩ := ih (d := d.exec (.append a t)) (by rw [hstep]; exact hi)
    refine ⟨hdir, hall.trans ?_⟩
    rw [hdata, List.flatten_cons, List.append_assoc]

/-- **It is whole, and safe.** -/
theorem execAll_writing (a : ν) (chunks : List Text) :
    ∃ i, (d.execAll (writing a chunks)).dir a = some i ∧
      (d.execAll (writing a chunks)).safe i = true ∧
      (d.execAll (writing a chunks)).data i = chunks.flatten := by
  obtain ⟨i, hi, hempty⟩ : ∃ i, (d.exec (.create a)).dir a = some i ∧
      (d.exec (.create a)).data i = [] := by
    rw [exec]
    split
    · next i hi => exact ⟨i, hi, Function.update_self ..⟩
    · exact ⟨d.next, Function.update_self .., Function.update_self ..⟩
  obtain ⟨hdir, hdata⟩ := execAll_appends hi chunks
  generalize hbefore : (d.exec (.create a)).execAll (chunks.map (.append a)) = e at hdir hdata
  have hall : d.execAll (writing a chunks) = e.exec (.sync a) := by
    rw [writing, execAll, List.foldl_cons, List.foldl_append, ← hbefore]
    rfl
  rw [hall, exec, hdir]
  refine ⟨i, hdir, Function.update_self .., (Function.update_self ..).trans (hdata.trans ?_)⟩
  rw [hempty, List.nil_append]

end Read

end Disk

end DiskFiles
