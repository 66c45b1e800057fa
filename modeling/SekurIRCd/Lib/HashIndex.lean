/-
# Hash indexes over records

A hash index holds pointers to records under a key.  Nothing keeps it from holding two pointers
under one key: an addition goes to the front of its chain, so that the newest is found, until the
table grows, which turns every chain around.  A pointer is taken out by itself, not by its key.

`Indexes ix keyOf` says that the index is exact: it holds just the records that have a key, once
each and under that key, and of two with one key the newer stands first.  Additions keep this
as long as the table does not grow while two records share a key.
-/
import Mathlib.Logic.Function.Basic
import Mathlib.Data.List.Basic

namespace HashIndex

variable {K P : Type*} [DecidableEq K] [DecidableEq P]

/-- A pointer under a key, and how many additions there were before it. -/
structure Entry (K P : Type*) where
  key : K
  ptr : P
  age : Nat
deriving DecidableEq, Repr

/-- The chains, and the number of additions so far. -/
structure Index (K P : Type*) where
  entries : List (Entry K P)
  adds : Nat
deriving DecidableEq, Repr

namespace Index

def empty : Index K P := ⟨[], 0⟩

/-- The entry a key finds. -/
def find (ix : Index K P) (k : K) : Option (Entry K P) := ix.entries.find? fun e => e.key = k

/-- The pointer a key finds. -/
def lookup (ix : Index K P) (k : K) : Option P := (ix.find k).map Entry.ptr

/-- A record goes in; when the table grows by it, no two may share a key, since growing turns the
chains around and the older of two would come first. -/
def add (ix : Index K P) (k : K) (p : P) (grows : Bool) : Index K P :=
  let entries := ⟨k, p, ix.adds⟩ :: ix.entries
  ⟨if grows then entries.reverse else entries, ix.adds + 1⟩

/-- A pointer goes out. -/
def delete (ix : Index K P) (p : P) : Index K P :=
  { ix with entries := ix.entries.filter fun e => e.ptr ≠ p }

end Index

/-- The index holds the records that have a key: each once, under that key, and of two under one
key the newer first. -/
structure Indexes (ix : Index K P) (keyOf : P → Option K) : Prop where
  sound : ∀ e ∈ ix.entries, keyOf e.ptr = some e.key
  complete : ∀ p k, keyOf p = some k → ∃ e ∈ ix.entries, e.ptr = p
  once : ix.entries.Pairwise fun a b => a.ptr ≠ b.ptr
  newest : ix.entries.Pairwise fun a b => a.key = b.key → b.age < a.age
  aged : ∀ e ∈ ix.entries, e.age < ix.adds

/-- No two records share a key. The index finds the first of a chain, so only then is the one found
the only one there is. -/
def Alone (keyOf : P → Option K) : Prop :=
  ∀ p q k, keyOf p = some k → keyOf q = some k → p = q

omit [DecidableEq K] [DecidableEq P] in
theorem indexes_empty : Indexes (Index.empty : Index K P) fun _ => none where
  sound := fun _ he => absurd he List.not_mem_nil
  complete := fun _ _ h => absurd h (by simp)
  once := List.Pairwise.nil
  newest := List.Pairwise.nil
  aged := fun _ he => absurd he List.not_mem_nil

namespace Indexes

variable {ix : Index K P} {keyOf : P → Option K} (h : Indexes ix keyOf)

include h

omit [DecidableEq P] in
/-- What a key finds is of the records with that key. -/
theorem lookup_some {k : K} {p : P} (hp : ix.lookup k = some p) : keyOf p = some k := by
  obtain ⟨e, he, rfl⟩ := Option.map_eq_some_iff.mp hp
  have hkey : e.key = k := by simpa using List.find?_some he
  rw [h.sound e (List.mem_of_find?_eq_some he), hkey]

omit [DecidableEq P] in
/-- **A record is found under its key, or a newer one is.** So what is looked up is never a record
that the key does not belong to, and a record is only hidden by one that shares its key. -/
theorem find_self {p : P} {k : K} (hp : keyOf p = some k) : ∃ own ∈ ix.entries, own.ptr = p ∧
    own.key = k ∧ ∃ found, ix.find k = some found ∧ (found = own ∨ own.age < found.age) := by
  obtain ⟨own, hown, rfl⟩ := h.complete p k hp
  have hkey : own.key = k := Option.some.inj ((h.sound own hown).symm.trans hp)
  have hsome : (ix.find k).isSome = true := by
    rw [Index.find, List.find?_isSome]
    exact ⟨own, hown, by simp [hkey]⟩
  obtain ⟨found, hfound⟩ := Option.isSome_iff_exists.mp hsome
  refine ⟨own, hown, rfl, hkey, found, hfound, ?_⟩
  -- `found` stands first of those with the key
  obtain ⟨hfk, front, back, hsplit, hfront⟩ := List.find?_eq_some_iff_append.mp hfound
  have hfk' : found.key = k := by simpa using hfk
  rw [hsplit] at hown
  rcases List.mem_append.mp hown with hin | hin
  · have hnot := hfront own hin
    simp [hkey] at hnot
  · rcases List.mem_cons.mp hin with e | hin
    · exact Or.inl e.symm
    · have hnewest := h.newest
      rw [hsplit, List.pairwise_append] at hnewest
      exact Or.inr (List.rel_of_pairwise_cons hnewest.2.1 hin (hfk'.trans hkey.symm))

omit [DecidableEq P] in
/-- A record that shares its key with no other is found under it. -/
theorem lookup_alone {p : P} {k : K} (hp : keyOf p = some k)
    (halone : ∀ q, keyOf q = some k → q = p) : ix.lookup k = some p := by
  obtain ⟨own, hown, hptr, -, found, hfound, -⟩ := h.find_self hp
  have hl : ix.lookup k = some found.ptr := by rw [Index.lookup, hfound]; rfl
  rw [hl, halone found.ptr (h.lookup_some hl)]

omit [DecidableEq K] in
theorem delete (p : P) : Indexes (ix.delete p) (Function.update keyOf p none) := by
  have hsub : ∀ e ∈ (ix.delete p).entries, e ∈ ix.entries ∧ e.ptr ≠ p := by
    intro e he
    simpa [Index.delete] using he
  refine ⟨?_, ?_, h.once.filter _, h.newest.filter _, fun e he => h.aged e (hsub e he).1⟩
  · intro e he
    obtain ⟨hmem, hne⟩ := hsub e he
    rw [Function.update_of_ne hne, h.sound e hmem]
  · intro q k hq
    by_cases hqp : q = p
    · rw [hqp, Function.update_self] at hq
      exact absurd hq (by simp)
    · rw [Function.update_of_ne hqp] at hq
      obtain ⟨e, he, rfl⟩ := h.complete q k hq
      exact ⟨e, by simpa [Index.delete] using ⟨he, hqp⟩, rfl⟩

omit [DecidableEq K] in
/-- A record goes in; when the table grows by it, no two may share a key. -/
theorem add (k : K) {grows : Bool} {p : P} (hp : keyOf p = none)
    (halone : grows = true → Alone (Function.update keyOf p (some k))) :
    Indexes (ix.add k p grows) (Function.update keyOf p (some k)) := by
  have hnot : ∀ e ∈ ix.entries, e.ptr ≠ p := by
    intro e he hptr
    rw [← hptr, h.sound e he] at hp
    exact absurd hp (by simp)
  have hmem : ∀ e, e ∈ (ix.add k p grows).entries ↔ e = ⟨k, p, ix.adds⟩ ∨ e ∈ ix.entries := by
    intro e
    cases grows <;> simp [Index.add, or_comm]
  have hsound : ∀ e ∈ (ix.add k p grows).entries,
      Function.update keyOf p (some k) e.ptr = some e.key := by
    intro e he
    rcases (hmem e).mp he with rfl | he
    · exact Function.update_self ..
    · rw [Function.update_of_ne (hnot e he), h.sound e he]
  have honce : (⟨k, p, ix.adds⟩ :: ix.entries : List (Entry K P)).Pairwise
      fun a b => a.ptr ≠ b.ptr :=
    List.pairwise_cons.mpr ⟨fun e he => (hnot e he).symm, h.once⟩
  have hnewest : (⟨k, p, ix.adds⟩ :: ix.entries : List (Entry K P)).Pairwise
      fun a b => a.key = b.key → b.age < a.age :=
    List.pairwise_cons.mpr ⟨fun e he _ => h.aged e he, h.newest⟩
  refine ⟨hsound, ?_, ?_, ?_, ?_⟩
  · intro q j hq
    by_cases hqp : q = p
    · exact ⟨⟨k, p, ix.adds⟩, (hmem _).mpr (Or.inl rfl), hqp.symm⟩
    · rw [Function.update_of_ne hqp] at hq
      obtain ⟨e, he, rfl⟩ := h.complete q j hq
      exact ⟨e, (hmem e).mpr (Or.inr he), rfl⟩
  · cases grows with
    | false => exact honce
    | true => exact List.pairwise_reverse.mpr (honce.imp Ne.symm)
  · cases hg : grows with
    | false => exact hnewest
    | true =>
      -- no two share a key, so the order does not matter
      have hdiffer : (⟨k, p, ix.adds⟩ :: ix.entries : List (Entry K P)).Pairwise
          fun a b => a.key ≠ b.key := by
        refine honce.imp_of_mem fun {a b} ha hb hab hkey => hab ?_
        have hmem' : ∀ e ∈ (⟨k, p, ix.adds⟩ :: ix.entries : List (Entry K P)),
            e ∈ (ix.add k p grows).entries := fun e he => (hmem e).mpr (List.mem_cons.mp he)
        have hb' := hsound b (hmem' b hb)
        rw [← hkey] at hb'
        exact halone hg a.ptr b.ptr a.key (hsound a (hmem' a ha)) hb'
      exact List.pairwise_reverse.mpr (hdiffer.imp fun hab hkey => absurd hkey.symm hab)
  · intro e he
    rcases (hmem e).mp he with rfl | he
    · exact Nat.lt_succ_self _
    · exact Nat.lt_succ_of_lt (h.aged e he)

end Indexes

end HashIndex
