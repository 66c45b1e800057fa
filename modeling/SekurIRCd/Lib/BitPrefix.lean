/-
# The first bits of a string of bytes

A string of bytes read as bits, most significant bit first.  `cut` clears all bits behind the
first `n`, a byte at a time, so two strings have the same first `n` bits exactly when they are cut
to the same string (`cut_eq_cut_iff`).
-/
import Mathlib.Data.List.Basic
import Mathlib.Tactic.IntervalCases

namespace BitPrefix

abbrev Octet := UInt8

/-- Bit `i`, counted from the front. -/
def bitAt (a : List Octet) (i : Nat) : Bool := (a.getD (i / 8) 0).toBitVec.getMsbD (i % 8)

/-- The first `n` bits are the same. This is what a network prefix means; strings that are too
short are read on with zeros. -/
def Agree (n : Nat) (a b : List Octet) : Prop := ∀ i < n, bitAt a i = bitAt b i

/-- The mask that keeps `k` bits of a byte. -/
def keepMask (k : Int) : Octet :=
  if 8 ≤ k then 0xff else if k ≤ 0 then 0 else (0xff <<< (8 - k.toNat)).toUInt8

/-- All bits behind the first `n` cleared, a byte at a time: a byte in front keeps all of its bits,
a byte behind none. -/
def cut (n : Int) (a : List Octet) : List Octet := a.mapIdx fun i b => b &&& keepMask (n - i * 8)

/-! ## 1. Bytes -/

/-- What holds of all numbers below 256 holds of all bytes. -/
theorem forall_octet {p : Octet → Prop} (h : ∀ n : Fin 256, p (UInt8.ofFin n)) (b : Octet) : p b :=
  h b.toFin

theorem octet_eq_iff {x y : Octet} : x = y ↔ ∀ j < 8, x.toBitVec.getMsbD j = y.toBitVec.getMsbD j := by
  refine ⟨fun h j _ => by rw [h], fun h => ?_⟩
  exact UInt8.toBitVec_inj.mp (BitVec.eq_of_getMsbD_eq fun j hj => h j hj)

theorem getMsbD_keepMask (k : Int) {j : Nat} (hj : j < 8) :
    (keepMask k).toBitVec.getMsbD j = decide ((j : Int) < k) := by
  unfold keepMask
  split
  · rw [decide_eq_true (by omega)]
    interval_cases j <;> rfl
  · split
    · rw [decide_eq_false (by omega)]
      exact BitVec.getMsbD_zero
    · obtain ⟨m, rfl⟩ : ∃ m : Nat, k = m := ⟨k.toNat, by omega⟩
      rw [Int.toNat_natCast]
      have hm : m < 8 := by omega
      have hpos : 0 < m := by omega
      interval_cases m <;> interval_cases j <;> decide

theorem and_keepMask_eq_iff {x y : Octet} {k : Int} :
    x &&& keepMask k = y &&& keepMask k ↔ ∀ j : Nat, j < 8 → (j : Int) < k →
      x.toBitVec.getMsbD j = y.toBitVec.getMsbD j := by
  rw [octet_eq_iff]
  constructor
  · intro h j hj hk
    have := h j hj
    rwa [UInt8.toBitVec_and, UInt8.toBitVec_and, BitVec.getMsbD_and, BitVec.getMsbD_and,
      getMsbD_keepMask k hj, decide_eq_true hk,
      Bool.and_true, Bool.and_true] at this
  · intro h j hj
    rw [UInt8.toBitVec_and, UInt8.toBitVec_and, BitVec.getMsbD_and, BitVec.getMsbD_and,
      getMsbD_keepMask k hj]
    by_cases hk : (j : Int) < k
    · rw [h j hj hk]
    · rw [decide_eq_false hk, Bool.and_false, Bool.and_false]

/-! ## 2. Strings

From bytes to strings: bit `i` of a string is a bit of byte `i / 8`, and `cut` masks each byte by
what is left of `n` there. Two strings are compared as a comparison of masked bytes in C does it,
and the result is said of their bits. -/

theorem bitAt_eq {a : List Octet} {i j : Nat} (hj : j < 8) :
    bitAt a (i * 8 + j) = (a.getD i 0).toBitVec.getMsbD j := by
  have hdiv : (i * 8 + j) / 8 = i := by omega
  have hmod : (i * 8 + j) % 8 = j := by omega
  rw [bitAt, hdiv, hmod]

@[simp] theorem length_cut (n : Int) (a : List Octet) : (cut n a).length = a.length :=
  List.length_mapIdx

theorem getD_cut (n : Int) (a : List Octet) (i : Nat) :
    (cut n a).getD i 0 = a.getD i 0 &&& keepMask (n - i * 8) := by
  simp only [List.getD_eq_getElem?_getD, cut, List.getElem?_mapIdx]
  cases a[i]? with
  | none => exact (UInt8.zero_and).symm
  | some x => rfl

/-- What `cut` leaves. -/
theorem bitAt_cut (n : Int) (a : List Octet) (i : Nat) :
    bitAt (cut n a) i = (bitAt a i && decide ((i : Int) < n)) := by
  have hj : i % 8 < 8 := Nat.mod_lt _ (by decide)
  rw [bitAt, getD_cut, UInt8.toBitVec_and, BitVec.getMsbD_and, getMsbD_keepMask _ hj, bitAt]
  congr 1
  rw [decide_eq_decide]
  omega

/-- Bytes of two strings are the same where their bits are. -/
theorem getD_eq_iff {a b : List Octet} (i : Nat) :
    a.getD i 0 = b.getD i 0 ↔ ∀ j < 8, bitAt a (i * 8 + j) = bitAt b (i * 8 + j) := by
  rw [octet_eq_iff]
  exact forall₂_congr fun j hj => by rw [bitAt_eq hj, bitAt_eq hj]

theorem eq_of_getD {a b : List Octet} (hlen : a.length = b.length)
    (h : ∀ i < a.length, a.getD i 0 = b.getD i 0) : a = b := by
  refine List.ext_getElem hlen fun i hi hi' => ?_
  have := h i hi
  simpa [List.getD_eq_getElem?_getD, hi, hi'] using this

/-- Strings of one length are cut to the same string when their first bits are the same, so that
comparing cut strings is comparing prefixes. -/
theorem cut_eq_cut_iff {a b : List Octet} (hlen : a.length = b.length) (n : Nat) :
    cut n a = cut n b ↔ Agree n a b := by
  constructor
  · intro h i hi
    have hbit := congrArg (bitAt · i) h
    simpa only [bitAt_cut, decide_eq_true (Int.ofNat_lt.mpr hi), Bool.and_true] using hbit
  · intro h
    refine eq_of_getD (by simpa using hlen) fun i _ => ?_
    rw [getD_eq_iff]
    intro j hj
    rw [bitAt_cut, bitAt_cut]
    by_cases hn : ((i * 8 + j : Nat) : Int) < n
    · rw [h _ (by omega)]
    · rw [decide_eq_false hn, Bool.and_false, Bool.and_false]

theorem Agree.symm {n : Nat} {a b : List Octet} (h : Agree n a b) : Agree n b a :=
  fun i hi => (h i hi).symm

theorem agree_cut_left {n : Nat} {a b : List Octet} : Agree n (cut n a) b ↔ Agree n a b := by
  refine forall₂_congr fun i hi => ?_
  rw [bitAt_cut, decide_eq_true (Int.ofNat_lt.mpr hi), Bool.and_true]

theorem take_eq_take_iff {a b : List Octet} {k : Nat} (ha : k ≤ a.length) (hb : k ≤ b.length) :
    a.take k = b.take k ↔ Agree (k * 8) a b := by
  have hget : ∀ i < k, ∀ l : List Octet, (l.take k).getD i 0 = l.getD i 0 := by
    intro i hi l
    simp only [List.getD_eq_getElem?_getD, List.getElem?_take, if_pos hi]
  constructor
  · intro h i hi
    have hik : i / 8 < k := by omega
    have hbyte : a.getD (i / 8) 0 = b.getD (i / 8) 0 := by
      rw [← hget _ hik a, ← hget _ hik b, h]
    rw [bitAt, bitAt, hbyte]
  · intro h
    refine eq_of_getD (by simp only [List.length_take]; omega) fun i hi => ?_
    have hik : i < k := by rw [List.length_take] at hi; omega
    rw [hget i hik, hget i hik, getD_eq_iff]
    exact fun j hj => h _ (by omega)

end BitPrefix
