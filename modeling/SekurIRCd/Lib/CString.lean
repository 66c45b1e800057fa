/-
# C strings and the number scanners of the C library

The programs this development is about keep their text in NUL-terminated byte arrays and read
their numbers with `strtol`, `atoi` and `sscanf`.  A string is modelled by the list of its
bytes before the NUL, written as characters; the classification functions are those of the C
locale, so only the ASCII letters have two cases.

Everything here is the C library's own behaviour and names no program: `clip` is what
`snprintf(buf, n, "%s", s)` leaves in an `n`-byte buffer, `strtol` returns its value with the
text behind the number (and nothing when there was no number, where C returns the start
pointer), and `decimal` and `intDecimal` are `%lu` and `%ld`.  The lemmas that matter are the
two round trips, `strtol_decimal` and `strtol_intDecimal`.
-/
import Mathlib.Data.List.Basic
import Mathlib.Data.List.TakeWhile
import Mathlib.Data.Nat.Digits.Defs

namespace CLib

/-- A C string: its bytes before the NUL. -/
abbrev Text := List Char

/-- What is said of the characters of a text is decided by going through the text, not through
all characters there are. -/
instance decidableForall (s : Text) (p : Char → Prop) [DecidablePred p] : Decidable (∀ c ∈ s, p c) :=
  List.decidableBAll p s

instance decidableExists (s : Text) (p : Char → Prop) [DecidablePred p] : Decidable (∃ c ∈ s, p c) :=
  List.decidableBEx p s

/-! ## 1. Buffers and case

Bytes that were read need not be a string: what C makes of them ends at the first NUL, wherever the
program that sent them had its end. -/

/-- The string that starts where these bytes do. -/
def cString (s : Text) : Text := s.takeWhile (· ≠ '\x00')

theorem cString_eq_self {s : Text} : cString s = s ↔ '\x00' ∉ s := by
  rw [cString, List.takeWhile_eq_self_iff]
  refine ⟨fun h hmem => ?_, fun h c hc => ?_⟩
  · exact of_decide_eq_true (h _ hmem) rfl
  · rw [decide_eq_true_eq]
    rintro rfl
    exact h hc

theorem cString_isPrefix (s : Text) : cString s <+: s := List.takeWhile_prefix _

theorem cString_append_of_notMem {s : Text} (h : '\x00' ∉ s) (t : Text) :
    cString (s ++ t) = s ++ cString t :=
  List.takeWhile_append_of_pos fun _ hc => decide_eq_true fun e => h (e ▸ hc)

theorem cString_append_of_mem {s : Text} (h : '\x00' ∈ s) (t : Text) :
    cString (s ++ t) = cString s := by
  induction s with
  | nil => exact absurd h List.not_mem_nil
  | cons c s ih =>
    by_cases hc : c = '\x00'
    · rw [List.cons_append, cString, cString, List.takeWhile_cons_of_neg (by simp [hc]),
        List.takeWhile_cons_of_neg (by simp [hc])]
    · have hs : '\x00' ∈ s := (List.mem_cons.mp h).resolve_left (Ne.symm hc)
      have ih := ih hs
      rw [cString, cString] at ih
      rw [List.cons_append, cString, cString, List.takeWhile_cons_of_pos (by simp [hc]),
        List.takeWhile_cons_of_pos (by simp [hc]), ih]

/-- `snprintf(buf, n, "%s", s)`: at most `n - 1` bytes, then the NUL. Nearly every copy of a string
in the programs is one of these, so where a text is cut is said by the buffer it goes through. -/
def clip (n : Nat) (s : Text) : Text := s.take (n - 1)

theorem clip_length_le (n : Nat) (s : Text) : (clip n s).length ≤ n - 1 :=
  List.length_take_le _ _

theorem clip_of_fits {n : Nat} {s : Text} (h : s.length < n) : clip n s = s :=
  List.take_of_length_le (by omega)

theorem clip_clip (n : Nat) (s : Text) : clip n (clip n s) = clip n s := by
  simp [clip, List.take_take]

/-- Storing a string that an at least as large buffer has already cut. -/
theorem clip_clip_of_le {m n : Nat} (h : m ≤ n) (s : Text) : clip m (clip n s) = clip m s := by
  simp only [clip, List.take_take]
  congr 1
  omega

theorem mem_of_mem_clip {n : Nat} {s : Text} {c : Char} (h : c ∈ clip n s) : c ∈ s :=
  List.mem_of_mem_take h

/-- `tolower` over a whole string. -/
def lower (s : Text) : Text := s.map Char.toLower

@[simp] theorem lower_nil : lower [] = [] := rfl

@[simp] theorem lower_length (s : Text) : (lower s).length = s.length := by simp [lower]

/-- `strcasecmp(a, b) == 0`. -/
def caseEq (a b : Text) : Bool := lower a == lower b

theorem caseEq_iff {a b : Text} : caseEq a b = true ↔ lower a = lower b := by
  simp [caseEq]

@[simp] theorem caseEq_refl (a : Text) : caseEq a a = true := caseEq_iff.mpr rfl

theorem caseEq_comm (a b : Text) : caseEq a b = caseEq b a := by
  rw [Bool.eq_iff_iff, caseEq_iff, caseEq_iff]
  exact eq_comm

theorem caseEq_length {a b : Text} (h : caseEq a b = true) : a.length = b.length := by
  simpa using congrArg List.length (caseEq_iff.mp h)

theorem caseEq_congr {a b : Text} (h : caseEq a b = true) (s : Text) : caseEq s a = caseEq s b := by
  rw [caseEq, caseEq, caseEq_iff.mp h]

/-- What is no letter is in lower case itself, and comes from itself only. -/
theorem toLower_eq {c d : Char} (hd : d.isAlpha = false) : c.toLower = d ↔ c = d := by
  obtain ⟨hupper, hlower⟩ := Bool.or_eq_false_iff.mp hd
  have hupper : ¬('A'.val ≤ d.val ∧ d.val ≤ 'Z'.val) := of_decide_eq_false hupper
  have hlower : ¬('a'.val ≤ d.val ∧ d.val ≤ 'z'.val) := by
    rintro ⟨h1, h2⟩
    have htrue : d.isLower = true :=
      Bool.and_eq_true_iff.mpr ⟨decide_eq_true h1, decide_eq_true h2⟩
    rw [hlower] at htrue
    cases htrue
  simp only [UInt32.le_iff_toNat_le] at hupper hlower
  unfold Char.toLower
  split
  · next h =>
    simp only [ge_iff_le, UInt32.le_iff_toNat_le] at h
    constructor
    · rintro rfl
      simp [UInt32.toNat_add] at hlower h
      omega
    · rintro rfl
      simp at hupper h
      omega
  · rfl

theorem toLower_toLower (c : Char) : c.toLower.toLower = c.toLower := by
  have hsame : ∀ d : Char, ¬ ('A'.val ≤ d.val ∧ d.val ≤ 'Z'.val) → d.toLower = d := by
    intro d hd
    unfold Char.toLower
    exact dif_neg hd
  refine hsame _ fun h => ?_
  unfold Char.toLower at h
  split at h
  · next hupper =>
    simp only [ge_iff_le, UInt32.le_iff_toNat_le, UInt32.toNat_add] at h hupper
    simp at h hupper
    omega
  · next hupper => exact hupper h

theorem mem_lower {d : Char} (hd : d.isAlpha = false) {s : Text} : d ∈ lower s ↔ d ∈ s := by
  simp only [lower, List.mem_map, toLower_eq hd, exists_eq_right]

theorem lower_append (a b : Text) : lower (a ++ b) = lower a ++ lower b := List.map_append

/-- `strncasecmp(s, pre, strlen(pre)) == 0`. -/
def casePrefix (pre s : Text) : Bool := caseEq pre (s.take pre.length)

/-- `isspace` in the C locale. -/
def isSpace (c : Char) : Bool :=
  c == ' ' || c == '\t' || c == '\n' || c == '\r' || c == '\x0b' || c == '\x0c'

theorem isSpace_of_isDigit {c : Char} (h : c.isDigit = true) : isSpace c = false := by
  simp only [Char.isDigit, Bool.and_eq_true, decide_eq_true_eq] at h
  by_contra hs
  simp only [isSpace, Bool.not_eq_false, Bool.or_eq_true, beq_iff_eq] at hs
  rcases hs with ((((rfl | rfl) | rfl) | rfl) | rfl) | rfl <;> revert h <;> decide

/-! ## 2. Searching and splitting

The searches return what is in front of and behind what they find, where C returns a pointer, so
that a caller's arithmetic on pointers is a choice of one of the two. -/

/-- `strstr(s, pat)`: the text before the first occurrence of `pat`, and the text behind it. -/
def strstr (pat : Text) : Text → Option (Text × Text)
  | [] => if pat = [] then some ([], []) else none
  | c :: cs =>
    if pat.isPrefixOf (c :: cs) then some ([], (c :: cs).drop pat.length)
    else (strstr pat cs).map fun r => (c :: r.1, r.2)

/-- `strchr(s, sep)`: the text before the first `sep`, and the text behind it. -/
def strchr (sep : Char) : Text → Option (Text × Text)
  | [] => none
  | c :: cs =>
    if c = sep then some ([], cs)
    else (strchr sep cs).map fun r => (c :: r.1, r.2)

/-- The text between two separators, with the empty pieces kept, as `strcspn` and pointer steps
take it apart. -/
def splitSep (sep : Char) : Text → List Text
  | [] => [[]]
  | c :: cs =>
    if c = sep then [] :: splitSep sep cs
    else match splitSep sep cs with
      | [] => [[c]]
      | p :: ps => (c :: p) :: ps

/-- `strtok_r(s, sep, ..)` run to its end: runs of separators count once. -/
def strtok (sep : Char) (s : Text) : List Text := (splitSep sep s).filter (· ≠ [])

theorem strchr_eq_none {sep : Char} {s : Text} : strchr sep s = none ↔ sep ∉ s := by
  induction s with
  | nil => simp [strchr]
  | cons c cs ih =>
    simp only [strchr, List.mem_cons, not_or]
    split
    · rename_i h
      simp [h]
    · rename_i h
      simp only [Option.map_eq_none_iff, ih]
      exact ⟨fun hc => ⟨fun e => h e.symm, hc⟩, And.right⟩

/-- The first separator of `a ++ sep :: b` is the one written, when `a` has none. -/
theorem strchr_append {sep : Char} {a : Text} (h : sep ∉ a) (b : Text) :
    strchr sep (a ++ sep :: b) = some (a, b) := by
  induction a with
  | nil => simp [strchr]
  | cons c cs ih =>
    simp only [List.mem_cons, not_or] at h
    rw [List.cons_append, strchr, if_neg (Ne.symm h.1), ih h.2]
    rfl

/-- What `strchr` finds: the first separator. -/
theorem strchr_some {sep : Char} {s a b : Text} (h : strchr sep s = some (a, b)) :
    s = a ++ sep :: b ∧ sep ∉ a := by
  induction s generalizing a with
  | nil => exact absurd h (by simp [strchr])
  | cons c cs ih =>
    rw [strchr] at h
    split at h
    · next hc =>
      obtain ⟨rfl, rfl⟩ := Prod.mk.inj (Option.some.inj h)
      simp [hc]
    · next hc =>
      obtain ⟨⟨a', b'⟩, ha, he⟩ := Option.map_eq_some_iff.mp h
      obtain ⟨rfl, rfl⟩ := Prod.mk.inj he
      obtain ⟨rfl, hno⟩ := ih ha
      exact ⟨rfl, by simp [Ne.symm hc, hno]⟩

theorem splitSep_ne_nil (sep : Char) (s : Text) : splitSep sep s ≠ [] := by
  cases s with
  | nil => simp [splitSep]
  | cons c cs =>
    simp only [splitSep]
    split
    · simp
    · split <;> simp

theorem splitSep_of_not_mem {sep : Char} {s : Text} (h : sep ∉ s) : splitSep sep s = [s] := by
  induction s with
  | nil => rfl
  | cons c cs ih =>
    simp only [List.mem_cons, not_or] at h
    rw [splitSep, if_neg (Ne.symm h.1), ih h.2]

theorem flatten_splitSep (sep : Char) (s : Text) :
    (splitSep sep s).flatten = s.filter (· ≠ sep) := by
  induction s with
  | nil => rfl
  | cons c s ih =>
    rw [splitSep]
    split
    · next hc => rw [List.flatten_cons, ih, List.filter_cons_of_neg (by simp [hc]), List.nil_append]
    · next hc =>
      rw [List.filter_cons_of_pos (by simp [hc]), ← ih]
      cases hs : splitSep sep s with
      | nil => exact absurd hs (splitSep_ne_nil sep s)
      | cons p ps => rfl

theorem splitSep_append {sep : Char} {a : Text} (h : sep ∉ a) (b : Text) :
    splitSep sep (a ++ sep :: b) = a :: splitSep sep b := by
  induction a with
  | nil => simp [splitSep]
  | cons c cs ih =>
    simp only [List.mem_cons, not_or] at h
    rw [List.cons_append, splitSep, if_neg (Ne.symm h.1), ih h.2]

/-- A separator splits a text, whatever is in front of it. -/
theorem splitSep_append_sep {sep : Char} (a b : Text) :
    splitSep sep (a ++ sep :: b) = splitSep sep a ++ splitSep sep b := by
  induction a with
  | nil => exact splitSep_append List.not_mem_nil b
  | cons c cs ih =>
    rw [List.cons_append, splitSep, splitSep, ih]
    by_cases hc : c = sep
    · rw [if_pos hc, if_pos hc]
      rfl
    · rw [if_neg hc, if_neg hc]
      cases hcs : splitSep sep cs with
      | nil => exact absurd hcs (splitSep_ne_nil sep cs)
      | cons p ps => rfl

theorem strtok_append_sep {sep : Char} (a b : Text) :
    strtok sep (a ++ sep :: b) = strtok sep a ++ strtok sep b := by
  rw [strtok, splitSep_append_sep, List.filter_append]
  rfl

theorem strtok_of_notMem {sep : Char} {s : Text} (h : sep ∉ s) (hne : s ≠ []) :
    strtok sep s = [s] := by
  rw [strtok, splitSep_of_not_mem h]
  exact List.filter_cons_of_pos (decide_eq_true hne)

/-- Words joined by single separators. -/
def joinSep (sep : Char) : List Text → Text
  | [] => []
  | [w] => w
  | w :: ws => w ++ sep :: joinSep sep ws

@[simp] theorem joinSep_nil (sep : Char) : joinSep sep [] = [] := rfl

@[simp] theorem joinSep_singleton (sep : Char) (w : Text) : joinSep sep [w] = w := rfl

theorem joinSep_cons {sep : Char} (w : Text) {ws : List Text} (h : ws ≠ []) :
    joinSep sep (w :: ws) = w ++ sep :: joinSep sep ws := by
  cases ws with
  | nil => exact absurd rfl h
  | cons v vs => rfl

/-- **Splitting undoes joining**, for words that do not hold the separator. This is the round trip
behind every list that is sent in one parameter. -/
theorem splitSep_joinSep {sep : Char} : ∀ {ws : List Text}, ws ≠ [] → (∀ w ∈ ws, sep ∉ w) →
    splitSep sep (joinSep sep ws) = ws
  | [], h, _ => absurd rfl h
  | [w], _, hw => splitSep_of_not_mem (hw w (by simp))
  | w :: v :: vs, _, hw => by
    rw [joinSep_cons w (by simp), splitSep_append (hw w (by simp))]
    rw [splitSep_joinSep (by simp) (fun x hx => hw x (List.mem_cons_of_mem _ hx))]

theorem notMem_of_mem_splitSep {sep : Char} : ∀ {s w : Text}, w ∈ splitSep sep s → sep ∉ w
  | [], w, h => by simp [List.mem_singleton.mp h]
  | c :: cs, w, h => by
    rw [splitSep] at h
    split at h
    · rcases List.mem_cons.mp h with rfl | h
      · simp
      · exact notMem_of_mem_splitSep h
    · rename_i hc
      split at h
      · simpa [List.mem_singleton.mp h] using Ne.symm hc
      · rename_i p ps hsplit
        rcases List.mem_cons.mp h with rfl | h
        · have hp : sep ∉ p := notMem_of_mem_splitSep (hsplit ▸ List.mem_cons_self)
          simpa [hp] using Ne.symm hc
        · exact notMem_of_mem_splitSep (hsplit ▸ List.mem_cons_of_mem _ h)

/-- The words of a text are not empty and have no separator. -/
theorem mem_strtok {sep : Char} {s w : Text} (h : w ∈ strtok sep s) : w ≠ [] ∧ sep ∉ w := by
  obtain ⟨hw, hne⟩ := List.mem_filter.mp h
  exact ⟨by simpa using hne, notMem_of_mem_splitSep hw⟩

/-- The words of a text, with a separator each, are no longer than the text and one more. -/
theorem strtok_length (sep : Char) (s : Text) :
    ((strtok sep s).map fun w => w.length + 1).sum ≤ s.length + 1 := by
  have hsplit : ∀ s : Text, ((splitSep sep s).map fun w => w.length + 1).sum = s.length + 1 := by
    intro s
    induction s with
    | nil => rfl
    | cons c cs ih =>
      rw [splitSep]
      split
      · rw [List.map_cons, List.sum_cons, ih, List.length_cons, List.length_nil]
        omega
      · split
        · rename_i hnil
          exact absurd hnil (splitSep_ne_nil sep cs)
        · rename_i p ps hps
          rw [hps, List.map_cons, List.sum_cons] at ih
          rw [List.map_cons, List.sum_cons, List.length_cons, List.length_cons]
          omega
  have hfilter : ∀ ws : List Text, ((ws.filter (· ≠ [])).map fun w => w.length + 1).sum ≤
      (ws.map fun w => w.length + 1).sum := by
    intro ws
    induction ws with
    | nil => exact le_refl _
    | cons w ws ih =>
      rw [List.filter_cons]
      split
      · rw [List.map_cons, List.map_cons, List.sum_cons, List.sum_cons]
        omega
      · rw [List.map_cons, List.sum_cons]
        omega
  rw [← hsplit s]
  exact hfilter (splitSep sep s)

/-- `strtok` finds the joined words again, when none is empty. -/
theorem strtok_joinSep {sep : Char} {ws : List Text} (hne : ∀ w ∈ ws, w ≠ [])
    (hw : ∀ w ∈ ws, sep ∉ w) : strtok sep (joinSep sep ws) = ws := by
  cases ws with
  | nil => simp [strtok, splitSep]
  | cons w ws =>
    rw [strtok, splitSep_joinSep (by simp) hw, List.filter_eq_self]
    intro x hx
    simpa using hne x hx

theorem joinSep_concat {sep : Char} : ∀ {ws : List Text}, ws ≠ [] → ∀ w : Text,
    joinSep sep (ws ++ [w]) = joinSep sep ws ++ sep :: w
  | [], h, _ => absurd rfl h
  | [_], _, _ => rfl
  | v :: u :: us, _, w => by
    have ih : joinSep sep ((u :: us) ++ [w]) = joinSep sep (u :: us) ++ sep :: w :=
      joinSep_concat (by simp) w
    rw [List.cons_append, joinSep_cons v (by simp), joinSep_cons v (by simp), ih]
    simp

theorem joinSep_eq_flatMap (sep : Char) (w : Text) (ws : List Text) :
    joinSep sep (w :: ws) = w ++ ws.flatMap fun w => sep :: w := by
  induction ws generalizing w with
  | nil => simp
  | cons v vs ih => rw [joinSep_cons w (by simp), ih v, List.flatMap_cons, List.cons_append]

theorem mem_joinSep {sep : Char} {c : Char} : ∀ {ws : List Text},
    c ∈ joinSep sep ws → c = sep ∨ ∃ w ∈ ws, c ∈ w
  | [], h => by simp at h
  | [w], h => Or.inr ⟨w, by simp, h⟩
  | w :: v :: vs, h => by
    rw [joinSep_cons w (by simp)] at h
    rcases List.mem_append.mp h with h | h
    · exact Or.inr ⟨w, by simp, h⟩
    · rcases List.mem_cons.mp h with h | h
      · exact Or.inl h
      · rcases mem_joinSep h with h | ⟨x, hx, hc⟩
        · exact Or.inl h
        · exact Or.inr ⟨x, List.mem_cons_of_mem _ hx, hc⟩

/-- Lines, each with its LF. -/
def withLf (bs : List Text) : Text := bs.flatMap (· ++ ['\n'])

theorem withLf_cons (b : Text) (bs : List Text) : withLf (b :: bs) = b ++ '\n' :: withLf bs := by
  rw [withLf, List.flatMap_cons, List.append_assoc]
  rfl

theorem withLf_append (bs cs : List Text) : withLf (bs ++ cs) = withLf bs ++ withLf cs :=
  List.flatMap_append

theorem splitSep_withLf {bs : List Text} (h : ∀ b ∈ bs, '\n' ∉ b) :
    splitSep '\n' (withLf bs) = bs ++ [[]] := by
  induction bs with
  | nil => rfl
  | cons b bs ih =>
    obtain ⟨hb, hbs⟩ := List.forall_mem_cons.mp h
    rw [withLf_cons, splitSep_append hb, ih hbs, List.cons_append]

/-- Text without the first character of `pat` is skipped over by the search. -/
theorem strstr_skip {p : Char} {ps w : Text} (h : p ∉ w) (r : Text) :
    strstr (p :: ps) (w ++ r) = (strstr (p :: ps) r).map fun x => (w ++ x.1, x.2) := by
  induction w with
  | nil => simp
  | cons c cs ih =>
    simp only [List.mem_cons, not_or] at h
    have hne : (p == c) = false := by simpa using h.1
    simp [strstr, List.isPrefixOf, hne, ih h.2, Function.comp_def]

/-! ## 3. Numbers

`strtol` and what is made of it. A number that is too large saturates, and a text without digits is
told apart from a zero. -/

/-- `LONG_MAX` and `INT_MAX` on the 64-bit platforms the programs run on. -/
def longMax : Int := 2 ^ 63 - 1

def intMax : Int := 2 ^ 31 - 1

/-- `strtol` saturates instead of wrapping. -/
def clampLong (z : Int) : Int := max (-(2 ^ 63)) (min z longMax)

theorem clampLong_of_le {z : Int} (hl : -(2 ^ 63) ≤ z) (hu : z ≤ longMax) : clampLong z = z := by
  rw [clampLong, min_eq_left hu, max_eq_right hl]

/-- `%lu`. -/
def decimal (n : Nat) : Text := Nat.toDigits 10 n

/-- `%ld` and `%d`. -/
def intDecimal (z : Int) : Text :=
  if z < 0 then '-' :: decimal z.natAbs else decimal z.natAbs

theorem decimal_ne_nil (n : Nat) : decimal n ≠ [] := Nat.toDigits_ne_nil

theorem isDigit_of_mem_decimal {n : Nat} {c : Char} (h : c ∈ decimal n) : c.isDigit = true :=
  Nat.isDigit_of_mem_toDigits (by decide) (by decide) h

theorem decimal_length_le {n k : Nat} (hk : 0 < k) (h : n < 10 ^ k) : (decimal n).length ≤ k :=
  (Nat.length_toDigits_le_iff (by decide) hk).mpr h

theorem intDecimal_of_nonneg {z : Int} (h : 0 ≤ z) : intDecimal z = decimal z.toNat := by
  rw [intDecimal, if_neg (by omega)]
  congr 1
  omega

theorem intDecimal_length_le {z : Int} {k : Nat} (hk : 0 < k) (h0 : 0 ≤ z)
    (h : z < 10 ^ k) : (intDecimal z).length ≤ k := by
  rw [intDecimal_of_nonneg h0]
  refine decimal_length_le hk ?_
  zify
  rwa [Int.toNat_of_nonneg h0]

theorem intDecimal_ne_nil (z : Int) : intDecimal z ≠ [] := by
  unfold intDecimal
  split
  · simp
  · exact decimal_ne_nil _

theorem mem_intDecimal {z : Int} {c : Char} (h : c ∈ intDecimal z) :
    c = '-' ∨ c.isDigit = true := by
  unfold intDecimal at h
  split at h
  · rcases List.mem_cons.mp h with h | h
    · exact Or.inl h
    · exact Or.inr (isDigit_of_mem_decimal h)
  · exact Or.inr (isDigit_of_mem_decimal h)

/-- The sign `strtol` takes, and the text behind it. -/
def takeSign : Text → Bool × Text
  | '-' :: s => (true, s)
  | '+' :: s => (false, s)
  | s => (false, s)

/-- `strtol(s, &end, 10)`: the value and the text from `end`; `none` when no digit was read,
where C leaves `end` at `s`. -/
def strtol (s : Text) : Option (Int × Text) :=
  let t := takeSign (s.dropWhile isSpace)
  let ds := t.2.takeWhile Char.isDigit
  if ds = [] then none
  else
    let n : Int := Nat.ofDigitChars 10 ds 0
    some (clampLong (if t.1 then -n else n), t.2.dropWhile Char.isDigit)

/-- `atol`, and the value of `strtol` where its end is not looked at. -/
def atol (s : Text) : Int := (strtol s).elim 0 Prod.fst

/-- `atoi`: the low 32 bits of `strtol`, as a signed number. -/
def atoi (s : Text) : Int := (atol s).bmod (2 ^ 32)

/-- `sscanf(s, "%d:%d", &a, &b) == 2`; what follows the second number is ignored. -/
def scanPair (s : Text) : Option (Int × Int) :=
  match strtol s with
  | some (a, ':' :: r) => (strtol r).map fun b => (a.bmod (2 ^ 32), b.1.bmod (2 ^ 32))
  | _ => none

theorem takeSign_of_digit {d : Char} (h : d.isDigit = true) (s : Text) :
    takeSign (d :: s) = (false, d :: s) := by
  have h1 : d ≠ '-' := by rintro rfl; revert h; decide
  have h2 : d ≠ '+' := by rintro rfl; revert h; decide
  unfold takeSign
  split
  · rename_i heq; exact absurd (List.cons.inj heq).1 h1
  · rename_i heq; exact absurd (List.cons.inj heq).1 h2
  · rfl

/-- The digits of a printed number are read whole and nothing behind them is. -/
theorem takeWhile_decimal_append (n : Nat) {r : Text} (hr : ∀ c ∈ r.head?, c.isDigit = false) :
    (decimal n ++ r).takeWhile Char.isDigit = decimal n ∧
      (decimal n ++ r).dropWhile Char.isDigit = r := by
  have hd : ∀ c ∈ decimal n, c.isDigit = true := fun c hc => isDigit_of_mem_decimal hc
  rw [List.takeWhile_append_of_pos hd, List.dropWhile_append_of_pos hd]
  cases r with
  | nil => simp
  | cons c cs =>
    have hc : c.isDigit = false := hr c (by simp)
    simp [hc]

/-- **`strtol` reads back what `%lu` printed**, and stops right behind it, whatever follows, if
that is no digit. -/
theorem strtol_decimal {n : Nat} (hn : (n : Int) ≤ longMax) {r : Text}
    (hr : ∀ c ∈ r.head?, c.isDigit = false) : strtol (decimal n ++ r) = some ((n : Int), r) := by
  obtain ⟨d, ds, hds⟩ := List.exists_cons_of_ne_nil (decimal_ne_nil n)
  have hd : d.isDigit = true := isDigit_of_mem_decimal (n := n) (by rw [hds]; simp)
  have hdrop : (decimal n ++ r).dropWhile isSpace = decimal n ++ r := by
    rw [hds, List.cons_append, List.dropWhile_cons_of_neg (by simp [isSpace_of_isDigit hd])]
  have hsign : takeSign (decimal n ++ r) = (false, decimal n ++ r) := by
    rw [hds]; exact takeSign_of_digit hd _
  obtain ⟨htake, hrest⟩ := takeWhile_decimal_append n hr
  have hval : Nat.ofDigitChars 10 (decimal n) 0 = n := Nat.ofDigitChars_ten_toDigits
  simp only [strtol, hdrop, hsign, htake, hrest, hval, decimal_ne_nil, if_false,
    Bool.false_eq_true]
  rw [clampLong_of_le (by omega) hn]

/-- The same for `%ld`. -/
theorem strtol_intDecimal {z : Int} (hl : -(2 ^ 63) ≤ z) (hu : z ≤ longMax) {r : Text}
    (hr : ∀ c ∈ r.head?, c.isDigit = false) : strtol (intDecimal z ++ r) = some (z, r) := by
  by_cases hz : z < 0
  · obtain ⟨htake, hrest⟩ := takeWhile_decimal_append z.natAbs hr
    have hval : Nat.ofDigitChars 10 (decimal z.natAbs) 0 = z.natAbs :=
      Nat.ofDigitChars_ten_toDigits
    have hdrop : (intDecimal z ++ r).dropWhile isSpace = '-' :: (decimal z.natAbs ++ r) := by
      rw [intDecimal, if_pos hz]
      rfl
    have hneg : -(z.natAbs : Int) = z := by omega
    simp only [strtol, hdrop, takeSign, htake, hrest, hval, decimal_ne_nil, if_false, if_true,
      hneg]
    rw [clampLong_of_le hl hu]
  · have hz' : 0 ≤ z := by omega
    have hcast : ((z.toNat : Nat) : Int) = z := Int.toNat_of_nonneg hz'
    rw [intDecimal_of_nonneg hz', strtol_decimal (by rw [hcast]; exact hu) hr, hcast]

theorem takeSign_length_le (s : Text) : (takeSign s).2.length ≤ s.length := by
  unfold takeSign
  split <;> simp

/-- The text behind a number is shorter than the text it was read from. -/
theorem strtol_rest_length {s r : Text} {z : Int} (h : strtol s = some (z, r)) :
    r.length < s.length := by
  simp only [strtol] at h
  split at h
  · exact absurd h (by simp)
  · rename_i hne
    have hr := (Prod.mk.inj (Option.some.inj h)).2
    have h1 := (List.dropWhile_suffix isSpace (l := s)).length_le
    have h2 := takeSign_length_le (s.dropWhile isSpace)
    have h3 := congrArg List.length
      (List.takeWhile_append_dropWhile (p := Char.isDigit) (l := (takeSign (s.dropWhile isSpace)).2))
    have h4 : 0 < ((takeSign (s.dropWhile isSpace)).2.takeWhile Char.isDigit).length :=
      List.length_pos_iff.mpr hne
    rw [List.length_append] at h3
    rw [← hr]
    omega

/-- A number that begins with a digit is not negative. -/
theorem strtol_nonneg_of_digit {d : Char} (hd : d.isDigit = true) {s r : Text} {z : Int}
    (h : strtol (d :: s) = some (z, r)) : 0 ≤ z := by
  have hdrop : (d :: s).dropWhile isSpace = d :: s :=
    List.dropWhile_cons_of_neg (by simp [isSpace_of_isDigit hd])
  simp only [strtol, hdrop, takeSign_of_digit hd] at h
  split at h
  · exact absurd h (by simp)
  · have hz := (Prod.mk.inj (Option.some.inj h)).1
    simp only [Bool.false_eq_true, if_false, clampLong, longMax] at hz
    omega

theorem bmod32_of_range {z : Int} (hl : -(2 ^ 31) ≤ z) (hu : z ≤ intMax) :
    z.bmod (2 ^ 32) = z := by
  rw [Int.bmod_eq_of_le]
  · simpa using hl
  · simp only [intMax] at hu
    omega

/-- `atoi` reads back a printed `int`. -/
theorem atoi_intDecimal {z : Int} (hl : -(2 ^ 31) ≤ z) (hu : z ≤ intMax) :
    atoi (intDecimal z) = z := by
  have h := strtol_intDecimal (z := z) (r := []) (by omega)
    (by simp only [intMax, longMax] at *; omega) (by simp)
  rw [List.append_nil] at h
  rw [atoi, atol, h]
  exact bmod32_of_range hl hu

theorem atoi_range (s : Text) : -(2 ^ 31) ≤ atoi s ∧ atoi s ≤ intMax := by
  have hl := Int.le_bmod (x := atol s) (m := 2 ^ 32) (by decide)
  have hu := Int.bmod_lt (x := atol s) (m := 2 ^ 32) (by decide)
  simp only [atoi, intMax]
  omega

/-- The numbers of a pair are `int`s. -/
theorem scanPair_range {s : Text} {p : Int × Int} (h : scanPair s = some p) :
    (-(2 ^ 31) ≤ p.1 ∧ p.1 ≤ intMax) ∧ -(2 ^ 31) ≤ p.2 ∧ p.2 ≤ intMax := by
  unfold scanPair at h
  split at h
  · rename_i a r _
    obtain ⟨b, -, rfl⟩ := Option.map_eq_some_iff.mp h
    have hal := Int.le_bmod (x := a) (m := 2 ^ 32) (by decide)
    have hau := Int.bmod_lt (x := a) (m := 2 ^ 32) (by decide)
    have hbl := Int.le_bmod (x := b.1) (m := 2 ^ 32) (by decide)
    have hbu := Int.bmod_lt (x := b.1) (m := 2 ^ 32) (by decide)
    simp only [intMax]
    omega
  · exact absurd h (by simp)

/-- `sscanf` reads back a printed pair of `int`s. -/
theorem scanPair_print {a b : Int} (hal : -(2 ^ 31) ≤ a) (hau : a ≤ intMax)
    (hbl : -(2 ^ 31) ≤ b) (hbu : b ≤ intMax) :
    scanPair (intDecimal a ++ ':' :: intDecimal b) = some (a, b) := by
  have ha := strtol_intDecimal (z := a) (r := ':' :: intDecimal b) (by omega)
    (by simp only [intMax, longMax] at *; omega) (by simp)
  have hb := strtol_intDecimal (z := b) (r := []) (by omega)
    (by simp only [intMax, longMax] at *; omega) (by simp)
  rw [List.append_nil] at hb
  simp only [scanPair, ha, hb, Option.map_some, bmod32_of_range hal hau, bmod32_of_range hbl hbu]

/-! ## 4. Packing words into lines

Lists of words are sent as lines, as many words to a line as go in. The buffer is sent whenever the
next word might not fit, which is decided before the word is looked at more closely. -/

/-- Words appended one by one to a buffer of `cap` bytes, which is sent and emptied when the
next word may not fit. -/
def packWords (cap : Nat) : List Text → Text → List Text
  | [], [] => []
  | [], cur => [cur]
  | w :: ws, cur =>
    if cap ≤ cur.length + w.length + 2 then cur :: packWords cap ws (clip cap w)
    else packWords cap ws (clip cap (clip cap (cur ++ if cur = [] then [] else [' ']) ++ w))

theorem joinSep_ne_nil {sep : Char} {ws : List Text} (hne : ws ≠ []) (h : ∀ w ∈ ws, w ≠ []) :
    joinSep sep ws ≠ [] := by
  obtain ⟨w, ws, rfl⟩ := List.exists_cons_of_ne_nil hne
  have hw := h w (by simp)
  rw [joinSep_eq_flatMap]
  simp [hw]

theorem joinSep_concat_buffer {ws : List Text} (h : ∀ w ∈ ws, w ≠ []) (w : Text) :
    (joinSep ' ' ws ++ if joinSep ' ' ws = [] then [] else [' ']) ++ w = joinSep ' ' (ws ++ [w]) := by
  by_cases hne : ws = []
  · simp [hne]
  · rw [if_neg (joinSep_ne_nil hne h), joinSep_concat hne]
    simp

/-- **Packing loses no word and keeps their order**: the lines are groups of words, none empty
and none too long, and together the groups are the words. -/
theorem packWords_spec {cap : Nat} : ∀ (ws us : List Text), (∀ w ∈ ws, w ≠ [] ∧ w.length + 2 < cap) →
    (∀ w ∈ us, w ≠ []) → (joinSep ' ' us).length < cap →
    ∃ css : List (List Text), packWords cap ws (joinSep ' ' us) = css.map (joinSep ' ') ∧
      css.flatten = us ++ ws ∧ ∀ cs ∈ css, cs ≠ [] ∧ (joinSep ' ' cs).length < cap
  | [], us, _, hus, hlen => by
    by_cases hne : us = []
    · exact ⟨[], by simp [hne, packWords], by simp [hne], by simp⟩
    · refine ⟨[us], ?_, by simp, by simpa using ⟨hne, hlen⟩⟩
      have hj : joinSep ' ' us ≠ [] := joinSep_ne_nil hne hus
      rw [packWords]
      · simp
      · exact hj
  | w :: ws, us, hws, hus, hlen => by
    obtain ⟨hw, hwl⟩ := hws w (by simp)
    have hws' : ∀ v ∈ ws, v ≠ [] ∧ v.length + 2 < cap := fun v hv => hws v (List.mem_cons_of_mem _ hv)
    rw [packWords]
    split
    · rename_i hfull
      have hne : us ≠ [] := by
        rintro rfl
        simp only [joinSep_nil, List.length_nil] at hfull
        omega
      obtain ⟨css, h1, h2, h3⟩ := packWords_spec ws [w] hws' (by simpa using hw)
        (by simp only [joinSep_singleton]; omega)
      rw [joinSep_singleton] at h1
      refine ⟨us :: css, ?_, by simp [h2], ?_⟩
      · rw [clip_of_fits (by omega), h1, List.map_cons]
      · intro cs hcs
        rcases List.mem_cons.mp hcs with rfl | hcs
        · exact ⟨hne, hlen⟩
        · exact h3 cs hcs
    · rename_i hroom
      have hus' : ∀ v ∈ us ++ [w], v ≠ [] := by
        intro v hv
        rcases List.mem_append.mp hv with hv | hv
        · exact hus v hv
        · rw [List.mem_singleton.mp hv]
          exact hw
      have hcat := joinSep_concat_buffer hus w
      have hsep : (joinSep ' ' us ++ if joinSep ' ' us = [] then [] else [' ']).length ≤
          (joinSep ' ' us).length + 1 := by
        rw [List.length_append]
        split <;> simp
      have hlen' : (joinSep ' ' (us ++ [w])).length < cap := by
        rw [← hcat, List.length_append]
        omega
      obtain ⟨css, h1, h2, h3⟩ := packWords_spec ws (us ++ [w]) hws' hus' hlen'
      refine ⟨css, ?_, by simp [h2], h3⟩
      have hclip : clip cap (joinSep ' ' us ++ if joinSep ' ' us = [] then [] else [' ']) =
          joinSep ' ' us ++ if joinSep ' ' us = [] then [] else [' '] := clip_of_fits (by omega)
      rw [hclip, hcat, clip_of_fits hlen', h1]

/-- Each word takes its own length and a separator, the last one only its length. -/
theorem length_joinSep (sep : Char) : ∀ {ws : List Text}, ws ≠ [] →
    (joinSep sep ws).length + 1 = (ws.map fun w => w.length + 1).sum
  | [w], _ => by simp [joinSep]
  | w :: v :: ws, _ => by
    have ih := length_joinSep sep (List.cons_ne_nil v ws)
    rw [joinSep_cons w (List.cons_ne_nil v ws), List.map_cons, List.sum_cons, ← ih]
    simp only [List.length_append, List.length_cons]
    omega

theorem length_le_joinSep {k : Nat} : ∀ {ws : List Text}, (∀ w ∈ ws, k ≤ w.length) →
    ws.length * (k + 1) ≤ (joinSep ' ' ws).length + 1
  | [], _ => by simp
  | [w], h => by
    have := h w (by simp)
    simp only [List.length_singleton, joinSep_singleton]
    omega
  | w :: v :: vs, h => by
    have hw := h w (by simp)
    have ih := length_le_joinSep fun x (hx : x ∈ v :: vs) => h x (List.mem_cons_of_mem _ hx)
    have hmul : (w :: v :: vs).length * (k + 1) = (v :: vs).length * (k + 1) + (k + 1) := by
      rw [List.length_cons, Nat.succ_mul]
    have hj : (joinSep ' ' (w :: v :: vs)).length = w.length + ((joinSep ' ' (v :: vs)).length + 1) := by
      rw [joinSep_cons w (by simp), List.length_append]
      rfl
    omega

end CLib
