/-
# JSON texts, read back

A reader of JSON texts, and what it is to write a value: `Writes v t` says that the reader takes
exactly `t`, whatever stands behind it, and gives `v`.  Strings, numbers, arrays and objects are
written from their parts (`writes_str`, `writes_num`, `writes_arr`, `writes_obj`), so a program that
streams a text piece by piece has written what its pieces say.

Numbers come back as the nearest double, so an integer of more than 53 bits may come back as
another one.  Of the numbers only integers are read here, and of the characters that an escape
names by number only those of one byte.
-/
import SekurIRCd.Lib.CString

namespace JsonText

open CLib

/-! ## 1. Values

Only what the programs store: words, integers, strings, arrays and objects. A number is the double
that its digits name, so the integers that come back exactly are those of 53 bits. -/

/-- A value.  A number is a double, and here always an integer. -/
inductive Json
  | word (w : Text)
  | num (d : Int)
  | str (s : Text)
  | arr (items : List Json)
  | obj (fields : List (Text × Json))

/-- The double that is nearest to a natural number: 53 bits, and of two that are equally near the
even one. -/
def nearestNat (n : Nat) : Nat :=
  if n < 2 ^ 53 then n
  else
    let unit := 2 ^ (Nat.log2 n - 52)
    let q := n / unit
    let r := n % unit
    if 2 * r < unit ∨ (2 * r = unit ∧ q % 2 = 0) then q * unit else (q + 1) * unit

def nearestDouble (z : Int) : Int := if z < 0 then -(nearestNat z.natAbs : Int) else nearestNat z.natAbs

/-! ## 2. Reading

The readers call each other, so they carry a bound on their depth; a text is read with its own
length, which is always enough. -/

/-- A hexadecimal digit. -/
def hexDigit (c : Char) : Option Nat :=
  if c.isDigit then some (c.toNat - '0'.toNat)
  else if 'a' ≤ c ∧ c ≤ 'f' then some (c.toNat - 'a'.toNat + 10)
  else if 'A' ≤ c ∧ c ≤ 'F' then some (c.toNat - 'A'.toNat + 10)
  else none

/-- The character of `\\uXXXX`. -/
def hexChar (a b c d : Char) : Option Char :=
  (hexDigit a).bind fun a => (hexDigit b).bind fun b => (hexDigit c).bind fun c =>
    (hexDigit d).bind fun d =>
      let n := ((a * 16 + b) * 16 + c) * 16 + d
      if n < 128 then some (Char.ofNat n) else none

/-- The character of an escape by letter. -/
def escapeChar (c : Char) : Option Char :=
  if c = 'b' then some '\x08' else if c = 'f' then some '\x0c' else if c = 'n' then some '\n'
  else if c = 'r' then some '\r' else if c = 't' then some '\t'
  else if c = '"' ∨ c = '\\' ∨ c = '/' then some c else none

/-- What stands between the quotes, and what is behind them. -/
def readChars : Text → Option (Text × Text)
  | [] => none
  | '"' :: r => some ([], r)
  | '\\' :: 'u' :: a :: b :: c :: d :: r =>
    (hexChar a b c d).bind fun x => (readChars r).map fun s => (x :: s.1, s.2)
  | '\\' :: c :: r => (escapeChar c).bind fun x => (readChars r).map fun s => (x :: s.1, s.2)
  | c :: r => (readChars r).map fun s => (c :: s.1, s.2)

/-- What a number is made of. -/
def isNumberChar (c : Char) : Bool :=
  c.isDigit || c == '+' || c == '-' || c == 'e' || c == 'E' || c == '.'

/-- A number. -/
def readNumber (t : Text) : Option (Json × Text) :=
  match strtol (t.takeWhile isNumberChar) with
  | some (z, []) => some (.num (nearestDouble z), t.dropWhile isNumberChar)
  | _ => none

/-- `null`, `false` or `true`. -/
def readWord (t : Text) : Option (Json × Text) :=
  (["null".toList, "false".toList, "true".toList].find? fun w => w.isPrefixOf t).map fun w =>
    (.word w, t.drop w.length)

def skipBlanks (t : Text) : Text := t.dropWhile fun c => decide (c.toNat ≤ 32)

mutual

/-- A value.  The first argument bounds how often the readers call each other. -/
def readValue : Nat → Text → Option (Json × Text)
  | 0, _ => none
  | _ + 1, [] => none
  | n + 1, c :: r =>
    if c = '"' then (readChars r).map fun s => (.str s.1, s.2)
    else if c = '[' then
      match skipBlanks r with
      | ']' :: r => some (.arr [], r)
      | r => (readItems n r).map fun x => (.arr x.1, x.2)
    else if c = '{' then
      match skipBlanks r with
      | '}' :: r => some (.obj [], r)
      | r => (readFields n r).map fun x => (.obj x.1, x.2)
    else if c = '-' ∨ c.isDigit then readNumber (c :: r)
    else readWord (c :: r)

/-- The items of an array, from one of them on. -/
def readItems : Nat → Text → Option (List Json × Text)
  | 0, _ => none
  | n + 1, t => (readValue n (skipBlanks t)).bind fun x =>
    match skipBlanks x.2 with
    | ',' :: r => (readItems n r).map fun y => (x.1 :: y.1, y.2)
    | ']' :: r => some ([x.1], r)
    | _ => none

/-- The fields of an object, from one of them on. -/
def readFields : Nat → Text → Option (List (Text × Json) × Text)
  | 0, _ => none
  | n + 1, t =>
    match skipBlanks t with
    | '"' :: r => (readChars r).bind fun k =>
      match skipBlanks k.2 with
      | ':' :: r => (readValue n (skipBlanks r)).bind fun x =>
        match skipBlanks x.2 with
        | ',' :: r => (readFields n r).map fun y => ((k.1, x.1) :: y.1, y.2)
        | '}' :: r => some ([(k.1, x.1)], r)
        | _ => none
      | _ => none
    | _ => none

end

/-- A text. -/
def readText (t : Text) : Option Json := (readValue (t.length + 1) (skipBlanks t)).map Prod.fst

/-! ## 3. Writing

To write a value is to produce a text that the reader takes for it. The definition quantifies over
what stands behind the text, so that the texts of parts can be put together without a look at where
a reader stops. -/

/-- `t` writes the characters `s` of a string. -/
def WritesChars (s t : Text) : Prop :=
  ∀ r, readChars (t ++ r) = (readChars r).map fun x => (s ++ x.1, x.2)

/-- No number goes on here. -/
def Stops (r : Text) : Prop := ∀ c ∈ r.head?, isNumberChar c = false

/-- `t` writes the value `v`: read from the front of any text, it gives `v` and leaves the rest, if
the rest does not go on with a number. -/
structure Writes (v : Json) (t : Text) : Prop where
  head : ∃ c s, t = c :: s ∧ 32 < c.toNat ∧ c ≠ ']'
  read : ∀ n r, t.length ≤ n → Stops r → readValue n (t ++ r) = some (v, r)

/-- `t` writes the field `f` of an object. -/
def WritesField (f : Text × Json) (t : Text) : Prop :=
  ∃ k u, WritesChars f.1 k ∧ Writes f.2 u ∧ t = '"' :: (k ++ '"' :: ':' :: u)

/-! ### Characters -/

theorem WritesChars.nil : WritesChars [] [] := by
  intro r
  rw [List.nil_append]
  generalize readChars r = o
  cases o <;> rfl

theorem WritesChars.append {s t s' t' : Text} (h : WritesChars s t) (h' : WritesChars s' t') :
    WritesChars (s ++ s') (t ++ t') := by
  intro r
  rw [List.append_assoc, h, h', Option.map_map]
  congr 1
  funext x
  simp

theorem WritesChars.flatMap {f : Char → Text} {s : Text} (h : ∀ c ∈ s, WritesChars [c] (f c)) :
    WritesChars s (s.flatMap f) := by
  induction s with
  | nil => exact .nil
  | cons c s ih =>
    rw [List.flatMap_cons]
    exact (h c List.mem_cons_self).append (ih fun d hd => h d (List.mem_cons_of_mem c hd))

theorem writesChars_self {c : Char} (hquote : c ≠ '"') (hback : c ≠ '\\') :
    WritesChars [c] [c] := by
  intro r
  rw [List.singleton_append, readChars]
  · rfl
  · exact hquote
  · exact fun _ _ _ _ _ h _ => absurd h hback
  · exact fun _ _ h _ => absurd h hback

theorem writesChars_escape {c d : Char} (hu : d ≠ 'u') (h : escapeChar d = some c) :
    WritesChars [c] ['\\', d] := by
  intro r
  rw [List.cons_append, List.singleton_append, readChars.eq_def]
  simp [hu, h]

/-- Four digits behind `\u`. -/
theorem writesChars_hex {x a b c d : Char} (h : hexChar a b c d = some x) :
    WritesChars [x] ['\\', 'u', a, b, c, d] := by
  intro r
  rw [List.cons_append, List.cons_append, List.cons_append, List.cons_append, List.cons_append,
    List.singleton_append, readChars.eq_def]
  simp [h]

/-! ### Values -/

theorem skipBlanks_of_dark {c : Char} (h : 32 < c.toNat) (s : Text) :
    skipBlanks (c :: s) = c :: s := by
  rw [skipBlanks, List.dropWhile_cons_of_neg (by simpa using h)]

theorem writes_str {s t : Text} (h : WritesChars s t) : Writes (.str s) ('"' :: (t ++ ['"'])) := by
  refine ⟨⟨'"', _, rfl, by decide, by decide⟩, fun n r hn _ => ?_⟩
  cases n with
  | zero => exact absurd hn (by simp)
  | succ n =>
    have hread : readChars (t ++ '"' :: r) = some (s, r) := by
      rw [h]
      simp [readChars]
    rw [List.cons_append, List.append_assoc, List.singleton_append, readValue, if_pos rfl, hread]
    rfl

theorem isNumberChar_intDecimal {z : Int} : ∀ c ∈ intDecimal z, isNumberChar c = true := by
  intro c hc
  rcases mem_intDecimal hc with rfl | hdigit
  · decide
  · simp [isNumberChar, hdigit]

theorem takeWhile_number {t r : Text} (ht : ∀ c ∈ t, isNumberChar c = true) (hr : Stops r) :
    (t ++ r).takeWhile isNumberChar = t ∧ (t ++ r).dropWhile isNumberChar = r := by
  have hend : r.takeWhile isNumberChar = [] ∧ r.dropWhile isNumberChar = r := by
    cases r with
    | nil => exact ⟨rfl, rfl⟩
    | cons c r =>
      have hc : isNumberChar c = false := hr c rfl
      exact ⟨List.takeWhile_cons_of_neg (by simp [hc]), List.dropWhile_cons_of_neg (by simp [hc])⟩
  rw [List.takeWhile_append_of_pos ht, List.dropWhile_append_of_pos ht, hend.1, hend.2,
    List.append_nil]
  exact ⟨rfl, rfl⟩

theorem writes_num {z : Int} (hl : -(2 ^ 63) ≤ z) (hu : z ≤ longMax) :
    Writes (.num (nearestDouble z)) (intDecimal z) := by
  obtain ⟨c, s, hcs⟩ : ∃ c s, intDecimal z = c :: s :=
    List.exists_cons_of_ne_nil (intDecimal_ne_nil z)
  have hfirst : c = '-' ∨ c.isDigit = true :=
    mem_intDecimal (hcs ▸ List.mem_cons_self : c ∈ intDecimal z)
  have hdark : 32 < c.toNat ∧ c ≠ ']' ∧ c ≠ '"' ∧ c ≠ '[' ∧ c ≠ '{' := by
    rcases hfirst with rfl | hdigit
    · decide
    · refine ⟨?_, ?_, ?_, ?_, ?_⟩
      · have hle : '0'.val ≤ c.val := (of_decide_eq_true (Bool.and_eq_true_iff.mp hdigit).1)
        rw [UInt32.le_iff_toNat_le] at hle
        exact Nat.lt_of_lt_of_le (by decide) hle
      all_goals
        rintro rfl
        exact absurd hdigit (by decide)
  refine ⟨⟨c, s, hcs, hdark.1, hdark.2.1⟩, fun n r hn hr => ?_⟩
  cases n with
  | zero =>
    rw [hcs] at hn
    exact absurd hn (by simp)
  | succ n =>
    have hread : readNumber (intDecimal z ++ r) = some (.num (nearestDouble z), r) := by
      obtain ⟨htake, hdrop⟩ := takeWhile_number (t := intDecimal z) isNumberChar_intDecimal hr
      have hlong := strtol_intDecimal hl hu (r := []) (by simp)
      rw [List.append_nil] at hlong
      rw [readNumber, htake, hdrop, hlong]
    rw [hcs, List.cons_append] at hread ⊢
    rw [readValue, if_neg hdark.2.2.1, if_neg hdark.2.2.2.1, if_neg hdark.2.2.2.2, if_pos hfirst,
      hread]

theorem writes_items {vs : List Json} {ts : List Text} (h : List.Forall₂ Writes vs ts) (hne : ts ≠ [])
    {n : Nat} {r : Text} (hn : (joinSep ',' ts).length < n) :
    readItems n (joinSep ',' ts ++ ']' :: r) = some (vs, r) := by
  induction h generalizing n with
  | nil => exact absurd rfl hne
  | @cons v t vs ts hv hvs ih =>
    obtain ⟨n, rfl⟩ : ∃ m, n = m + 1 := ⟨n - 1, by omega⟩
    obtain ⟨c, s, hcs, hdark, -⟩ := hv.head
    cases hvs with
    | nil =>
      rw [joinSep_singleton] at hn ⊢
      have hskip : skipBlanks (t ++ ']' :: r) = t ++ ']' :: r := by
        rw [hcs, List.cons_append, skipBlanks_of_dark hdark]
      rw [readItems, hskip, hv.read n _ (by omega) (by simp [Stops, isNumberChar]), Option.bind_some,
        skipBlanks_of_dark (by decide)]
      rfl
    | @cons v' t' vs' ts' hv' hvs' =>
      rw [joinSep_cons t (List.cons_ne_nil t' ts')] at hn ⊢
      rw [List.length_append, List.length_cons] at hn
      have hskip : ∀ u, skipBlanks (t ++ u) = t ++ u := by
        intro u
        rw [hcs, List.cons_append, skipBlanks_of_dark hdark]
      have hrest := ih (List.cons_ne_nil t' ts') (show (joinSep ',' (t' :: ts')).length < n by omega)
      rw [List.append_assoc, List.cons_append, readItems, hskip,
        hv.read n _ (by omega) (by simp [Stops, isNumberChar]), Option.bind_some,
        skipBlanks_of_dark (by decide)]
      simp only [hrest, Option.map_some]

theorem writes_arr {vs : List Json} {ts : List Text} (h : List.Forall₂ Writes vs ts) :
    Writes (.arr vs) ('[' :: (joinSep ',' ts ++ [']'])) := by
  refine ⟨⟨'[', _, rfl, by decide, by decide⟩, fun n r hn _ => ?_⟩
  obtain ⟨n, rfl⟩ : ∃ m, n = m + 1 := ⟨n - 1, by rw [List.length_cons] at hn; omega⟩
  rw [List.length_cons, List.length_append, List.length_singleton] at hn
  rw [List.cons_append, List.append_assoc, List.singleton_append, readValue, if_neg (by decide),
    if_pos rfl]
  cases h with
  | nil =>
    rw [joinSep_nil, List.nil_append, skipBlanks_of_dark (by decide)]
    rfl
  | @cons v t vs ts hv hvs =>
    obtain ⟨c, s, hcs, hdark, hclose⟩ := hv.head
    have hitems := writes_items (List.Forall₂.cons hv hvs) (List.cons_ne_nil t ts) (r := r)
      (show (joinSep ',' (t :: ts)).length < n by omega)
    obtain ⟨u, hu⟩ : ∃ u, joinSep ',' (t :: ts) ++ ']' :: r = c :: u := by
      cases ts with
      | nil => exact ⟨s ++ ']' :: r, by rw [joinSep_singleton, hcs, List.cons_append]⟩
      | cons t' ts =>
        exact ⟨s ++ ',' :: (joinSep ',' (t' :: ts) ++ ']' :: r), by
          rw [joinSep_cons t (List.cons_ne_nil t' ts), hcs]
          simp⟩
    rw [hu] at hitems ⊢
    rw [skipBlanks_of_dark hdark]
    split
    · next heq => exact absurd (List.cons.inj heq).1 hclose
    · rw [hitems]
      rfl

theorem writes_fields {fs : List (Text × Json)} {ts : List Text}
    (h : List.Forall₂ WritesField fs ts) (hne : ts ≠ []) {n : Nat} {r : Text}
    (hn : (joinSep ',' ts).length < n) :
    readFields n (joinSep ',' ts ++ '}' :: r) = some (fs, r) := by
  induction h generalizing n with
  | nil => exact absurd rfl hne
  | @cons f t fs ts hf hfs ih =>
    obtain ⟨n, rfl⟩ : ∃ m, n = m + 1 := ⟨n - 1, by omega⟩
    obtain ⟨k, u, hk, hu, rfl⟩ := hf
    obtain ⟨c, s, hcs, hdark, -⟩ := hu.head
    have hkey : ∀ r, readChars (k ++ '"' :: r) = some (f.1, r) := by
      intro r
      rw [hk]
      simp [readChars]
    have hskip : ∀ r, skipBlanks (u ++ r) = u ++ r := by
      intro r
      rw [hcs, List.cons_append, skipBlanks_of_dark hdark]
    cases hfs with
    | nil =>
      rw [joinSep_singleton] at hn ⊢
      simp only [List.length_cons, List.length_append] at hn
      have hread := hu.read n ('}' :: r) (by omega) (by simp [Stops, isNumberChar])
      rw [List.cons_append, List.append_assoc, List.cons_append, List.cons_append, readFields,
        skipBlanks_of_dark (by decide)]
      simp only [hkey, Option.bind_some, skipBlanks_of_dark (show 32 < ':'.toNat by decide), hskip,
        hread, skipBlanks_of_dark (show 32 < '}'.toNat by decide)]
    | @cons f' t' fs' ts' hf' hfs' =>
      rw [joinSep_cons _ (List.cons_ne_nil t' ts')] at hn ⊢
      simp only [List.length_cons, List.length_append] at hn
      have hread := hu.read n (',' :: (joinSep ',' (t' :: ts') ++ '}' :: r)) (by omega)
        (by simp [Stops, isNumberChar])
      have hrest := ih (List.cons_ne_nil t' ts') (show (joinSep ',' (t' :: ts')).length < n by omega)
      rw [List.append_assoc, List.cons_append, List.cons_append, List.append_assoc, List.cons_append,
        List.cons_append, readFields, skipBlanks_of_dark (by decide)]
      simp only [hkey, Option.bind_some, skipBlanks_of_dark (show 32 < ':'.toNat by decide), hskip,
        hread, skipBlanks_of_dark (show 32 < ','.toNat by decide), hrest, Option.map_some]

theorem writes_obj {fs : List (Text × Json)} {ts : List Text}
    (h : List.Forall₂ WritesField fs ts) : Writes (.obj fs) ('{' :: (joinSep ',' ts ++ ['}'])) := by
  refine ⟨⟨'{', _, rfl, by decide, by decide⟩, fun n r hn _ => ?_⟩
  obtain ⟨n, rfl⟩ : ∃ m, n = m + 1 := ⟨n - 1, by rw [List.length_cons] at hn; omega⟩
  rw [List.length_cons, List.length_append, List.length_singleton] at hn
  rw [List.cons_append, List.append_assoc, List.singleton_append, readValue, if_neg (by decide),
    if_neg (by decide), if_pos rfl]
  cases h with
  | nil =>
    rw [joinSep_nil, List.nil_append, skipBlanks_of_dark (by decide)]
    rfl
  | @cons f t fs ts hf hfs =>
    have hfields := writes_fields (List.Forall₂.cons hf hfs) (List.cons_ne_nil t ts) (r := r)
      (show (joinSep ',' (t :: ts)).length < n by omega)
    obtain ⟨k, u, -, -, hku⟩ := hf
    obtain ⟨w, hw⟩ : ∃ w, joinSep ',' (t :: ts) ++ '}' :: r = '"' :: w := by
      rw [hku]
      cases ts with
      | nil => exact ⟨_, by rw [joinSep_singleton, List.cons_append]⟩
      | cons t' ts => exact ⟨_, by rw [joinSep_cons _ (List.cons_ne_nil t' ts), List.cons_append,
          List.cons_append]⟩
    rw [hw] at hfields ⊢
    rw [skipBlanks_of_dark (by decide)]
    split
    · next heq => exact absurd (List.cons.inj heq).1 (by decide)
    · rw [hfields]
      rfl

/-- **What was written is read.** A text on its own is read to its end. -/
theorem Writes.readText {v : Json} {t : Text} (h : Writes v t) : readText t = some v := by
  obtain ⟨c, s, hcs, hdark, -⟩ := h.head
  have hskip : skipBlanks t = t := by rw [hcs, skipBlanks_of_dark hdark]
  have hread := h.read (t.length + 1) [] (Nat.le_succ _) (by simp [Stops])
  rw [List.append_nil] at hread
  rw [JsonText.readText, hskip, hread]
  rfl

end JsonText
