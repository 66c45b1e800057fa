/-
# JSON values, printed

A printer, with blanks or without.  Between the parts of a text a reader skips blanks, so that
`writes_spaced_arr` and `writes_spaced_obj` hold whatever blanks a writer puts there; that what is
printed is read back (`writes_printValue`) is an induction on the value.

Only numbers are printed that have at most 15 digits, and only values that are not nested too deep
are read, so the values are the `Printable` ones.
-/
import SekurIRCd.Lib.Json

namespace JsonText

open CLib

/-! ## 1. Blanks -/

/-- Nothing but blanks. -/
def Blank (b : Text) : Prop := ∀ c ∈ b, c.toNat ≤ 32

theorem Blank.nil : Blank [] := nofun

theorem Blank.cons {c : Char} {b : Text} (hc : c.toNat ≤ 32) (hb : Blank b) : Blank (c :: b) := by
  intro d hd
  rcases List.mem_cons.mp hd with rfl | hd
  · exact hc
  · exact hb d hd

theorem Blank.tabs (n : Nat) : Blank (List.replicate n '\t') := by
  intro c hc
  rw [List.eq_of_mem_replicate hc]
  decide

theorem skipBlanks_append {b : Text} (hb : Blank b) (s : Text) :
    skipBlanks (b ++ s) = skipBlanks s :=
  List.dropWhile_append_of_pos fun c hc => decide_eq_true (hb c hc)

theorem skipBlanks_blank {b : Text} (hb : Blank b) {c : Char} (hc : 32 < c.toNat) (s : Text) :
    skipBlanks (b ++ c :: s) = c :: s := by
  rw [skipBlanks_append hb, skipBlanks_of_dark hc]

theorem isNumberChar_blank {c : Char} (hc : c.toNat ≤ 32) : isNumberChar c = false := by
  have hne : ∀ d : Char, 32 < d.toNat → (c == d) = false := by
    intro d hd
    refine beq_eq_false_iff_ne.mpr ?_
    rintro rfl
    exact absurd hc (Nat.not_le.mpr hd)
  have hdigit : c.isDigit = false := by
    refine Bool.eq_false_iff.mpr fun hdigit => ?_
    have hle : '0'.val ≤ c.val := of_decide_eq_true (Bool.and_eq_true_iff.mp hdigit).1
    rw [UInt32.le_iff_toNat_le] at hle
    exact absurd hc (Nat.not_le.mpr (Nat.lt_of_lt_of_le (by decide) hle))
  rw [isNumberChar, hdigit, hne '+' (by decide), hne '-' (by decide), hne 'e' (by decide),
    hne 'E' (by decide), hne '.' (by decide)]
  rfl

theorem stops_blank {b : Text} (hb : Blank b) {c : Char} (hc : isNumberChar c = false) (s : Text) :
    Stops (b ++ c :: s) := by
  intro d hd
  cases b with
  | nil =>
    cases Option.mem_some_iff.mp hd
    exact hc
  | cons d' b =>
    cases Option.mem_some_iff.mp hd
    exact isNumberChar_blank (hb _ List.mem_cons_self)

theorem skipBlanks_skipBlanks (t : Text) : skipBlanks (skipBlanks t) = skipBlanks t := by
  induction t with
  | nil => rfl
  | cons c t ih =>
    by_cases hc : c.toNat ≤ 32
    · have hskip : skipBlanks (c :: t) = skipBlanks t :=
        List.dropWhile_cons_of_pos (decide_eq_true hc)
      rw [hskip, ih]
    · rw [skipBlanks_of_dark (Nat.not_le.mp hc), skipBlanks_of_dark (Nat.not_le.mp hc)]

theorem readItems_skipBlanks (n : Nat) (t : Text) : readItems n (skipBlanks t) = readItems n t := by
  cases n with
  | zero => rfl
  | succ n => rw [readItems, readItems, skipBlanks_skipBlanks]

theorem readFields_skipBlanks (n : Nat) (t : Text) :
    readFields n (skipBlanks t) = readFields n t := by
  cases n with
  | zero => rfl
  | succ n => rw [readFields, readFields, skipBlanks_skipBlanks]

/-! ## 2. Arrays and objects with blanks

Arrays and objects as a writer may lay them out: each part has blanks of its own in front of it,
whichever they are. -/

/-- `t` writes the value `v`, after blanks. -/
def SpacedItem (v : Json) (t : Text) : Prop := ∃ b u, Blank b ∧ Writes v u ∧ t = b ++ u

/-- `t` writes the field `f` of an object, after blanks and with blanks before its value. -/
def SpacedField (f : Text × Json) (t : Text) : Prop :=
  ∃ b k b' u, Blank b ∧ WritesChars f.1 k ∧ Blank b' ∧ Writes f.2 u ∧
    t = b ++ '"' :: (k ++ '"' :: ':' :: (b' ++ u))

theorem SpacedItem.skip {v : Json} {t : Text} (h : SpacedItem v t) :
    ∃ u, Writes v u ∧ u.length ≤ t.length ∧ ∀ r, skipBlanks (t ++ r) = u ++ r := by
  obtain ⟨b, u, hb, hu, rfl⟩ := h
  obtain ⟨c, s, hcs, hdark, -⟩ := hu.head
  refine ⟨u, hu, by simp, fun r => ?_⟩
  rw [List.append_assoc, skipBlanks_append hb, hcs, List.cons_append, skipBlanks_of_dark hdark]

/-- The items of an array, and the blanks before it is closed. -/
theorem reads_spaced_items {vs : List Json} {ts : List Text} (h : List.Forall₂ SpacedItem vs ts)
    (hne : ts ≠ []) {e : Text} (he : Blank e) {n : Nat} {r : Text}
    (hn : (joinSep ',' ts).length < n) :
    readItems n (joinSep ',' ts ++ (e ++ ']' :: r)) = some (vs, r) := by
  induction h generalizing n with
  | nil => exact absurd rfl hne
  | @cons v t vs ts hv hvs ih =>
    obtain ⟨n, rfl⟩ : ∃ m, n = m + 1 := ⟨n - 1, by omega⟩
    obtain ⟨u, hu, hlen, hskip⟩ := hv.skip
    cases hvs with
    | nil =>
      rw [joinSep_singleton] at hn ⊢
      rw [readItems, hskip, hu.read n _ (by omega) (stops_blank he (by decide) r),
        Option.bind_some, skipBlanks_blank he (by decide)]
      rfl
    | @cons v' t' vs' ts' hv' hvs' =>
      rw [joinSep_cons t (List.cons_ne_nil t' ts')] at hn ⊢
      rw [List.length_append, List.length_cons] at hn
      have hrest := ih (List.cons_ne_nil t' ts')
        (show (joinSep ',' (t' :: ts')).length < n by omega)
      rw [List.append_assoc, List.cons_append, readItems, hskip,
        hu.read n _ (by omega) (by simp [Stops, isNumberChar]), Option.bind_some,
        skipBlanks_of_dark (by decide)]
      simp only [hrest, Option.map_some]

theorem writes_spaced_arr {vs : List Json} {ts : List Text} (h : List.Forall₂ SpacedItem vs ts)
    {e : Text} (he : Blank e) : Writes (.arr vs) ('[' :: (joinSep ',' ts ++ (e ++ [']']))) := by
  refine ⟨⟨'[', _, rfl, by decide, by decide⟩, fun n r hn _ => ?_⟩
  obtain ⟨n, rfl⟩ : ∃ m, n = m + 1 := ⟨n - 1, by rw [List.length_cons] at hn; omega⟩
  rw [List.length_cons, List.length_append, List.length_append, List.length_singleton] at hn
  rw [List.cons_append, List.append_assoc, List.append_assoc, List.singleton_append, readValue,
    if_neg (by decide), if_pos rfl]
  cases h with
  | nil =>
    rw [joinSep_nil, List.nil_append, skipBlanks_blank he (by decide)]
    rfl
  | @cons v t vs ts hv hvs =>
    have hitems := reads_spaced_items (List.Forall₂.cons hv hvs) (List.cons_ne_nil t ts) he (r := r)
      (show (joinSep ',' (t :: ts)).length < n by omega)
    obtain ⟨u, hu, -, hskip⟩ := hv.skip
    obtain ⟨c, s, hcs, -, hclose⟩ := hu.head
    obtain ⟨w, hw⟩ : ∃ w, skipBlanks (joinSep ',' (t :: ts) ++ (e ++ ']' :: r)) = c :: w := by
      cases ts with
      | nil => exact ⟨_, by rw [joinSep_singleton, hskip, hcs, List.cons_append]⟩
      | cons t' ts =>
        exact ⟨_, by rw [joinSep_cons t (List.cons_ne_nil t' ts), List.append_assoc, hskip, hcs,
          List.cons_append]⟩
    rw [← readItems_skipBlanks, hw] at hitems
    rw [hw]
    split
    · next heq => exact absurd (List.cons.inj heq).1 hclose
    · rw [hitems]
      rfl

theorem SpacedField.read {f : Text × Json} {t : Text} (h : SpacedField f t) :
    ∃ k b u, WritesChars f.1 k ∧ Blank b ∧ Writes f.2 u ∧ u.length ≤ t.length ∧
      ∀ r, skipBlanks (t ++ r) = '"' :: (k ++ '"' :: ':' :: (b ++ (u ++ r))) := by
  obtain ⟨b, k, b', u, hb, hk, hb', hu, rfl⟩ := h
  refine ⟨k, b', u, hk, hb', hu, ?_, fun r => ?_⟩
  · simp only [List.length_append, List.length_cons]
    omega
  · rw [List.append_assoc, List.cons_append, skipBlanks_blank hb (by decide), List.append_assoc,
      List.cons_append, List.cons_append, List.append_assoc]

/-- The fields of an object, and the blanks before it is closed. -/
theorem reads_spaced_fields {fs : List (Text × Json)} {ts : List Text}
    (h : List.Forall₂ SpacedField fs ts) (hne : ts ≠ []) {e : Text} (he : Blank e) {n : Nat}
    {r : Text} (hn : (joinSep ',' ts).length < n) :
    readFields n (joinSep ',' ts ++ (e ++ '}' :: r)) = some (fs, r) := by
  induction h generalizing n with
  | nil => exact absurd rfl hne
  | @cons f t fs ts hf hfs ih =>
    obtain ⟨n, rfl⟩ : ∃ m, n = m + 1 := ⟨n - 1, by omega⟩
    obtain ⟨k, b, u, hk, hb, hu, hlen, hskip⟩ := hf.read
    obtain ⟨c, s, hcs, hdark, -⟩ := hu.head
    have hkey : ∀ r, readChars (k ++ '"' :: r) = some (f.1, r) := by
      intro r
      rw [hk]
      simp [readChars]
    have hvalue : ∀ r, skipBlanks (b ++ (u ++ r)) = u ++ r := by
      intro r
      rw [hcs, List.cons_append, skipBlanks_blank hb hdark]
    cases hfs with
    | nil =>
      rw [joinSep_singleton] at hn ⊢
      have hread := hu.read n (e ++ '}' :: r) (by omega) (stops_blank he (by decide) r)
      rw [readFields, hskip]
      simp only [hkey, Option.bind_some, skipBlanks_of_dark (show 32 < ':'.toNat by decide), hvalue,
        hread, skipBlanks_blank he (show 32 < '}'.toNat by decide)]
    | @cons f' t' fs' ts' hf' hfs' =>
      rw [joinSep_cons _ (List.cons_ne_nil t' ts')] at hn ⊢
      rw [List.length_append, List.length_cons] at hn
      have hrest := ih (List.cons_ne_nil t' ts')
        (show (joinSep ',' (t' :: ts')).length < n by omega)
      have hread := hu.read n (',' :: (joinSep ',' (t' :: ts') ++ (e ++ '}' :: r))) (by omega)
        (by simp [Stops, isNumberChar])
      rw [List.append_assoc, List.cons_append, readFields, hskip]
      simp only [hkey, Option.bind_some, skipBlanks_of_dark (show 32 < ':'.toNat by decide), hvalue,
        hread, skipBlanks_of_dark (show 32 < ','.toNat by decide), hrest, Option.map_some]

theorem writes_spaced_obj {fs : List (Text × Json)} {ts : List Text}
    (h : List.Forall₂ SpacedField fs ts) {e : Text} (he : Blank e) :
    Writes (.obj fs) ('{' :: (joinSep ',' ts ++ (e ++ ['}']))) := by
  refine ⟨⟨'{', _, rfl, by decide, by decide⟩, fun n r hn _ => ?_⟩
  obtain ⟨n, rfl⟩ : ∃ m, n = m + 1 := ⟨n - 1, by rw [List.length_cons] at hn; omega⟩
  rw [List.length_cons, List.length_append, List.length_append, List.length_singleton] at hn
  rw [List.cons_append, List.append_assoc, List.append_assoc, List.singleton_append, readValue,
    if_neg (by decide), if_neg (by decide), if_pos rfl]
  cases h with
  | nil =>
    rw [joinSep_nil, List.nil_append, skipBlanks_blank he (by decide)]
    rfl
  | @cons f t fs ts hf hfs =>
    have hfields := reads_spaced_fields (List.Forall₂.cons hf hfs) (List.cons_ne_nil t ts) he
      (r := r) (show (joinSep ',' (t :: ts)).length < n by omega)
    obtain ⟨k, b, u, -, -, -, -, hskip⟩ := hf.read
    obtain ⟨w, hw⟩ : ∃ w, skipBlanks (joinSep ',' (t :: ts) ++ (e ++ '}' :: r)) = '"' :: w := by
      cases ts with
      | nil => exact ⟨_, by rw [joinSep_singleton, hskip]⟩
      | cons t' ts =>
        exact ⟨_, by rw [joinSep_cons t (List.cons_ne_nil t' ts), List.append_assoc, hskip]⟩
    rw [← readFields_skipBlanks, hw] at hfields
    rw [hw]
    split
    · next heq => exact absurd (List.cons.inj heq).1 (by decide)
    · rw [hfields]
      rfl

/-! ## 3. The printer -/

/-- `%04x`. -/
def hexUnit (n : Nat) : Text :=
  List.replicate (4 - (Nat.toDigits 16 n).length) '0' ++ Nat.toDigits 16 n

/-- A character of a string. -/
def printChar (c : Char) : Text :=
  if c = '"' then ['\\', '"']
  else if c = '\\' then ['\\', '\\']
  else if c = '\x08' then ['\\', 'b']
  else if c = '\x0c' then ['\\', 'f']
  else if c = '\n' then ['\\', 'n']
  else if c = '\r' then ['\\', 'r']
  else if c = '\t' then ['\\', 't']
  else if c.toNat < 32 then '\\' :: 'u' :: hexUnit c.toNat
  else [c]

/-- A string. -/
def printString (s : Text) : Text := '"' :: (s.flatMap printChar ++ ['"'])

/-- The blanks before a field, or before an object is closed. -/
def printIndent (format : Bool) (depth : Nat) : Text :=
  if format then '\n' :: List.replicate depth '\t' else []

/-- The blank before a value. -/
def printTab (format : Bool) : Text := if format then ['\t'] else []

/-- The blank before an item that is not the first. -/
def printSpace (format : Bool) : Text := if format then [' '] else []

mutual

/-- A value, and `depth` objects and arrays around it. -/
def printValue (format : Bool) (depth : Nat) : Json → Text
  | .word w => w
  | .num d => intDecimal d
  | .str s => printString s
  | .arr [] => ['[', ']']
  | .arr (v :: vs) =>
    '[' :: (joinSep ',' (printValue format (depth + 1) v :: printItems format (depth + 1) vs) ++
      [']'])
  | .obj fields =>
    '{' :: (joinSep ',' (printFields format (depth + 1) fields) ++
      (printIndent format depth ++ ['}']))

/-- The items of an array after the first. -/
def printItems (format : Bool) (depth : Nat) : List Json → List Text
  | [] => []
  | v :: vs => (printSpace format ++ printValue format depth v) :: printItems format depth vs

/-- The fields of an object. -/
def printFields (format : Bool) (depth : Nat) : List (Text × Json) → List Text
  | [] => []
  | (k, v) :: fs =>
    (printIndent format depth ++ (printString k ++ ':' :: (printTab format ++
      printValue format depth v))) :: printFields format depth fs

end

/-- What is printed and read back: numbers of at most 15 digits, and `depth` levels. A longer
number is printed with an exponent, and a deeper value is refused by the reader. -/
inductive Printable : Nat → Json → Prop
  | word {k : Nat} {w : Text} (h : w ∈ ["null".toList, "false".toList, "true".toList]) :
    Printable k (.word w)
  | num {k : Nat} {d : Int} (hl : -(10 ^ 15) < d) (hu : d < 10 ^ 15) : Printable k (.num d)
  | str {k : Nat} {s : Text} (h : '\x00' ∉ s) : Printable k (.str s)
  | arr {k : Nat} {vs : List Json} (h : ∀ v ∈ vs, Printable k v) : Printable (k + 1) (.arr vs)
  | obj {k : Nat} {fs : List (Text × Json)} (hkey : ∀ f ∈ fs, '\x00' ∉ f.1)
    (h : ∀ f ∈ fs, Printable k f.2) : Printable (k + 1) (.obj fs)

/-! ## 4. What is printed is read back

By induction on the value; the cases of arrays and objects are those of the second section, with
the blanks that the printer puts there. -/

theorem writes_printChar (c : Char) : WritesChars [c] (printChar c) := by
  rw [printChar]
  split_ifs with hquote hback hbs hff hlf hcr htab hctrl
  · subst hquote
    exact writesChars_escape (by decide) (by decide)
  · subst hback
    exact writesChars_escape (by decide) (by decide)
  · subst hbs
    exact writesChars_escape (by decide) (by decide)
  · subst hff
    exact writesChars_escape (by decide) (by decide)
  · subst hlf
    exact writesChars_escape (by decide) (by decide)
  · subst hcr
    exact writesChars_escape (by decide) (by decide)
  · subst htab
    exact writesChars_escape (by decide) (by decide)
  · have hdigits : ∀ n < 32, ∃ a b c d, hexUnit n = [a, b, c, d] ∧
        hexChar a b c d = some (Char.ofNat n) := by
      intro n hn
      refine ⟨(hexUnit n).getD 0 ' ', (hexUnit n).getD 1 ' ', (hexUnit n).getD 2 ' ',
        (hexUnit n).getD 3 ' ', ?_⟩
      revert n
      decide
    obtain ⟨a, b, d, e, hhex, hchar⟩ := hdigits c.toNat hctrl
    rw [Char.ofNat_toNat] at hchar
    rw [hhex]
    exact writesChars_hex hchar
  · exact writesChars_self hquote hback

theorem writes_printString (s : Text) : Writes (.str s) (printString s) :=
  writes_str (.flatMap fun c _ => writes_printChar c)

theorem writes_word {w : Text} (h : w ∈ ["null".toList, "false".toList, "true".toList]) :
    Writes (.word w) w := by
  have h : w = "null".toList ∨ w = "false".toList ∨ w = "true".toList := by
    simpa only [List.mem_cons, List.not_mem_nil, or_false] using h
  have hread : ∀ r, readWord (w ++ r) = some (.word w, r) := by
    intro r
    rcases h with rfl | rfl | rfl <;> rfl
  have hhead : ∃ c s, w = c :: s ∧ 32 < c.toNat ∧ c ≠ ']' ∧ c ≠ '"' ∧ c ≠ '[' ∧ c ≠ '{' ∧
      ¬(c = '-' ∨ c.isDigit = true) := by
    rcases h with rfl | rfl | rfl
    · exact ⟨'n', "ull".toList, rfl, by decide⟩
    · exact ⟨'f', "alse".toList, rfl, by decide⟩
    · exact ⟨'t', "rue".toList, rfl, by decide⟩
  obtain ⟨c, s, hcs, hdark, hclose, hquote, harr, hobj, hnum⟩ := hhead
  refine ⟨⟨c, s, hcs, hdark, hclose⟩, fun n r hn _ => ?_⟩
  cases n with
  | zero =>
    rw [hcs] at hn
    exact absurd hn (by simp)
  | succ n =>
    have hread := hread r
    rw [hcs, List.cons_append] at hread ⊢
    rw [readValue, if_neg hquote, if_neg harr, if_neg hobj, if_neg hnum, hread]

theorem nearestDouble_plain {d : Int} (hl : -(10 ^ 15) < d) (hu : d < 10 ^ 15) :
    nearestDouble d = d := by
  have hsmall : nearestNat d.natAbs = d.natAbs := if_pos (by omega)
  rw [nearestDouble, hsmall]
  split <;> omega

theorem writes_plain_num {d : Int} (hl : -(10 ^ 15) < d) (hu : d < 10 ^ 15) :
    Writes (.num d) (intDecimal d) := by
  have h := writes_num (z := d) (by omega) (by simp only [longMax]; omega)
  rwa [nearestDouble_plain hl hu] at h

theorem blank_printIndent (format : Bool) (depth : Nat) : Blank (printIndent format depth) := by
  rw [printIndent]
  split
  · exact .cons (by decide) (.tabs depth)
  · exact .nil

theorem blank_printTab (format : Bool) : Blank (printTab format) := by
  cases format
  · exact .nil
  · exact .cons (by decide) .nil

theorem blank_printSpace (format : Bool) : Blank (printSpace format) := by
  cases format
  · exact .nil
  · exact .cons (by decide) .nil

variable {format : Bool}

theorem spaced_printItems {depth : Nat} {vs : List Json}
    (h : ∀ v ∈ vs, Writes v (printValue format depth v)) :
    List.Forall₂ SpacedItem vs (printItems format depth vs) := by
  induction vs with
  | nil =>
    rw [printItems]
    exact .nil
  | cons v vs ih =>
    rw [printItems]
    refine .cons ⟨_, _, blank_printSpace format, h v List.mem_cons_self, rfl⟩ ?_
    exact ih fun v hv => h v (List.mem_cons_of_mem _ hv)

theorem spaced_printFields {depth : Nat} {fs : List (Text × Json)}
    (h : ∀ f ∈ fs, Writes f.2 (printValue format depth f.2)) :
    List.Forall₂ SpacedField fs (printFields format depth fs) := by
  induction fs with
  | nil =>
    rw [printFields]
    exact .nil
  | cons f fs ih =>
    obtain ⟨k, v⟩ := f
    rw [printFields]
    refine .cons ⟨_, k.flatMap printChar, _, _, blank_printIndent format depth,
      .flatMap fun c _ => writes_printChar c, blank_printTab format, h _ List.mem_cons_self, ?_⟩ ?_
    · rw [printString, List.cons_append, List.append_assoc, List.singleton_append]
    · exact ih fun f hf => h f (List.mem_cons_of_mem _ hf)

/-- **What is printed is read back**, by induction on the value, with or without blanks and at any
depth of indentation. -/
theorem writes_printValue {k : Nat} {v : Json} (h : Printable k v) (depth : Nat) :
    Writes v (printValue format depth v) := by
  induction h generalizing depth with
  | word h =>
    rw [printValue]
    exact writes_word h
  | num hl hu =>
    rw [printValue]
    exact writes_plain_num hl hu
  | str h =>
    rw [printValue]
    exact writes_printString _
  | @arr k vs h ih =>
    cases vs with
    | nil =>
      rw [printValue]
      exact writes_spaced_arr (e := []) .nil .nil
    | cons v vs =>
      rw [printValue]
      refine writes_spaced_arr (e := []) (.cons ?_ (spaced_printItems fun v hv => ?_)) .nil
      · exact ⟨[], _, .nil, ih v List.mem_cons_self (depth + 1), rfl⟩
      · exact ih v (List.mem_cons_of_mem _ hv) (depth + 1)
  | @obj k fs hkey h ih =>
    rw [printValue]
    refine writes_spaced_obj (spaced_printFields fun f hf => ?_) (blank_printIndent format depth)
    exact ih f hf (depth + 1)

/-! ## 5. No text that is printed has a zero byte -/

theorem nul_printChar (c : Char) : '\x00' ∉ printChar c := by
  rw [printChar]
  split_ifs with hquote hback hbs hff hlf hcr htab hctrl
  · decide
  · decide
  · decide
  · decide
  · decide
  · decide
  · decide
  · have hall : ∀ n < 32, '\x00' ∉ '\\' :: 'u' :: hexUnit n := by decide
    exact hall c.toNat hctrl
  · intro hc
    rw [← List.mem_singleton.mp hc] at hctrl
    exact hctrl (by decide)

theorem nul_printString (s : Text) : '\x00' ∉ printString s := by
  have hbody : '\x00' ∉ s.flatMap printChar := by
    intro h
    obtain ⟨c, -, hc⟩ := List.mem_flatMap.mp h
    exact nul_printChar c hc
  simp [printString, hbody]

theorem nul_joinSep {ts : List Text} (h : ∀ t ∈ ts, '\x00' ∉ t) : '\x00' ∉ joinSep ',' ts := by
  intro hc
  rcases mem_joinSep hc with heq | ⟨t, ht, hct⟩
  · exact absurd heq (by decide)
  · exact h t ht hct

theorem nul_printItems {depth : Nat} {vs : List Json}
    (h : ∀ v ∈ vs, '\x00' ∉ printValue format depth v) :
    ∀ t ∈ printItems format depth vs, '\x00' ∉ t := by
  induction vs with
  | nil =>
    rw [printItems]
    exact nofun
  | cons v vs ih =>
    rw [printItems]
    intro t ht
    rcases List.mem_cons.mp ht with rfl | ht
    · have hspace : '\x00' ∉ printSpace format := by cases format <;> decide
      exact List.not_mem_append hspace (h v List.mem_cons_self)
    · exact ih (fun v hv => h v (List.mem_cons_of_mem _ hv)) t ht

theorem nul_printIndent (depth : Nat) : '\x00' ∉ printIndent format depth := by
  rw [printIndent]
  split
  · simp
  · exact List.not_mem_nil

theorem nul_printFields {depth : Nat} {fs : List (Text × Json)}
    (h : ∀ f ∈ fs, '\x00' ∉ printValue format depth f.2) :
    ∀ t ∈ printFields format depth fs, '\x00' ∉ t := by
  induction fs with
  | nil =>
    rw [printFields]
    exact nofun
  | cons f fs ih =>
    obtain ⟨k, v⟩ := f
    rw [printFields]
    intro t ht
    rcases List.mem_cons.mp ht with rfl | ht
    · have htab : '\x00' ∉ printTab format := by cases format <;> decide
      refine List.not_mem_append (nul_printIndent depth)
        (List.not_mem_append (nul_printString k) ?_)
      exact List.not_mem_cons_of_ne_of_not_mem (by decide)
        (List.not_mem_append htab (h _ List.mem_cons_self))
    · exact ih (fun f hf => h f (List.mem_cons_of_mem _ hf)) t ht

theorem nul_printValue {k : Nat} {v : Json} (h : Printable k v) (depth : Nat) :
    '\x00' ∉ printValue format depth v := by
  induction h generalizing depth with
  | word h =>
    rw [printValue]
    intro hc
    simp only [List.mem_cons, List.not_mem_nil, or_false] at h
    rcases h with rfl | rfl | rfl <;> revert hc <;> decide
  | num hl hu =>
    rw [printValue]
    intro hc
    rcases mem_intDecimal hc with heq | hdigit
    · exact absurd heq (by decide)
    · exact absurd hdigit (by decide)
  | str h =>
    rw [printValue]
    exact nul_printString _
  | @arr k vs h ih =>
    cases vs with
    | nil =>
      rw [printValue]
      decide
    | cons v vs =>
      rw [printValue]
      refine List.not_mem_cons_of_ne_of_not_mem (by decide)
        (List.not_mem_append (nul_joinSep fun t ht => ?_) (by decide))
      rcases List.mem_cons.mp ht with rfl | ht
      · exact ih v List.mem_cons_self (depth + 1)
      · exact nul_printItems (fun v hv => ih v (List.mem_cons_of_mem _ hv) (depth + 1)) t ht
  | @obj k fs hkey h ih =>
    rw [printValue]
    refine List.not_mem_cons_of_ne_of_not_mem (by decide) (List.not_mem_append
      (nul_joinSep (nul_printFields fun f hf => ih f hf (depth + 1))) ?_)
    exact List.not_mem_append (nul_printIndent depth) (by decide)

end JsonText
