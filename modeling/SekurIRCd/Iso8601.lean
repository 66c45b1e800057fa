/-
# Times as text

Times are kept in milliseconds and shown as `YYYY-MM-DDThh:mm:ss.mmmZ`.  They are read back with
`sscanf`, which skips blanks and takes signs and numbers of any length, and the days come from a
formula over the civil calendar.

What is printed is read back, and every time of the calendar is read as what it is.  But not every
other text is refused: whatever looks like six numbers between the right characters is taken, with
a day that the month may not have, and what stands behind the seconds or the fraction is not looked
at (`parseIso8601_exact_iff`).
-/
import SekurIRCd.Lib.Calendar
import SekurIRCd.Lib.CString
import Mathlib.Data.List.TakeWhile

namespace SekurIRCd

open CLib Calendar

/-! ## 1. Writing and reading

Years before 1970 are not printed, so numbers are natural here and integers only where they are
read. `%d` takes what `strtol` takes and keeps 32 bits of it. -/

/-- `%04d` and the like, of a number that is not negative. -/
def zeroPadded (w n : Nat) : Text := List.replicate (w - (decimal n).length) '0' ++ decimal n

/-- The fields of a time. -/
structure IsoFields (N : Type) where
  year : N
  month : N
  day : N
  hour : N
  min : N
  sec : N
deriving DecidableEq, Repr

/-- `gmtime_r`, from 1970 on; year and month are as they are shown. -/
def gmtime (sec : Nat) : IsoFields Nat :=
  let date := dateOfDay 1970 (sec / 86400)
  ⟨date.1, date.2.1, date.2.2, sec / 3600 % 24, sec / 60 % 60, sec % 60⟩

/-- The text of a time up to the seconds. -/
def isoText (f : IsoFields Nat) (tail : Text) : Text :=
  zeroPadded 4 f.year ++ '-' :: (zeroPadded 2 f.month ++ '-' :: (zeroPadded 2 f.day ++ 'T' ::
    (zeroPadded 2 f.hour ++ ':' :: (zeroPadded 2 f.min ++ ':' :: (zeroPadded 2 f.sec ++ tail)))))

/-- `irc_iso8601_from_ms`, of a time from 1970 on. -/
def ircIso8601FromMs (outsz ms : Nat) : Text :=
  clip outsz (isoText (gmtime (ms / 1000)) ('.' :: (zeroPadded 3 (ms % 1000) ++ ['Z'])))

/-- `%d`. -/
def scanInt (s : Text) : Option (Int × Text) := (strtol s).map fun p => (p.1.bmod (2 ^ 32), p.2)

/-- `%d`, and a character behind it. -/
def scanUpTo (c : Char) (s : Text) : Option (Int × Text) :=
  match scanInt s with
  | some (z, x :: r) => if x = c then some (z, r) else none
  | _ => none

/-- `%d-%d-%dT%d:%d:%d`, and what is behind. -/
def scanFields (s : Text) : Option (IsoFields Int × Text) := do
  let (year, s) ← scanUpTo '-' s
  let (month, s) ← scanUpTo '-' s
  let (day, s) ← scanUpTo 'T' s
  let (hour, s) ← scanUpTo ':' s
  let (min, s) ← scanUpTo ':' s
  let (sec, s) ← scanInt s
  some (⟨year, month, day, hour, min, sec⟩, s)

/-- `.%d`. -/
def scanFraction : Text → Option (Int × Text)
  | '.' :: s => scanInt s
  | _ => none

/-- The days from 1970 to a date.  All quotients but that of `era` are of numbers that are not
negative. -/
def civilDays (Y M D : Int) : Int :=
  let y := Y - if M ≤ 2 then 1 else 0
  let era := (if 0 ≤ y then y else y - 399).tdiv 400
  let yoe := y - era * 400
  let doy := (153 * (M + if 2 < M then -3 else 9) + 2) / 5 + D - 1
  let doe := yoe * 365 + yoe / 4 - yoe / 100 + doy
  era * 146097 + doe - 719468

/-- A `long long`; where it does not fit C does not say what it is, and there is none. -/
def fitsLong (z : Int) : Option Int := if -(2 ^ 63) ≤ z ∧ z ≤ longMax then some z else none

/-- The numbers are in range, as far as they are looked at. -/
def IsoFields.InRange (f : IsoFields Int) (msec : Int) : Prop :=
  1 ≤ f.month ∧ f.month ≤ 12 ∧ 1 ≤ f.day ∧ f.day ≤ 31 ∧ f.hour ≤ 23 ∧ f.min ≤ 59 ∧ f.sec ≤ 60 ∧
    0 ≤ msec ∧ msec ≤ 999

instance (f : IsoFields Int) (msec : Int) : Decidable (f.InRange msec) :=
  inferInstanceAs (Decidable (1 ≤ f.month ∧ f.month ≤ 12 ∧ 1 ≤ f.day ∧ f.day ≤ 31 ∧ f.hour ≤ 23 ∧
    f.min ≤ 59 ∧ f.sec ≤ 60 ∧ 0 ≤ msec ∧ msec ≤ 999))

/-- The milliseconds up to the minute. -/
def IsoFields.minuteMs (f : IsoFields Int) : Int :=
  ((civilDays f.year f.month f.day * 24 + f.hour) * 60 + f.min) * 60000

/-- The end of `irc_parse_iso8601_ms`. -/
def isoFinish (f : IsoFields Int) (msec : Int) : Option Int :=
  if f.InRange msec then
    (fitsLong f.minuteMs).bind fun a =>
      (fitsLong (a + f.sec * 1000)).bind fun b => fitsLong (b + msec)
  else some (-1)

/-- `irc_parse_iso8601_ms`. The result is -1 for what is refused, and `none` where the sum would
overflow, which C leaves open. -/
def ircParseIso8601Ms (s : Text) : Option Int :=
  match scanFields s with
  | none => some (-1)
  | some (f, rest) =>
    match scanFraction rest, rest with
    -- all eight: what the last one is, is not looked at
    | some (msec, _ :: _), _ => isoFinish f msec
    -- seven, so the text is over
    | some (msec, []), _ => if s.getLast? ≠ some 'Z' then some (-1) else isoFinish f msec
    -- six, and the second format wants any one more
    | none, [] => some (-1)
    | none, _ :: _ => isoFinish f 0

/-! ## 2. What a time is

What a text is to mean is said by the calendar of `Lib.Calendar`, with neither a parser nor the
formula for the days. -/

/-- The milliseconds of a time of the calendar. -/
def calendarMs (f : IsoFields Nat) (msec : Nat) : Int :=
  (((dayNumber f.year f.month f.day : Int) - dayNumber 1970 1 1) * 86400 + f.hour * 3600 +
    f.min * 60 + f.sec) * 1000 + msec

/-- A time of the calendar, with a year of four digits. -/
structure IsoFields.IsTime (f : IsoFields Nat) : Prop where
  year : f.year < 10000
  date : IsDate f.year f.month f.day
  hour : f.hour < 24
  min : f.min < 60
  sec : f.sec < 60

/-- **A text names a time**: `YYYY-MM-DDThh:mm:ssZ`, or with the milliseconds before the `Z`. Each
field has its full width, and the day is one that the month has. -/
inductive Names : Text → Int → Prop
  | seconds {f : IsoFields Nat} (h : f.IsTime) : Names (isoText f ['Z']) (calendarMs f 0)
  | millis {f : IsoFields Nat} {msec : Nat} (h : f.IsTime) (hms : msec < 1000) :
    Names (isoText f ('.' :: (zeroPadded 3 msec ++ ['Z']))) (calendarMs f msec)

/-- **A text is read exactly**: as the time it names, or as -1 if it names none. What a text names
is said by the grammar of the format, not by the scan. -/
def ReadExactly (text : Text) : Prop :=
  (∀ ms, Names text ms → ircParseIso8601Ms text = some ms) ∧
    ((∀ ms, ¬ Names text ms) → ircParseIso8601Ms text = some (-1))

/-! ## 3. What is taken

The grammar of what `sscanf` accepts, on the text alone. It is wider than that of a time. -/

/-- A number as `%d` takes it: blanks, a sign and digits. -/
inductive NumText : Text → Int → Prop
  | mk {blanks sign digits : Text} (hblanks : ∀ c ∈ blanks, isSpace c = true)
    (hsign : sign = [] ∨ sign = ['+'] ∨ sign = ['-']) (hne : digits ≠ [])
    (hdigits : ∀ c ∈ digits, c.isDigit = true) :
    NumText (blanks ++ (sign ++ digits)) ((clampLong (if sign = ['-'] then
      -(Nat.ofDigitChars 10 digits 0 : Int) else Nat.ofDigitChars 10 digits 0)).bmod (2 ^ 32))

/-- What may stand behind the seconds, and the milliseconds that are read from it. -/
inductive LooseTail : Text → Int → Prop
  | fraction {t : Text} {msec : Int} {z : Char} {tail : Text} (h : NumText t msec)
    (hz : z.isDigit = false) : LooseTail ('.' :: (t ++ z :: tail)) msec
  | plain {z : Char} {tail : Text} (hz : z.isDigit = false)
    (hnum : z = '.' → ∀ t r msec, tail = t ++ r → ¬ NumText t msec) : LooseTail (z :: tail) 0

/-- **A text that is taken**: six numbers with the right characters between them, and a tail. What
a number is here is up to `%d`, and the tail may be followed by anything. -/
inductive LooseTime : Text → IsoFields Int → Int → Prop
  | mk {f : IsoFields Int} {msec : Int} {a b c d e g rest : Text} (ha : NumText a f.year)
    (hb : NumText b f.month) (hc : NumText c f.day) (hd : NumText d f.hour) (he : NumText e f.min)
    (hg : NumText g f.sec) (hrest : LooseTail rest msec) (hrange : f.InRange msec) :
    LooseTime (a ++ '-' :: (b ++ '-' :: (c ++ 'T' :: (d ++ ':' :: (e ++ ':' :: (g ++ rest))))))
      f msec

/-- The milliseconds of numbers at face value. -/
def looseMs (f : IsoFields Int) (msec : Int) : Int := f.minuteMs + f.sec * 1000 + msec

/-! ## 4. The numbers -/

theorem takeSign_append {sign : Text} (hsign : sign = [] ∨ sign = ['+'] ∨ sign = ['-']) {d : Char}
    (hd : d.isDigit = true) (s : Text) :
    takeSign (sign ++ d :: s) = (decide (sign = ['-']), d :: s) := by
  rcases hsign with rfl | rfl | rfl
  · exact takeSign_of_digit hd s
  · rfl
  · rfl

theorem dropWhile_sign {sign : Text} (hsign : sign = [] ∨ sign = ['+'] ∨ sign = ['-']) {d : Char}
    (hd : d.isDigit = true) (s : Text) : (sign ++ d :: s).dropWhile isSpace = sign ++ d :: s := by
  rcases hsign with rfl | rfl | rfl
  · exact List.dropWhile_cons_of_neg (by simp [isSpace_of_isDigit hd])
  · rfl
  · rfl

/-- A number is read whole, up to what is no digit. -/
theorem scanInt_append {t r : Text} {z : Int} (h : NumText t z)
    (hr : ∀ c ∈ r.head?, c.isDigit = false) : scanInt (t ++ r) = some (z, r) := by
  obtain @⟨blanks, sign, digits, hblanks, hsign, hne, hdigits⟩ := h
  obtain ⟨d, ds, rfl⟩ := List.exists_cons_of_ne_nil hne
  have hd : d.isDigit = true := hdigits d List.mem_cons_self
  have htake : ((d :: ds) ++ r).takeWhile Char.isDigit = d :: ds := by
    rw [List.takeWhile_append_of_pos hdigits]
    cases r with
    | nil => rw [List.takeWhile_nil, List.append_nil]
    | cons c r =>
      rw [List.takeWhile_cons_of_neg (by simp [hr c rfl]), List.append_nil]
  have hdrop : ((d :: ds) ++ r).dropWhile Char.isDigit = r := by
    rw [List.dropWhile_append_of_pos hdigits]
    cases r with
    | nil => rfl
    | cons c r => exact List.dropWhile_cons_of_neg (by simp [hr c rfl])
  have hspace : (blanks ++ (sign ++ d :: ds) ++ r).dropWhile isSpace = sign ++ d :: (ds ++ r) := by
    rw [List.append_assoc, List.append_assoc, List.dropWhile_append_of_pos hblanks]
    exact dropWhile_sign hsign hd _
  rw [scanInt, strtol, hspace, takeSign_append hsign hd]
  simp only [← List.cons_append, htake, hdrop, hne, if_false, decide_eq_true_eq, Option.map_some]

theorem scanInt_some {s r : Text} {z : Int} (h : scanInt s = some (z, r)) :
    ∃ t, s = t ++ r ∧ NumText t z ∧ ∀ c ∈ r.head?, c.isDigit = false := by
  obtain ⟨p, hp, heq⟩ := Option.map_eq_some_iff.mp h
  obtain ⟨rfl, rfl⟩ := Prod.mk.inj heq
  rw [strtol] at hp
  obtain ⟨hne, hp⟩ := (Option.ite_none_left_eq_some).mp hp
  have hval := Option.some.inj hp
  have hsign : ∃ sign, (sign = [] ∨ sign = ['+'] ∨ sign = ['-']) ∧
      s.dropWhile isSpace = sign ++ (takeSign (s.dropWhile isSpace)).2 ∧
      (takeSign (s.dropWhile isSpace)).1 = decide (sign = ['-']) := by
    generalize s.dropWhile isSpace = s'
    unfold takeSign
    split
    · exact ⟨['-'], Or.inr (Or.inr rfl), rfl, rfl⟩
    · exact ⟨['+'], Or.inr (Or.inl rfl), rfl, rfl⟩
    · exact ⟨[], Or.inl rfl, rfl, rfl⟩
  obtain ⟨sign, hsign, hs, hminus⟩ := hsign
  have hdigits : ∀ c ∈ (takeSign (s.dropWhile isSpace)).2.takeWhile Char.isDigit,
      c.isDigit = true := fun c hc => List.mem_takeWhile_imp hc
  refine ⟨s.takeWhile isSpace ++ (sign ++
    (takeSign (s.dropWhile isSpace)).2.takeWhile Char.isDigit), ?_, ?_, ?_⟩
  · rw [← hval, List.append_assoc, List.append_assoc, List.takeWhile_append_dropWhile, ← hs,
      List.takeWhile_append_dropWhile]
  · rw [← hval, hminus]
    simp only [decide_eq_true_eq]
    exact NumText.mk (fun c hc => List.mem_takeWhile_imp hc) hsign hne hdigits
  · rw [← hval]
    intro c hc
    exact (List.head?_dropWhile_not Char.isDigit _ |> fun hnot => by
      rw [hc] at hnot
      exact hnot)

theorem scanInt_ne_none {t r : Text} {z : Int} (h : NumText t z) : scanInt (t ++ r) ≠ none := by
  obtain @⟨blanks, sign, digits, hblanks, hsign, hne, hdigits⟩ := h
  have hmore : NumText (blanks ++ (sign ++ (digits ++ r.takeWhile Char.isDigit))) _ :=
    NumText.mk hblanks hsign (List.append_ne_nil_of_left_ne_nil hne _) fun c hc =>
      (List.mem_append.mp hc).elim (hdigits c) List.mem_takeWhile_imp
  have hscan := scanInt_append (r := r.dropWhile Char.isDigit) hmore fun c hc => by
    have hnot := List.head?_dropWhile_not Char.isDigit r
    rw [hc] at hnot
    exact hnot
  simp only [List.append_assoc, List.takeWhile_append_dropWhile] at hscan ⊢
  rw [hscan]
  exact Option.some_ne_none _

theorem scanUpTo_iff {c : Char} (hc : c.isDigit = false) {s r : Text} {z : Int} :
    scanUpTo c s = some (z, r) ↔ ∃ t, s = t ++ c :: r ∧ NumText t z := by
  constructor
  · intro h
    rw [scanUpTo] at h
    split at h
    next z' x r' hscan =>
      split at h
      next hx =>
        obtain ⟨rfl, rfl⟩ := Prod.mk.inj (Option.some.inj h)
        obtain ⟨t, hs, ht, -⟩ := scanInt_some hscan
        exact ⟨t, hx ▸ hs, ht⟩
      next => exact absurd h (Option.some_ne_none _).symm
    next => exact absurd h (Option.some_ne_none _).symm
  · rintro ⟨t, rfl, ht⟩
    rw [scanUpTo, scanInt_append ht (by rintro x ⟨⟩; exact hc)]
    exact if_pos rfl

/-- **Six numbers** are read from a text that has them, and from no other. -/
theorem scanFields_iff {s rest : Text} {f : IsoFields Int} :
    scanFields s = some (f, rest) ↔ ∃ a b c d e g,
      s = a ++ '-' :: (b ++ '-' :: (c ++ 'T' :: (d ++ ':' :: (e ++ ':' :: (g ++ rest))))) ∧
      NumText a f.year ∧ NumText b f.month ∧ NumText c f.day ∧ NumText d f.hour ∧
      NumText e f.min ∧ NumText g f.sec ∧ ∀ x ∈ rest.head?, x.isDigit = false := by
  constructor
  · intro h
    simp only [scanFields, Option.bind_eq_bind, Option.bind_eq_some_iff, Prod.exists] at h
    obtain ⟨year, s₁, h₁, month, s₂, h₂, day, s₃, h₃, hour, s₄, h₄, min, s₅, h₅, sec, s₆, h₆,
      heq⟩ := h
    obtain ⟨rfl, rfl⟩ := Prod.mk.inj (Option.some.inj heq)
    obtain ⟨a, rfl, ha⟩ := (scanUpTo_iff (by decide)).mp h₁
    obtain ⟨b, rfl, hb⟩ := (scanUpTo_iff (by decide)).mp h₂
    obtain ⟨c, rfl, hc⟩ := (scanUpTo_iff (by decide)).mp h₃
    obtain ⟨d, rfl, hd⟩ := (scanUpTo_iff (by decide)).mp h₄
    obtain ⟨e, rfl, he⟩ := (scanUpTo_iff (by decide)).mp h₅
    obtain ⟨g, rfl, hg, hrest⟩ := scanInt_some h₆
    exact ⟨a, b, c, d, e, g, rfl, ha, hb, hc, hd, he, hg, hrest⟩
  · rintro ⟨a, b, c, d, e, g, rfl, ha, hb, hc, hd, he, hg, hrest⟩
    simp only [scanFields, Option.bind_eq_bind, Option.bind_eq_some_iff, Prod.exists]
    exact ⟨_, _, (scanUpTo_iff (by decide)).mpr ⟨a, rfl, ha⟩,
      _, _, (scanUpTo_iff (by decide)).mpr ⟨b, rfl, hb⟩,
      _, _, (scanUpTo_iff (by decide)).mpr ⟨c, rfl, hc⟩,
      _, _, (scanUpTo_iff (by decide)).mpr ⟨d, rfl, hd⟩,
      _, _, (scanUpTo_iff (by decide)).mpr ⟨e, rfl, he⟩,
      _, _, scanInt_append hg hrest, rfl⟩

/-! ## 5. What is read -/

theorem LooseTail.head {rest : Text} {msec : Int} (h : LooseTail rest msec) :
    ∀ c ∈ rest.head?, c.isDigit = false := by
  cases h with
  | fraction _ _ =>
    rintro c ⟨⟩
    decide
  | plain hz _ =>
    rintro c ⟨⟩
    exact hz

/-- **What is taken** is read, if what it gives fits. -/
theorem parse_of_loose {text : Text} {f : IsoFields Int} {msec : Int} (h : LooseTime text f msec) :
    ircParseIso8601Ms text = isoFinish f msec := by
  cases h with
  | mk ha hb hc hd he hg hrest _ =>
    rw [ircParseIso8601Ms,
      scanFields_iff.mpr ⟨_, _, _, _, _, _, rfl, ha, hb, hc, hd, he, hg, hrest.head⟩]
    cases hrest with
    | @fraction t msec z tail hnum hz =>
      have hscan : scanFraction ('.' :: (t ++ z :: tail)) = some (msec, z :: tail) :=
        scanInt_append hnum (by rintro x ⟨⟩; exact hz)
      simp only [hscan]
    | @plain z tail hz hnum =>
      have hscan : scanFraction (z :: tail) = none := by
        unfold scanFraction
        split
        next s heq =>
          obtain ⟨hdot, rfl⟩ := List.cons.inj heq
          cases hs : scanInt tail with
          | none => rfl
          | some p =>
            obtain ⟨t, hst, ht, -⟩ := scanInt_some (r := p.2) (z := p.1) hs
            exact absurd ht (hnum hdot t p.2 p.1 hst)
        next => rfl
      simp only [hscan]

/-- A text that ends with a number ends with a digit. -/
theorem NumText.getLast {t : Text} {z : Int} (h : NumText t z) (before : Text) :
    (before ++ t).getLast? ≠ some 'Z' := by
  obtain @⟨blanks, sign, digits, -, -, hne, hdigits⟩ := h
  rw [← List.append_assoc, ← List.append_assoc, List.getLast?_append_of_ne_nil _ hne]
  intro hlast
  exact absurd (hdigits 'Z' (List.mem_of_getLast? hlast)) (by decide)

theorem isoFinish_of_not {f : IsoFields Int} {msec : Int} (h : ¬ f.InRange msec) :
    isoFinish f msec = some (-1) := if_neg h

/-- **What is not taken** is refused. -/
theorem parse_of_not_loose {text : Text} (h : ∀ f msec, ¬ LooseTime text f msec) :
    ircParseIso8601Ms text = some (-1) := by
  rw [ircParseIso8601Ms]
  cases hscan : scanFields text with
  | none => rfl
  | some p =>
    obtain ⟨f, rest⟩ := p
    obtain ⟨a, b, c, d, e, g, rfl, ha, hb, hc, hd, he, hg, hrest⟩ := scanFields_iff.mp hscan
    have hnot : ∀ msec, LooseTail rest msec → ¬ f.InRange msec := fun msec htail hrange =>
      h f msec (LooseTime.mk ha hb hc hd he hg htail hrange)
    cases hfrac : scanFraction rest with
    | some q =>
      obtain ⟨msec, behind⟩ := q
      obtain ⟨s, rfl⟩ : ∃ s, rest = '.' :: s := by
        unfold scanFraction at hfrac
        split at hfrac
        next s => exact ⟨s, rfl⟩
        next => exact absurd hfrac (Option.some_ne_none _).symm
      obtain ⟨t, rfl, ht, hbehind⟩ := scanInt_some (show scanInt s = some (msec, behind) from hfrac)
      cases behind with
      | nil =>
        simp only [List.append_nil] at hfrac ⊢
        simp only [hfrac]
        have hlast := ht.getLast (a ++ '-' :: (b ++ '-' :: (c ++ 'T' :: (d ++ ':' ::
          (e ++ ':' :: (g ++ ['.']))))))
        simp only [List.append_assoc, List.cons_append, List.nil_append] at hlast
        exact if_pos hlast
      | cons z tail =>
        simp only [hfrac]
        exact isoFinish_of_not (hnot msec (LooseTail.fraction ht (hbehind z rfl)))
    | none =>
      cases rest with
      | nil => rfl
      | cons z tail =>
        simp only [hfrac]
        refine isoFinish_of_not (hnot 0 (LooseTail.plain (hrest z rfl) ?_))
        rintro rfl t r msec rfl hnum
        exact scanInt_ne_none hnum hfrac

theorem NumText.range {t : Text} {z : Int} (h : NumText t z) : -(2 ^ 31) ≤ z ∧ z < 2 ^ 31 := by
  obtain ⟨⟩ := h
  refine ⟨?_, ?_⟩
  · exact Int.le_bmod (by decide)
  · exact Int.bmod_lt (by decide)

theorem fitsLong_eq_some {z x : Int} :
    fitsLong z = some x ↔ (-(2 ^ 63) ≤ z ∧ z ≤ longMax) ∧ z = x := by
  rw [fitsLong]
  split
  next h => rw [Option.some.injEq, and_iff_right h]
  next h => exact iff_of_false (Option.some_ne_none _).symm fun hx => h hx.1

/-- Numbers in range give -1 exactly if that is what they say. -/
theorem isoFinish_eq_neg_one {f : IsoFields Int} {msec : Int} (h : f.InRange msec)
    (hsec : -(2 ^ 31) ≤ f.sec) : isoFinish f msec = some (-1) ↔ looseMs f msec = -1 := by
  obtain ⟨-, -, -, -, -, -, hsec', hms, hms'⟩ := id h
  rw [isoFinish, if_pos h, looseMs]
  generalize f.minuteMs = a at *
  simp only [Option.bind_eq_some_iff, fitsLong_eq_some, longMax]
  constructor
  · rintro ⟨x, ⟨-, rfl⟩, y, ⟨-, rfl⟩, -, hsum⟩
    exact hsum
  · intro hsum
    exact ⟨a, ⟨by omega, rfl⟩, _, ⟨by omega, rfl⟩, by omega, hsum⟩

/-! ## 6. The calendar

The formula counts from March, in groups of 400 years. It is compared with the sum over years and
months in `dayNumber`. -/

theorem civilEra {y : Int} (h : -1 ≤ y) : (if 0 ≤ y then y else y - 399).tdiv 400 = y / 400 := by
  by_cases hy : 0 ≤ y
  · rw [if_pos hy, Int.tdiv_eq_ediv_of_nonneg hy]
  · rw [if_neg hy, show y = -1 by omega]
    rfl

/-- The years in groups of 400, and the years one after the other. -/
theorem civilYears (y : Int) : y / 400 * 146097 + ((y - y / 400 * 400) * 365 +
    (y - y / 400 * 400) / 4 - (y - y / 400 * 400) / 100) = 365 * y + y / 4 - y / 100 + y / 400 := by
  omega

/-- Whether a year is a leap year is in how its quotients round. -/
theorem leap_quotients (y : Nat) : (y + 3) / 4 + (y + 399) / 400 + y / 100 +
    (if IsLeap y then 1 else 0) = y / 4 + y / 400 + (y + 99) / 100 + 1 := by
  by_cases hleap : IsLeap y
  · rw [if_pos hleap]
    rw [IsLeap] at hleap
    omega
  · rw [if_neg hleap]
    rw [IsLeap, not_and_or, not_or, not_not] at hleap
    omega

theorem civilMonths {m : Nat} (hm : 1 ≤ m) (hle : m ≤ 12) :
    (153 * ((m : Int) + if 2 < (m : Int) then -3 else 9) + 2) / 5 =
      ((367 * m - 362) / 12 : Nat) + if 2 < (m : Int) then -61 else 306 := by
  interval_cases m <;> decide

/-- **The formula counts the days of the calendar.** 719528 is the number of days before 1970. -/
theorem civilDays_eq {y m d : Nat} (hm : 1 ≤ m) (hle : m ≤ 12) (hd : 1 ≤ d) :
    civilDays y m d = (dayNumber y m d : Int) - 719528 := by
  have hyear := daysBeforeYear_eq y
  have hleap := leap_quotients y
  have hmonth := daysBeforeMonth_eq y hm hle
  have hera : -1 ≤ (y : Int) - if (m : Int) ≤ 2 then 1 else 0 := by split <;> omega
  have hyears := civilYears ((y : Int) - if (m : Int) ≤ 2 then 1 else 0)
  unfold civilDays
  dsimp only
  rw [civilEra hera, civilMonths hm hle, dayNumber, Nat.cast_add, Nat.cast_add, Nat.cast_sub hd]
  generalize (367 * m - 362) / 12 = q at *
  by_cases hfeb : m ≤ 2
  · have hfeb' : (m : Int) ≤ 2 := by omega
    rw [if_pos hfeb'] at hyears ⊢
    rw [if_neg (by omega)]
    rw [if_pos hfeb] at hmonth
    -- the year before rounds up
    have h4 : ((y : Int) - 1) / 4 = ((y + 3) / 4 : Nat) - 1 := by omega
    have h100 : ((y : Int) - 1) / 100 = ((y + 99) / 100 : Nat) - 1 := by omega
    have h400 : ((y : Int) - 1) / 400 = ((y + 399) / 400 : Nat) - 1 := by omega
    generalize ((y : Int) - 1 - ((y : Int) - 1) / 400 * 400) = yoe at *
    generalize (y + 3) / 4 = a at *
    generalize (y + 99) / 100 = b at *
    generalize (y + 399) / 400 = c at *
    rw [h4, h100] at hyears
    generalize yoe / 4 = u at *
    generalize yoe / 100 = v at *
    omega
  · have hmar : ¬ (m : Int) ≤ 2 := by omega
    rw [if_neg hmar] at hyears ⊢
    rw [if_pos (by omega)]
    rw [if_neg hfeb] at hmonth
    rw [sub_zero] at hyears ⊢
    have h4 : (y : Int) / 4 = (y / 4 : Nat) := rfl
    have h100 : (y : Int) / 100 = (y / 100 : Nat) := rfl
    have h400 : (y : Int) / 400 = (y / 400 : Nat) := rfl
    generalize ((y : Int) - (y : Int) / 400 * 400) = yoe at *
    rw [h4, h100] at hyears
    rw [h400] at hyears ⊢
    generalize (y + 3) / 4 = a at *
    generalize (y + 99) / 100 = b at *
    generalize (y + 399) / 400 = c at *
    generalize y / 4 = a' at *
    generalize y / 100 = b' at *
    generalize y / 400 = c' at *
    generalize yoe / 4 = u at *
    generalize yoe / 100 = v at *
    by_cases hl : IsLeap y
    · rw [if_pos hl] at hleap hmonth
      omega
    · rw [if_neg hl] at hleap hmonth
      omega

/-! ## 7. What is printed -/

def IsoFields.toInt (f : IsoFields Nat) : IsoFields Int :=
  ⟨f.year, f.month, f.day, f.hour, f.min, f.sec⟩

theorem zeroPadded_digits (w n : Nat) : ∀ c ∈ zeroPadded w n, c.isDigit = true := by
  intro c hc
  rcases List.mem_append.mp hc with hc | hc
  · rw [List.eq_of_mem_replicate hc]
    decide
  · exact isDigit_of_mem_decimal hc

theorem zeroPadded_length {w n : Nat} (hw : 0 < w) (hn : n < 10 ^ w) :
    (zeroPadded w n).length = w := by
  have hle := decimal_length_le hw hn
  rw [zeroPadded, List.length_append, List.length_replicate]
  omega

theorem numText_zeroPadded (w : Nat) {n : Nat} (hn : n < 2 ^ 31) : NumText (zeroPadded w n) n := by
  have hval : Nat.ofDigitChars 10 (zeroPadded w n) 0 = n := by
    rw [zeroPadded, Nat.ofDigitChars_append, Nat.ofDigitChars_replicate_zero, Nat.mul_zero]
    exact Nat.ofDigitChars_ten_toDigits
  have hnum : NumText ([] ++ ([] ++ zeroPadded w n)) _ :=
    NumText.mk (List.forall_mem_nil _) (Or.inl rfl)
      (List.append_ne_nil_of_right_ne_nil _ (decimal_ne_nil n)) (zeroPadded_digits w n)
  rw [hval, if_neg (by simp), clampLong_of_le (by omega) (by rw [longMax]; omega),
    bmod32_of_range (by omega) (by rw [intMax]; omega)] at hnum
  exact hnum

/-- **What is printed is taken**, with a tail that is. -/
theorem looseTime_isoText {f : IsoFields Nat} (h : f.IsTime) {tail : Text} {msec : Int}
    (htail : LooseTail tail msec) (hlo : 0 ≤ msec) (hhi : msec ≤ 999) :
    LooseTime (isoText f tail) f.toInt msec := by
  have hday : f.day ≤ 31 := h.date.day_le.trans (daysInMonth_le ..)
  obtain ⟨hyear, ⟨hm, hle, hd, -⟩, hhour, hmin, hsec⟩ := h
  exact LooseTime.mk (numText_zeroPadded 4 (by omega)) (numText_zeroPadded 2 (by omega))
    (numText_zeroPadded 2 (by omega)) (numText_zeroPadded 2 (by omega))
    (numText_zeroPadded 2 (by omega)) (numText_zeroPadded 2 (by omega)) htail
    ⟨Int.ofNat_le.mpr hm, Int.ofNat_le.mpr hle, Int.ofNat_le.mpr hd, Int.ofNat_le.mpr hday,
      Int.ofNat_le.mpr (Nat.le_of_lt_succ hhour), Int.ofNat_le.mpr (Nat.le_of_lt_succ hmin),
      Int.ofNat_le.mpr hsec.le, hlo, hhi⟩

theorem dayNumber_epoch : dayNumber 1970 1 1 = 719528 := by
  have hyear := daysBeforeYear_eq 1970
  have hmonth : daysBeforeMonth 1970 1 = 0 := rfl
  rw [dayNumber]
  omega

/-- The milliseconds of a time of the calendar fit. -/
theorem isoFinish_isTime {f : IsoFields Nat} (h : f.IsTime) {msec : Nat} (hms : msec < 1000)
    (hrange : f.toInt.InRange msec) : isoFinish f.toInt msec = some (calendarMs f msec) := by
  have hdays := civilDays_eq (y := f.year) h.date.month_pos h.date.month_le h.date.day_pos
  have hbound := (dayNumber_lt f.year h.date).trans_le
    (Nat.add_le_add_right (daysBeforeYear_le f.year) 366)
  obtain ⟨hyear, hdate, hhour, hmin, hsec⟩ := h
  have hminute : f.toInt.minuteMs =
      ((((dayNumber f.year f.month f.day : Int) - 719528) * 24 + f.hour) * 60 + f.min) * 60000 := by
    rw [IsoFields.minuteMs, ← hdays]
    rfl
  rw [isoFinish, if_pos hrange, hminute, calendarMs, dayNumber_epoch]
  simp only [IsoFields.toInt]
  generalize dayNumber f.year f.month f.day = days at *
  simp only [Option.bind_eq_some_iff, fitsLong_eq_some, longMax]
  exact ⟨_, ⟨by omega, rfl⟩, _, ⟨by omega, rfl⟩, by omega, by omega⟩

theorem LooseTime.inRange {text : Text} {f : IsoFields Int} {msec : Int}
    (h : LooseTime text f msec) : f.InRange msec ∧ -(2 ^ 31) ≤ f.sec := by
  cases h with
  | mk _ _ _ _ _ hg _ hrange => exact ⟨hrange, hg.range.1⟩

theorem parse_isoText {f : IsoFields Nat} (h : f.IsTime) {tail : Text} {msec : Nat}
    (htail : LooseTail tail msec) (hms : msec < 1000) :
    ircParseIso8601Ms (isoText f tail) = some (calendarMs f msec) := by
  have hloose := looseTime_isoText h htail (Int.natCast_nonneg msec) (by omega)
  rw [parse_of_loose hloose, isoFinish_isTime h hms hloose.inRange.1]

theorem looseTail_millis {msec : Nat} (hms : msec < 1000) :
    LooseTail ('.' :: (zeroPadded 3 msec ++ ['Z'])) msec :=
  LooseTail.fraction (numText_zeroPadded 3 (by omega)) (by decide)

/-- **Every time of the calendar** is read as what it is. -/
theorem parse_of_names {text : Text} {ms : Int} (h : Names text ms) :
    ircParseIso8601Ms text = some ms := by
  cases h with
  | seconds h =>
    exact parse_isoText h (LooseTail.plain (by decide) fun hz => absurd hz (by decide)) (by decide)
  | millis h hms => exact parse_isoText h (looseTail_millis hms) hms

/-- **A text is read exactly** if it names a time, or is not taken, and otherwise only if its
numbers say -1 anyway. -/
theorem readExactly_iff (text : Text) : ReadExactly text ↔
    (∃ ms, Names text ms) ∨ ∀ f msec, LooseTime text f msec → looseMs f msec = -1 := by
  constructor
  · intro h
    by_cases hnames : ∃ ms, Names text ms
    · exact Or.inl hnames
    · refine Or.inr fun f msec hloose => ?_
      have hparse := h.2 (not_exists.mp hnames)
      rw [parse_of_loose hloose] at hparse
      exact (isoFinish_eq_neg_one hloose.inRange.1 hloose.inRange.2).mp hparse
  · rintro (⟨ms, hms⟩ | hvalue)
    · exact ⟨fun _ => parse_of_names, fun hnot => absurd hms (hnot ms)⟩
    · refine ⟨fun _ => parse_of_names, fun _ => ?_⟩
      by_cases hloose : ∃ f msec, LooseTime text f msec
      · obtain ⟨f, msec, hloose⟩ := hloose
        rw [parse_of_loose hloose]
        exact (isoFinish_eq_neg_one hloose.inRange.1 hloose.inRange.2).mpr (hvalue f msec hloose)
      · simp only [not_exists] at hloose
        exact parse_of_not_loose hloose

/-! ## 8. There and back

From a count of milliseconds to a text and back. Up to the year 9999 no field grows beyond its
width. -/

theorem daysBeforeYear_tenThousand {y : Nat} (h : 10000 ≤ y) : 3652425 ≤ daysBeforeYear y := by
  have hyear := daysBeforeYear_eq y
  omega

theorem gmtime_isTime {sec : Nat} (h : sec < 253402300800) :
    (gmtime sec).IsTime ∧ dayNumber (gmtime sec).year (gmtime sec).month (gmtime sec).day =
      719528 + sec / 86400 := by
  obtain ⟨hdate, hday⟩ := dateOfDay_spec 1970 (sec / 86400)
  have hepoch := dayNumber_epoch
  rw [dayNumber, show daysBeforeMonth 1970 1 = 0 from rfl] at hepoch
  have hsum : dayNumber (gmtime sec).year (gmtime sec).month (gmtime sec).day =
      719528 + sec / 86400 := hday.trans (by omega)
  have hyear : (gmtime sec).year < 10000 := by
    by_contra hlate
    have hlow := daysBeforeYear_tenThousand (not_lt.mp hlate)
    rw [dayNumber] at hsum
    omega
  exact ⟨⟨hyear, hdate, Nat.mod_lt _ (by decide), Nat.mod_lt _ (by decide),
    Nat.mod_lt _ (by decide)⟩, hsum⟩

theorem isoText_length {f : IsoFields Nat} (h : f.IsTime) (tail : Text) :
    (isoText f tail).length = 19 + tail.length := by
  have hday := h.date.day_le.trans (daysInMonth_le ..)
  have hmonth := h.date.month_le
  obtain ⟨hyear, -, hhour, hmin, hsec⟩ := h
  simp only [isoText, List.length_append, List.length_cons, zeroPadded_length (by decide : 0 < 4)
    (by omega : f.year < 10 ^ 4), zeroPadded_length (by decide : 0 < 2)
    (by omega : f.month < 10 ^ 2), zeroPadded_length (by decide : 0 < 2)
    (by omega : f.day < 10 ^ 2), zeroPadded_length (by decide : 0 < 2) (by omega : f.hour < 10 ^ 2),
    zeroPadded_length (by decide : 0 < 2) (by omega : f.min < 10 ^ 2),
    zeroPadded_length (by decide : 0 < 2) (by omega : f.sec < 10 ^ 2)]
  omega

/-- **What is printed is read back**. -/
theorem parse_ircIso8601FromMs {ms outsz : Nat} (hms : ms < 253402300800000) (hout : 25 ≤ outsz) :
    ircParseIso8601Ms (ircIso8601FromMs outsz ms) = some (ms : Int) := by
  have hsecs : ms / 1000 < 253402300800 := by omega
  obtain ⟨htime, hday⟩ := gmtime_isTime hsecs
  have hrest : ms % 1000 < 1000 := Nat.mod_lt _ (by decide)
  have hlen : (isoText (gmtime (ms / 1000)) ('.' :: (zeroPadded 3 (ms % 1000) ++ ['Z']))).length <
      outsz := by
    rw [isoText_length htime, List.length_cons, List.length_append, List.length_singleton,
      zeroPadded_length (by decide) (by omega : ms % 1000 < 10 ^ 3)]
    omega
  rw [ircIso8601FromMs, clip_of_fits hlen, parse_isoText htime (looseTail_millis hrest) hrest,
    calendarMs, hday, dayNumber_epoch]
  refine congrArg some ?_
  have hhour : (gmtime (ms / 1000)).hour = ms / 1000 / 3600 % 24 := rfl
  have hmin : (gmtime (ms / 1000)).min = ms / 1000 / 60 % 60 := rfl
  have hsec : (gmtime (ms / 1000)).sec = ms / 1000 % 60 := rfl
  rw [hhour, hmin, hsec]
  omega

/-- **Times are read exactly** wherever a text is not taken for a time that it does not name, and
what is printed is read back. The grammar of what the scan takes is looser than the form of a
timestamp, which is where it goes wrong. The condition is on the text alone. -/
theorem parseIso8601_exact_iff (text : Text) {ms outsz : Nat} (hms : ms < 253402300800000)
    (hout : 25 ≤ outsz) :
    (ReadExactly text ↔ (∃ ms, Names text ms) ∨
      ∀ f msec, LooseTime text f msec → looseMs f msec = -1) ∧
    ircParseIso8601Ms (ircIso8601FromMs outsz ms) = some (ms : Int) :=
  ⟨readExactly_iff text, parse_ircIso8601FromMs hms hout⟩

theorem parseIso8601_exact_demo :
    (ReadExactly "garbage".toList ↔ (∃ ms, Names "garbage".toList ms) ∨
      ∀ f msec, LooseTime "garbage".toList f msec → looseMs f msec = -1) ∧
    ircParseIso8601Ms (ircIso8601FromMs 40 1700000000123) = some ((1700000000123 : Nat) : Int) :=
  parseIso8601_exact_iff "garbage".toList (by decide) (by decide)

/-- **A time without its `Z`** is taken. -/
theorem other_zone_taken : ¬ ReadExactly "2023-11-14T22:13:20.123X".toList := by
  intro h
  have hnot : ∀ ms, ¬ Names "2023-11-14T22:13:20.123X".toList ms := by
    intro ms hnames
    have hlast : "2023-11-14T22:13:20.123X".toList.getLast? = some 'Z' := by
      generalize "2023-11-14T22:13:20.123X".toList = text at hnames
      cases hnames with
      | seconds _ => simp [isoText, List.getLast?_append, List.getLast?_cons]
      | millis _ _ => simp [isoText, List.getLast?_append, List.getLast?_cons]
    exact absurd hlast (by decide)
  exact absurd (h.2 hnot) (by decide)

end SekurIRCd
