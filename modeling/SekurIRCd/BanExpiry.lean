/-
# When a ban expires

A duration is a `long`, and `irc_parse_duration` gives the largest one where a token says more.  The
expiry is the clock plus the duration: once for the list of lines, and once for the text that goes
to the other servers, which subtract their own clock and add it again.

None of these sums is checked.  A ban keeps its period exactly when the first sum fits
(`keepsPeriod_iff`): the server behind subtracts what it adds.
-/
import SekurIRCd.Kline
import SekurIRCd.Net.Lines

namespace SekurIRCd

open CLib

/-! ## 1. The sums

An expiry is a `long`, and a sum that does not fit is left open by C: there is none here. -/

/-- A sum of two `long`s.  Where it does not fit C does not say what it is, and there is none. -/
def addLong (a b : Int) : Option Int :=
  if -(2 ^ 63) ≤ a + b ∧ a + b ≤ longMax then some (a + b) else none

/-- `duration > 0 ? time(NULL) + duration : 0`, as `server_kline_add` and `line_common` have it. -/
def lineExpiry (now duration : Int) : Option Int := if 0 < duration then addLong now duration else some 0

/-- `server_kline_add`, if the expiry fits. -/
def serverKlineAdd (now : Nat) (mask reason setBy : Text) (t : LineType) (duration : Int)
    (l : List KLine) : Option (List KLine) :=
  (lineExpiry now duration).map fun _ => klineAdd now mask reason setBy t duration.toNat l

/-- `netsync_gline` and `netsync_shun`: the expiry as it is sent. -/
def glineExpiry (expires : Int) : Text := clip 24 (intDecimal expires)

/-- The duration that `handle_gline` makes of it; `none` if the line is over. An expiry of 0 is a
permanent line, and its duration is 0 again. -/
def glineDuration (now : Int) (text : Text) : Option Int :=
  let exp := atol text
  let dur := if 0 < exp then exp - now else 0
  if 0 < exp ∧ dur ≤ 0 then none else some dur

/-- `handle_gline`: the lines of the server that is told. It has a clock of its own, on which the
ban ends when it does on the first. -/
def handleGline (now : Nat) (mask setter text reason : Text) (shun : Bool) (l : List KLine) :
    Option (List KLine) :=
  match glineDuration now text with
  | none => some l
  | some dur => serverKlineAdd now mask reason setter (if shun then .S else .G) dur l

/-! ## 2. The period

A ban is added to a list that may hold it already.  Then the first such line is refreshed: it keeps
its text and gets the later of the two expiries, where none at all outranks every other.  So the
period of a ban is kept if a new line gets the expiry and a refreshed one is not shorter. -/

/-- The ban stands in `l'`, as a line in front of `l` or as the first such line of `l` with the later
of the two expiries. -/
structure StoredIn (mask reason setBy : Text) (t : LineType) (exp : Nat) (l l' : List KLine) :
    Prop where
  new : l.any (isLine t mask) = false →
    l' = ⟨clip 256 mask, clip 256 reason, clip 128 setBy, t, exp⟩ :: l
  refreshed : ∀ pre e rest, l = pre ++ e :: rest → pre.any (isLine t mask) = false →
    isLine t mask e = true →
      l' = pre ++ { e with expiresAt := laterExpiry e.expiresAt exp } :: rest

/-- **A ban keeps its period**: it has an expiry, which is later than now unless the ban is
permanent; that is what it is stored with, and what it is stored with on a server that is told,
whenever it is told before. -/
def KeepsPeriod (now duration : Nat) : Prop :=
  ∃ exp : Nat, lineExpiry now duration = some (exp : Int) ∧ (0 < duration → now < exp) ∧
    (duration = 0 → exp = 0) ∧
    (∀ (mask reason setBy : Text) (t : LineType) (l : List KLine), ∃ l',
      serverKlineAdd now mask reason setBy t duration l = some l' ∧
        StoredIn mask reason setBy t exp l l') ∧
    ∀ (now' : Nat) (mask setter reason : Text) (shun : Bool) (l : List KLine),
      (now' : Int) ≤ longMax → (exp = 0 ∨ now' < exp) → ∃ l',
        handleGline now' mask setter (glineExpiry exp) reason shun l = some l' ∧
          StoredIn mask reason setter (if shun then .S else .G) exp l l'

theorem addLong_eq_some {a b : Int} (ha : 0 ≤ a) (hb : 0 ≤ b) (h : a + b ≤ longMax) :
    addLong a b = some (a + b) := if_pos ⟨by omega, h⟩

theorem lineExpiry_nat {now duration : Nat} (h : (now + duration : Int) ≤ longMax) :
    lineExpiry now duration = some ((if 0 < duration then now + duration else 0 : Nat) : Int) := by
  rw [lineExpiry]
  by_cases hd : 0 < duration
  · rw [if_pos (by omega), if_pos hd, addLong_eq_some (by omega) (by omega) h]
    rfl
  · rw [if_neg (by omega), if_neg hd]
    rfl

theorem klineRefresh_append (t : LineType) (mask : Text) (newexp : Nat) {e : KLine}
    (he : isLine t mask e = true) (rest : List KLine) :
    ∀ pre : List KLine, pre.any (isLine t mask) = false →
      klineRefresh t mask newexp (pre ++ e :: rest) =
        pre ++ { e with expiresAt := laterExpiry e.expiresAt newexp } :: rest
  | [], _ => if_pos he
  | d :: pre, hpre => by
    rw [List.any_cons, Bool.or_eq_false_iff] at hpre
    rw [List.cons_append, klineRefresh, if_neg (by simp [hpre.1]),
      klineRefresh_append t mask newexp he rest pre hpre.2]
    rfl

theorem klineAdd_storedIn (now : Nat) (mask reason setBy : Text) (t : LineType) (duration : Nat)
    (l : List KLine) : StoredIn mask reason setBy t (if 0 < duration then now + duration else 0) l
      (klineAdd now mask reason setBy t duration l) where
  new hnew := by rw [klineAdd, if_neg (by simp [hnew])]
  refreshed pre e rest hl hpre he := by
    have hany : l.any (isLine t mask) = true := by simp [hl, he]
    rw [klineAdd, if_pos hany, hl, klineRefresh_append t mask _ he rest pre hpre]

theorem serverKlineAdd_storedIn {now duration : Nat} (h : (now + duration : Int) ≤ longMax)
    (mask reason setBy : Text) (t : LineType) (l : List KLine) :
    ∃ l', serverKlineAdd now mask reason setBy t duration l = some l' ∧
      StoredIn mask reason setBy t (if 0 < duration then now + duration else 0) l l' := by
  refine ⟨_, ?_, klineAdd_storedIn now mask reason setBy t duration l⟩
  rw [serverKlineAdd, lineExpiry_nat h, Option.map_some, Int.toNat_natCast]

/-- The text of an expiry is read as it was written. -/
theorem atol_glineExpiry {exp : Nat} (h : (exp : Int) ≤ longMax) :
    atol (glineExpiry exp) = exp := by
  have hlen : (intDecimal (exp : Int)).length < 24 := by
    have hle := intDecimal_length_le (by omega : 0 < 19) (Int.natCast_nonneg exp)
      (by rw [longMax] at h; omega)
    omega
  rw [glineExpiry, clip_of_fits hlen, atol_intDecimal (Int.natCast_nonneg exp) h]

/-- A duration keeps its period exactly when it fits behind the clock. -/
theorem keepsPeriod_iff {duration now : Nat} (hnow : (now : Int) ≤ longMax) :
    KeepsPeriod now duration ↔ (now + duration : Int) ≤ longMax := by
  constructor
  · rintro ⟨exp, hexp, -⟩
    by_contra hover
    have hd : (0 : Int) < duration := by omega
    rw [lineExpiry, if_pos hd, addLong, if_neg fun h => hover h.2] at hexp
    exact absurd hexp (by simp)
  · intro hfits
    refine ⟨_, lineExpiry_nat hfits, fun hd => ?_, fun hd => ?_, serverKlineAdd_storedIn hfits,
      fun now' mask setter reason shun l hnow' hbefore => ?_⟩
    · rw [if_pos hd]
      omega
    · rw [if_neg (by omega)]
    · -- the server behind takes its own clock away and adds it again
      have hexp : ((if 0 < duration then now + duration else 0 : Nat) : Int) ≤ longMax := by
        split
        · exact_mod_cast hfits
        · decide
      generalize (if 0 < duration then now + duration else 0) = exp at hexp hbefore ⊢
      rw [handleGline, glineDuration, atol_glineExpiry hexp]
      generalize (if shun = true then LineType.S else LineType.G) = t
      rcases Nat.eq_zero_or_pos exp with rfl | hpos
      · rw [if_neg (by omega)]
        have hnow : (now' + (0 : Nat) : Int) ≤ longMax := by omega
        exact serverKlineAdd_storedIn hnow mask reason setter t l
      · have hlater : now' < exp := hbefore.resolve_left hpos.ne'
        have hdur : (if (0 : Int) < exp then (exp : Int) - now' else 0) = ((exp - now' : Nat) : Int) := by
          rw [if_pos (by omega), Nat.cast_sub hlater.le]
        have hback : (now' + (exp - now' : Nat) : Int) ≤ longMax := by omega
        have hadd := serverKlineAdd_storedIn hback mask reason setter t l
        rw [if_pos (by omega), show now' + (exp - now') = exp by omega] at hadd
        rw [hdur, if_neg (by omega)]
        exact hadd

/-- **What a token says keeps its period** exactly when it fits behind the clock. The token may be
any text; one that is no duration says nothing to keep. The sum of the clock and the duration is
where an overflow would make a line expire at once or never. -/
theorem token_keepsPeriod_iff (token : Text) {now : Nat} (hnow : (now : Int) ≤ longMax) :
    (∀ duration, ircParseDuration token = some duration → KeepsPeriod now duration) ↔
      ∀ duration, ircParseDuration token = some duration → (now + duration : Int) ≤ longMax :=
  forall₂_congr fun _ _ => keepsPeriod_iff hnow

theorem token_keepsPeriod_iff_demo :
    (∀ duration, ircParseDuration "1d".toList = some duration → KeepsPeriod 1700000000 duration) ↔
      ∀ duration, ircParseDuration "1d".toList = some duration →
        ((1700000000 : Nat) + duration : Int) ≤ longMax :=
  token_keepsPeriod_iff "1d".toList (by decide)

/-- **The longest duration** does not fit behind any clock. -/
theorem longest_duration_wraps :
    ircParseDuration "99999999999999999w".toList = some durationMax ∧
      ¬ KeepsPeriod 1700000000 durationMax := by
  refine ⟨by decide, fun h => ?_⟩
  have hfits := (keepsPeriod_iff (by decide)).mp h
  exact absurd hfits (by decide)

end SekurIRCd
