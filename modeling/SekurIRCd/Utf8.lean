/-
# UTF-8

`irc_utf8_valid` reads a string character by character: the first byte says how many follow and
gives the first bits, each of the others gives six more, and the code point is checked when it is
there.  It accepts exactly the strings of characters as RFC 3629 writes them (`ircUtf8Valid_iff`).

A read behind the memory fails here.  None does when the memory ends with the terminator.
-/
import SekurIRCd.Lib.BitPrefix
import Mathlib.Data.Nat.Bitwise
import Mathlib.Data.List.Basic

namespace SekurIRCd

/-! ## 1. The code

The bytes of the string and its terminator are the memory; what is behind it cannot be read, and a
function that tries to is `none`. -/

/-- The inner loop of `irc_utf8_valid`: `n` more bytes of a character.  `some none` says that one is
none. -/
def utf8Rest : Nat → Nat → List UInt8 → Option (Option (Nat × List UInt8))
  | 0, cp, p => some (some (cp, p))
  | _ + 1, _, [] => none
  | n + 1, cp, b :: p =>
    if b &&& 0xC0 ≠ 0x80 then some none
    else utf8Rest n (cp <<< 6 ||| (b &&& 0x3F).toNat) p

/-- What the first byte of a longer character says: how many follow, the least code point that needs
so many, and the first bits. -/
def utf8Lead (c : UInt8) : Option (Nat × Nat × Nat) :=
  if c &&& 0xE0 = 0xC0 then some (1, 0x80, (c &&& 0x1F).toNat)
  else if c &&& 0xF0 = 0xE0 then some (2, 0x800, (c &&& 0x0F).toNat)
  else if c &&& 0xF8 = 0xF0 then some (3, 0x10000, (c &&& 0x07).toNat)
  else none

/-- The loop of `irc_utf8_valid`.  Each turn takes a byte at least. -/
def utf8Loop : Nat → List UInt8 → Option Bool
  | 0, _ => none
  | _ + 1, [] => none
  | fuel + 1, c :: p =>
    if c = 0 then some true
    else if c < 0x80 then utf8Loop fuel p
    else
      match utf8Lead c with
      | none => some false
      | some (n, min, bits) =>
        match utf8Rest n bits p with
        | none => none
        | some none => some false
        | some (some (cp, q)) =>
          if cp < min ∨ 0x10FFFF < cp ∨ (0xD800 ≤ cp ∧ cp ≤ 0xDFFF) then some false
          else utf8Loop fuel q

/-- `irc_utf8_valid`. -/
def ircUtf8Valid (mem : List UInt8) : Option Bool := utf8Loop mem.length mem

/-! ## 2. RFC 3629

The standard gives the octets of each code point. A string is valid if it is made of these; this is
said without a decoder, so that it is not the code again. -/

/-- A code point that is a character: no surrogate, and none above U+10FFFF. -/
def IsScalar (cp : Nat) : Prop := cp < 0xD800 ∨ 0xDFFF < cp ∧ cp ≤ 0x10FFFF

/-- The octets of a code point, by the number range it is in. -/
def utf8Octets (cp : Nat) : List UInt8 :=
  if cp < 0x80 then [.ofNat cp]
  else if cp < 0x800 then [.ofNat (0xC0 + cp / 64), .ofNat (0x80 + cp % 64)]
  else if cp < 0x10000 then
    [.ofNat (0xE0 + cp / 4096), .ofNat (0x80 + cp / 64 % 64), .ofNat (0x80 + cp % 64)]
  else
    [.ofNat (0xF0 + cp / 262144), .ofNat (0x80 + cp / 4096 % 64), .ofNat (0x80 + cp / 64 % 64),
      .ofNat (0x80 + cp % 64)]

/-- A string of characters: the octets of scalar values, one after the other. The decoder is not
mentioned, so what it accepts can be compared with this. -/
def Utf8 (s : List UInt8) : Prop := ∃ cps : List Nat, (∀ cp ∈ cps, IsScalar cp) ∧
  s = cps.flatMap utf8Octets

theorem utf8_nil : Utf8 [] := ⟨[], fun _ h => absurd h List.not_mem_nil, rfl⟩

theorem Utf8.cons {cp : Nat} {s : List UInt8} (hcp : IsScalar cp) (h : Utf8 s) :
    Utf8 (utf8Octets cp ++ s) := by
  obtain ⟨cps, hcps, rfl⟩ := h
  exact ⟨cp :: cps, List.forall_mem_cons.mpr ⟨hcp, hcps⟩, rfl⟩

theorem Utf8.uncons {c : UInt8} {s : List UInt8} (h : Utf8 (c :: s)) :
    ∃ cp r, IsScalar cp ∧ c :: s = utf8Octets cp ++ r ∧ Utf8 r := by
  obtain ⟨cps, hcps, heq⟩ := h
  cases cps with
  | nil => exact absurd heq (by simp)
  | cons cp cps =>
    obtain ⟨hcp, hrest⟩ := List.forall_mem_cons.mp hcps
    exact ⟨cp, _, hcp, heq, cps, hrest, rfl⟩

/-! ## 3. One character

The first byte decides how many follow and the least code point that needs as many. There are 256
first bytes, so what it can be is checked by cases. -/

/-- A byte that continues a character. -/
def IsTail (b : UInt8) : Prop := 0x80 ≤ b.toNat ∧ b.toNat < 0xC0

instance (b : UInt8) : Decidable (IsTail b) := inferInstanceAs (Decidable (_ ∧ _))

theorem isTail_iff : ∀ b : UInt8, b &&& 0xC0 = 0x80 ↔ IsTail b :=
  BitPrefix.forall_octet (by decide +kernel)

theorem tailBits : ∀ b : UInt8, (b &&& 0x3F).toNat = b.toNat % 64 :=
  BitPrefix.forall_octet (by decide +kernel)

/-- The code point that the first bits and six bits of each further byte make. -/
def codePoint (bits : Nat) (ts : List UInt8) : Nat :=
  ts.foldl (fun cp b => cp * 64 + b.toNat % 64) bits

/-- **The inner loop** takes the next bytes if they continue the character, and stops before the
terminator if they do not. -/
theorem utf8Rest_spec : ∀ (n bits : Nat) (s : List UInt8),
    (∃ ts r, s = ts ++ r ∧ ts.length = n ∧ (∀ b ∈ ts, IsTail b) ∧
      utf8Rest n bits (s ++ [0]) = some (some (codePoint bits ts, r ++ [0]))) ∨
    ((∀ ts r, s = ts ++ r → ts.length = n → ¬ ∀ b ∈ ts, IsTail b) ∧
      utf8Rest n bits (s ++ [0]) = some none)
  | 0, bits, s => Or.inl ⟨[], s, rfl, rfl, fun _ h => absurd h List.not_mem_nil, rfl⟩
  | n + 1, bits, [] => by
    refine Or.inr ⟨fun ts r hs hn => ?_, rfl⟩
    rw [(List.append_eq_nil_iff.mp hs.symm).1] at hn
    exact absurd hn (by simp)
  | n + 1, bits, b :: s => by
    rw [List.cons_append, utf8Rest]
    by_cases hb : IsTail b
    · have hbits : bits <<< 6 ||| (b &&& 0x3F).toNat = bits * 64 + b.toNat % 64 := by
        rw [tailBits, ← Nat.shiftLeft_add_eq_or_of_lt (by omega : b.toNat % 64 < 2 ^ 6),
          Nat.shiftLeft_eq]
      rw [if_neg (by simpa using (isTail_iff b).mpr hb), hbits]
      rcases utf8Rest_spec n (bits * 64 + b.toNat % 64) s with
        ⟨ts, r, rfl, hn, hts, heq⟩ | ⟨hnone, heq⟩
      · exact Or.inl ⟨b :: ts, r, rfl, by rw [List.length_cons, hn],
          List.forall_mem_cons.mpr ⟨hb, hts⟩, heq⟩
      · refine Or.inr ⟨fun ts r hs hn hts => ?_, heq⟩
        cases ts with
        | nil => exact absurd hn (by simp)
        | cons t ts =>
          obtain ⟨rfl, rfl⟩ := List.cons.inj hs
          exact hnone ts r rfl (Nat.succ.inj hn) fun x hx => hts x (List.mem_cons_of_mem _ hx)
    · rw [if_pos (mt (isTail_iff b).mp hb)]
      refine Or.inr ⟨fun ts r hs hn hts => ?_, rfl⟩
      cases ts with
      | nil => exact absurd hn (by simp)
      | cons t ts =>
        obtain ⟨rfl, -⟩ := List.cons.inj hs
        exact hb (hts _ List.mem_cons_self)

theorem utf8Lead_one : ∀ k : Fin 32, utf8Lead (.ofNat (0xC0 + k)) = some (1, 0x80, k.val) := by
  decide

theorem utf8Lead_two : ∀ k : Fin 16, utf8Lead (.ofNat (0xE0 + k)) = some (2, 0x800, k.val) := by
  decide

theorem utf8Lead_three : ∀ k : Fin 8, utf8Lead (.ofNat (0xF0 + k)) = some (3, 0x10000, k.val) := by
  decide

theorem utf8Lead_cases : ∀ c : UInt8, utf8Lead c = none ∨
    (∃ k : Fin 32, c = .ofNat (0xC0 + k)) ∨ (∃ k : Fin 16, c = .ofNat (0xE0 + k)) ∨
      ∃ k : Fin 8, c = .ofNat (0xF0 + k) :=
  BitPrefix.forall_octet (by decide +kernel)

theorem tail_ofNat {k : Nat} (hk : k < 64) :
    IsTail (.ofNat (0x80 + k)) ∧ (UInt8.ofNat (0x80 + k)).toNat % 64 = k := by
  have hval : (UInt8.ofNat (0x80 + k)).toNat = 0x80 + k := by
    rw [UInt8.toNat_ofNat']
    omega
  rw [IsTail, hval]
  omega

theorem eq_tail {b : UInt8} (hb : IsTail b) : b = .ofNat (0x80 + b.toNat % 64) := by
  obtain ⟨hlow, hhigh⟩ := hb
  refine UInt8.toNat_inj.mp ?_
  rw [UInt8.toNat_ofNat']
  omega

/-- A character of more than one byte is read as it is written. -/
theorem utf8Octets_read {cp : Nat} (hcp : IsScalar cp) (hlong : 0x80 ≤ cp) :
    ∃ c ts min bits, utf8Octets cp = c :: ts ∧ 0xC0 ≤ c.toNat ∧
      utf8Lead c = some (ts.length, min, bits) ∧ (∀ b ∈ ts, IsTail b) ∧
      codePoint bits ts = cp ∧ min ≤ cp := by
  have hmax : cp ≤ 0x10FFFF := by
    rcases hcp with h | h
    · omega
    · exact h.2
  have hfirst : ∀ {a : Nat}, a < 256 → (UInt8.ofNat a).toNat = a := fun ha => by
    rw [UInt8.toNat_ofNat']
    omega
  rw [utf8Octets, if_neg (by omega)]
  split
  next htwo =>
    have ht := tail_ofNat (Nat.mod_lt cp (by omega : 0 < 64))
    refine ⟨_, _, 0x80, cp / 64, rfl, ?_, utf8Lead_one ⟨cp / 64, by omega⟩, ?_, ?_, hlong⟩
    · rw [hfirst (by omega)]
      omega
    · exact List.forall_mem_singleton.mpr ht.1
    · simp only [codePoint, List.foldl_cons, List.foldl_nil, ht.2]
      omega
  next htwo =>
    split
    next hthree =>
      have ht := tail_ofNat (Nat.mod_lt cp (by omega : 0 < 64))
      have hu := tail_ofNat (Nat.mod_lt (cp / 64) (by omega : 0 < 64))
      refine ⟨_, _, 0x800, cp / 4096, rfl, ?_, utf8Lead_two ⟨cp / 4096, by omega⟩, ?_, ?_,
        by omega⟩
      · rw [hfirst (by omega)]
        omega
      · exact List.forall_mem_cons.mpr ⟨hu.1, List.forall_mem_singleton.mpr ht.1⟩
      · simp only [codePoint, List.foldl_cons, List.foldl_nil, ht.2, hu.2]
        omega
    next hthree =>
      have ht := tail_ofNat (Nat.mod_lt cp (by omega : 0 < 64))
      have hu := tail_ofNat (Nat.mod_lt (cp / 64) (by omega : 0 < 64))
      have hv := tail_ofNat (Nat.mod_lt (cp / 4096) (by omega : 0 < 64))
      refine ⟨_, _, 0x10000, cp / 262144, rfl, ?_, utf8Lead_three ⟨cp / 262144, by omega⟩, ?_, ?_,
        by omega⟩
      · rw [hfirst (by omega)]
        omega
      · exact List.forall_mem_cons.mpr ⟨hv.1, List.forall_mem_cons.mpr ⟨hu.1,
          List.forall_mem_singleton.mpr ht.1⟩⟩
      · simp only [codePoint, List.foldl_cons, List.foldl_nil, ht.2, hu.2, hv.2]
        omega

/-- What is read as a character with enough bytes is written like that. -/
theorem utf8Octets_codePoint {c : UInt8} {ts : List UInt8} {min bits : Nat}
    (hlead : utf8Lead c = some (ts.length, min, bits)) (hts : ∀ b ∈ ts, IsTail b)
    (hmin : min ≤ codePoint bits ts) : utf8Octets (codePoint bits ts) = c :: ts := by
  rcases utf8Lead_cases c with hnone | ⟨k, rfl⟩ | ⟨k, rfl⟩ | ⟨k, rfl⟩
  · exact absurd (hnone.symm.trans hlead) (by simp)
  · rw [utf8Lead_one] at hlead
    simp only [Option.some.injEq, Prod.mk.injEq] at hlead
    obtain ⟨hlen, rfl, rfl⟩ := hlead
    obtain ⟨b, rfl⟩ := List.length_eq_one_iff.mp hlen.symm
    have hb := eq_tail (hts b List.mem_cons_self)
    simp only [codePoint, List.foldl_cons, List.foldl_nil] at hmin ⊢
    have hk := k.isLt
    rw [utf8Octets, if_neg (by omega), if_pos (by omega)]
    have h1 : (k * 64 + b.toNat % 64) / 64 = (k : Nat) := by omega
    have h2 : (k * 64 + b.toNat % 64) % 64 = b.toNat % 64 := by omega
    rw [h1, h2, ← hb]
  · rw [utf8Lead_two] at hlead
    simp only [Option.some.injEq, Prod.mk.injEq] at hlead
    obtain ⟨hlen, rfl, rfl⟩ := hlead
    obtain ⟨a, b, rfl⟩ := List.length_eq_two.mp hlen.symm
    have ha := eq_tail (hts a List.mem_cons_self)
    have hb := eq_tail (hts b (List.mem_cons_of_mem _ List.mem_cons_self))
    simp only [codePoint, List.foldl_cons, List.foldl_nil] at hmin ⊢
    have hk := k.isLt
    rw [utf8Octets, if_neg (by omega), if_neg (by omega), if_pos (by omega)]
    have h1 : ((k * 64 + a.toNat % 64) * 64 + b.toNat % 64) / 4096 = (k : Nat) := by omega
    have h2 : ((k * 64 + a.toNat % 64) * 64 + b.toNat % 64) / 64 % 64 = a.toNat % 64 := by omega
    have h3 : ((k * 64 + a.toNat % 64) * 64 + b.toNat % 64) % 64 = b.toNat % 64 := by omega
    rw [h1, h2, h3, ← ha, ← hb]
  · rw [utf8Lead_three] at hlead
    simp only [Option.some.injEq, Prod.mk.injEq] at hlead
    obtain ⟨hlen, rfl, rfl⟩ := hlead
    obtain ⟨a, b, d, rfl⟩ := List.length_eq_three.mp hlen.symm
    have ha := eq_tail (hts a List.mem_cons_self)
    have hb := eq_tail (hts b (by simp))
    have hd := eq_tail (hts d (by simp))
    simp only [codePoint, List.foldl_cons, List.foldl_nil] at hmin ⊢
    generalize hcp : ((k * 64 + a.toNat % 64) * 64 + b.toNat % 64) * 64 + d.toNat % 64 = cp at hmin ⊢
    have hk := k.isLt
    rw [utf8Octets, if_neg (by omega), if_neg (by omega), if_neg (by omega)]
    have h1 : cp / 262144 = (k : Nat) := by omega
    have h2 : cp / 4096 % 64 = a.toNat % 64 := by omega
    have h3 : cp / 64 % 64 = b.toNat % 64 := by omega
    have h4 : cp % 64 = d.toNat % 64 := by omega
    rw [h1, h2, h3, h4, ← ha, ← hb, ← hd]

/-! ## 4. A string -/

theorem utf8Octets_ascii {cp : Nat} (h : cp < 0x80) : utf8Octets cp = [.ofNat cp] := if_pos h

/-- A string that starts with an ASCII character is one if the rest is. -/
theorem utf8_ascii_iff {c : UInt8} {s : List UInt8} (hc : c < 0x80) : Utf8 (c :: s) ↔ Utf8 s := by
  have hnat : c.toNat < 0x80 := UInt8.lt_iff_toNat_lt.mp hc
  constructor
  · intro h
    obtain ⟨cp, r, hcp, heq, hr⟩ := h.uncons
    by_cases hshort : cp < 0x80
    · rw [utf8Octets_ascii hshort] at heq
      exact (List.cons.inj heq).2 ▸ hr
    · obtain ⟨d, ts, min, bits, hoct, hhigh, -⟩ := utf8Octets_read hcp (Nat.le_of_not_lt hshort)
      rw [hoct, List.cons_append] at heq
      rw [(List.cons.inj heq).1] at hnat
      omega
  · intro h
    have hone : utf8Octets c.toNat = [c] := by
      rw [utf8Octets_ascii hnat]
      exact congrArg (· :: []) (UInt8.ofNat_toNat)
    have hcons := h.cons (Or.inl (by omega) : IsScalar c.toNat)
    rw [hone] at hcons
    exact hcons

/-- Any other string that is one starts with a character of several bytes. -/
theorem Utf8.uncons_long {c : UInt8} {s : List UInt8} (hlong : ¬ c < 0x80) (h : Utf8 (c :: s)) :
    ∃ ts r min bits, s = ts ++ r ∧ Utf8 r ∧ utf8Lead c = some (ts.length, min, bits) ∧
      (∀ b ∈ ts, IsTail b) ∧ min ≤ codePoint bits ts ∧ IsScalar (codePoint bits ts) := by
  obtain ⟨cp, r, hcp, heq, hr⟩ := h.uncons
  by_cases hshort : cp < 0x80
  · rw [utf8Octets_ascii hshort] at heq
    refine absurd (UInt8.lt_iff_toNat_lt.mpr ?_) hlong
    rw [(List.cons.inj heq).1, UInt8.toNat_ofNat']
    exact (Nat.mod_le ..).trans_lt hshort
  · obtain ⟨d, ts, min, bits, hoct, -, hlead, hts, hval, hmin⟩ :=
      utf8Octets_read hcp (Nat.le_of_not_lt hshort)
    rw [hoct, List.cons_append] at heq
    obtain ⟨rfl, rfl⟩ := List.cons.inj heq
    subst hval
    exact ⟨ts, r, min, bits, rfl, hr, hlead, hts, hmin, hcp⟩

/-- A string that starts with enough bytes for a character is one if they are one and the rest
is. -/
theorem utf8_long_iff {c : UInt8} (hlong : ¬ c < 0x80) {ts r : List UInt8} {min bits : Nat}
    (hlead : utf8Lead c = some (ts.length, min, bits)) (hts : ∀ b ∈ ts, IsTail b) :
    Utf8 (c :: (ts ++ r)) ↔
      (min ≤ codePoint bits ts ∧ IsScalar (codePoint bits ts)) ∧ Utf8 r := by
  constructor
  · intro h
    obtain ⟨ts', r', min', bits', hsplit, hr, hlead', -, hmin, hcp⟩ := h.uncons_long hlong
    obtain ⟨hlen, rfl, rfl⟩ : ts.length = ts'.length ∧ min = min' ∧ bits = bits' := by
      simpa using hlead.symm.trans hlead'
    obtain ⟨rfl, rfl⟩ := List.append_inj hsplit hlen
    exact ⟨⟨hmin, hcp⟩, hr⟩
  · rintro ⟨⟨hmin, hcp⟩, hr⟩
    rw [← List.cons_append, ← utf8Octets_codePoint hlead hts hmin]
    exact hr.cons hcp

theorem utf8Loop_spec {fuel : Nat} {s : List UInt8} (hlen : s.length < fuel) (hzero : 0 ∉ s) :
    ∃ b, utf8Loop fuel (s ++ [0]) = some b ∧ (b = true ↔ Utf8 s) := by
  induction fuel generalizing s with
  | zero => exact absurd hlen (Nat.not_lt_zero _)
  | succ fuel ih =>
    cases s with
    | nil => exact ⟨true, rfl, iff_of_true rfl utf8_nil⟩
    | cons c s =>
      obtain ⟨hc, hs⟩ := not_or.mp (mt List.mem_cons.mpr hzero)
      rw [List.length_cons] at hlen
      rw [List.cons_append, utf8Loop, if_neg (Ne.symm hc)]
      split
      next hascii =>
        obtain ⟨b, hb, hiff⟩ := ih (by omega) hs
        exact ⟨b, hb, hiff.trans (utf8_ascii_iff hascii).symm⟩
      next hlong =>
        cases hlead : utf8Lead c with
        | none =>
          refine ⟨false, rfl, iff_of_false (by simp) fun h => ?_⟩
          obtain ⟨ts, r, min, bits, -, -, hlead', -⟩ := h.uncons_long hlong
          exact absurd (hlead.symm.trans hlead') (by simp)
        | some x =>
          obtain ⟨n, min, bits⟩ := x
          simp only
          rcases utf8Rest_spec n bits s with ⟨ts, r, rfl, rfl, hts, heq⟩ | ⟨hnone, heq⟩
          · rw [heq]
            simp only
            have hchar := utf8_long_iff (r := r) hlong hlead hts
            rw [IsScalar] at hchar
            split
            next hbad =>
              refine ⟨false, rfl, iff_of_false (by simp) fun h => ?_⟩
              have hgood := (hchar.mp h).1
              omega
            next hgood =>
              have hshorter : r.length < fuel := by
                rw [List.length_append] at hlen
                omega
              obtain ⟨b, hb, hiff⟩ := ih hshorter fun h => hs (List.mem_append_right _ h)
              exact ⟨b, hb, hiff.trans (hchar.trans (and_iff_right (by omega))).symm⟩
          · -- the bytes behind do not continue the character
            rw [heq]
            refine ⟨false, rfl, iff_of_false (by simp) fun h => ?_⟩
            obtain ⟨ts, r, min', bits', hsplit, -, hlead', hts, -⟩ := h.uncons_long hlong
            obtain ⟨hlen', -, -⟩ : n = ts.length ∧ min = min' ∧ bits = bits' := by
              simpa using hlead.symm.trans hlead'
            exact hnone ts r hsplit hlen'.symm hts

/-- **The check is exact**, and no byte behind the terminator is read. Overlong forms, surrogates
and code points above U+10FFFF are refused because none of them is among the octets of
a character. -/
theorem ircUtf8Valid_iff (s : List UInt8) (hs : 0 ∉ s) :
    ∃ b, ircUtf8Valid (s ++ [0]) = some b ∧ (b = true ↔ Utf8 s) :=
  utf8Loop_spec (by simp) hs

theorem ircUtf8Valid_iff_demo :
    (∃ b, ircUtf8Valid ([0xC3, 0xA9] ++ [0]) = some b ∧ (b = true ↔ Utf8 [0xC3, 0xA9])) ∧
      ∃ b, ircUtf8Valid ([0x41, 0xE2, 0x82] ++ [0]) = some b ∧
        (b = true ↔ Utf8 [0x41, 0xE2, 0x82]) :=
  ⟨ircUtf8Valid_iff _ (by decide), ircUtf8Valid_iff _ (by decide)⟩

end SekurIRCd
