/-
# The PROXY v2 header

A proxy in front of the server sends a binary header before anything the client says: twelve bytes
of signature, version and command, family, a length, and as many bytes of addresses.
`irc_proxy_v2_parse` is called again with every read until it has an answer.

The answer does not depend on how the header was cut (`proxyV2_incremental`).  It may come late: the
version is looked at when 16 bytes are there, and the command and the family when the whole header
is (`bad_version_waits`).

A read behind the bytes that are there fails here.
-/
import SekurIRCd.Lib.CString

namespace SekurIRCd

open CLib

/-! ## 1. The code

The function gets all bytes so far each time. Three answers are possible: it is no header, more is
wanted, or the header is over and this long. -/

/-- `SIG`. -/
def proxySig : List UInt8 := [13, 10, 13, 10, 0, 13, 10, 81, 85, 73, 84, 10]

inductive ProxyV2Code
  | incomplete | invalid | ok
deriving DecidableEq, Repr

/-- What `irc_proxy_v2_parse` returns and fills in; `consumed` is `none` where it is not written. -/
structure ProxyV2Result where
  code : ProxyV2Code
  ip : Text
  port : Nat
  consumed : Option Nat
deriving DecidableEq, Repr

def ProxyV2Result.incomplete : ProxyV2Result := ⟨.incomplete, [], 0, none⟩

def ProxyV2Result.invalid (consumed : Option Nat) : ProxyV2Result := ⟨.invalid, [], 0, consumed⟩

/-- Two bytes from `i` on. -/
def readWord (buf : List UInt8) (i : Nat) : Option Nat :=
  (buf[i]?).bind fun h => (buf[i + 1]?).map fun l => h.toNat * 256 + l.toNat

/-- The loop over the groups of an IPv6 address, while there is room for one more. -/
def proxyGroups (first : Bool) (left : Nat) : List Nat → Text
  | [] => []
  | g :: gs =>
    if left ≤ 5 then []
    else
      let w := (if first then [] else [':']) ++ Nat.toDigits 16 g
      w ++ proxyGroups false (left - w.length) gs

/-- The four bytes of an IPv4 address, as text. -/
def proxyIp4 (buf : List UInt8) : Option Text :=
  (buf[16]?).bind fun a => (buf[17]?).bind fun b => (buf[18]?).bind fun c => (buf[19]?).map fun d =>
    decimal a.toNat ++ '.' :: decimal b.toNat ++ '.' :: decimal c.toNat ++ '.' :: decimal d.toNat

/-- The eight groups of an IPv6 address. -/
def proxyIp6 (buf : List UInt8) : Option (List Nat) :=
  (readWord buf 16).bind fun a => (readWord buf 18).bind fun b => (readWord buf 20).bind fun c =>
    (readWord buf 22).bind fun d => (readWord buf 24).bind fun e => (readWord buf 26).bind fun f =>
      (readWord buf 28).bind fun g => (readWord buf 30).map fun h => [a, b, c, d, e, f, g, h]

/-- The end of `irc_proxy_v2_parse`, when the whole header is there. -/
def proxyV2Address (ipsz : Nat) (buf : List UInt8) (verCmd : UInt8) (alen : Nat) :
    Option ProxyV2Result :=
  if verCmd &&& 0x0f = 0 then some ⟨.ok, [], 0, some (16 + alen)⟩
  else if verCmd &&& 0x0f ≠ 1 then some (.invalid (some (16 + alen)))
  else
    (buf[13]?).bind fun family =>
      if family = 0x11 ∧ 12 ≤ alen then
        (proxyIp4 buf).bind fun ip => (readWord buf 24).map fun port =>
          ⟨.ok, clip ipsz ip, port, some (16 + alen)⟩
      else if family = 0x21 ∧ 36 ≤ alen then
        (proxyIp6 buf).bind fun groups => (readWord buf 48).map fun port =>
          ⟨.ok, proxyGroups true ipsz groups, port, some (16 + alen)⟩
      else some (.invalid (some (16 + alen)))

/-- `irc_proxy_v2_parse`. The signature is compared as far as it is there, and nothing else is
looked at before there are 16 bytes. -/
def ircProxyV2Parse (ipsz : Nat) (buf : List UInt8) : Option ProxyV2Result :=
  let cmp := min buf.length 12
  if buf.take cmp ≠ proxySig.take cmp then some (.invalid none)
  else if buf.length < 16 then some .incomplete
  else
    (buf[12]?).bind fun verCmd : UInt8 =>
      if verCmd >>> 4 ≠ 2 then some (.invalid none)
      else
        (readWord buf 14).bind fun alen =>
          if 512 < alen then some (.invalid none)
          else if buf.length < 16 + alen then some .incomplete
          else proxyV2Address ipsz buf verCmd alen

/-! ## 2. Reads -/

theorem read_append {buf : List UInt8} {i : Nat} (h : i < buf.length) (more : List UInt8) :
    (buf ++ more)[i]? = buf[i]? := List.getElem?_append_left h

theorem readWord_append {buf : List UInt8} {i : Nat} (h : i + 1 < buf.length) (more : List UInt8) :
    readWord (buf ++ more) i = readWord buf i := by
  rw [readWord, readWord, read_append (by omega), read_append h]

theorem read_isSome {buf : List UInt8} {i : Nat} (h : i < buf.length) : ∃ b, buf[i]? = some b :=
  ⟨_, List.getElem?_eq_getElem h⟩

theorem readWord_isSome {buf : List UInt8} {i : Nat} (h : i + 1 < buf.length) :
    ∃ n, readWord buf i = some n := by
  obtain ⟨a, ha⟩ := read_isSome (i := i) (by omega : i < buf.length)
  obtain ⟨b, hb⟩ := read_isSome h
  exact ⟨a.toNat * 256 + b.toNat, by rw [readWord, ha, hb]; rfl⟩

theorem proxyIp4_isSome {buf : List UInt8} (h : 28 ≤ buf.length) : ∃ t, proxyIp4 buf = some t := by
  obtain ⟨a, ha⟩ := read_isSome (by omega : 16 < buf.length)
  obtain ⟨b, hb⟩ := read_isSome (by omega : 17 < buf.length)
  obtain ⟨c, hc⟩ := read_isSome (by omega : 18 < buf.length)
  obtain ⟨d, hd⟩ := read_isSome (by omega : 19 < buf.length)
  rw [proxyIp4, ha, hb, hc, hd]
  exact ⟨_, rfl⟩

theorem proxyIp6_isSome {buf : List UInt8} (h : 52 ≤ buf.length) : ∃ gs, proxyIp6 buf = some gs := by
  obtain ⟨a, ha⟩ := readWord_isSome (by omega : 16 + 1 < buf.length)
  obtain ⟨b, hb⟩ := readWord_isSome (by omega : 18 + 1 < buf.length)
  obtain ⟨c, hc⟩ := readWord_isSome (by omega : 20 + 1 < buf.length)
  obtain ⟨d, hd⟩ := readWord_isSome (by omega : 22 + 1 < buf.length)
  obtain ⟨e, he⟩ := readWord_isSome (by omega : 24 + 1 < buf.length)
  obtain ⟨f, hf⟩ := readWord_isSome (by omega : 26 + 1 < buf.length)
  obtain ⟨g, hg⟩ := readWord_isSome (by omega : 28 + 1 < buf.length)
  obtain ⟨i, hi⟩ := readWord_isSome (by omega : 30 + 1 < buf.length)
  rw [proxyIp6, ha, hb, hc, hd, he, hf, hg, hi]
  exact ⟨_, rfl⟩

theorem proxyIp4_append {buf : List UInt8} (h : 28 ≤ buf.length) (more : List UInt8) :
    proxyIp4 (buf ++ more) = proxyIp4 buf := by
  rw [proxyIp4, proxyIp4, read_append (by omega), read_append (by omega), read_append (by omega),
    read_append (by omega)]

theorem proxyIp6_append {buf : List UInt8} (h : 52 ≤ buf.length) (more : List UInt8) :
    proxyIp6 (buf ++ more) = proxyIp6 buf := by
  rw [proxyIp6, proxyIp6, readWord_append (by omega), readWord_append (by omega),
    readWord_append (by omega), readWord_append (by omega), readWord_append (by omega),
    readWord_append (by omega), readWord_append (by omega), readWord_append (by omega)]

/-! ## 3. The whole header

Once the whole header is there nothing behind it is looked at, so what comes in with it does not
matter. -/

variable (ipsz : Nat)

/-- When the whole header is there, the answer is final and says how long it is. -/
theorem proxyV2Address_final {buf : List UInt8} {alen : Nat} (h : 16 + alen ≤ buf.length)
    (verCmd : UInt8) : ∃ r, r.code ≠ .incomplete ∧ r.consumed = some (16 + alen) ∧
      ∀ more, proxyV2Address ipsz (buf ++ more) verCmd alen = some r := by
  unfold proxyV2Address
  split
  · exact ⟨_, by simp, rfl, fun _ => rfl⟩
  · split
    · exact ⟨_, by simp [ProxyV2Result.invalid], rfl, fun _ => rfl⟩
    · obtain ⟨family, hf⟩ := read_isSome (by omega : 13 < buf.length)
      have hread := fun more => (read_append (by omega : 13 < buf.length) more).trans hf
      simp only [hread, Option.bind_some]
      split
      next h4 =>
        obtain ⟨ip, hip⟩ := proxyIp4_isSome (by omega : 28 ≤ buf.length)
        obtain ⟨port, hport⟩ := readWord_isSome (by omega : 24 + 1 < buf.length)
        refine ⟨⟨.ok, clip ipsz ip, port, some (16 + alen)⟩, by simp, rfl, fun more => ?_⟩
        rw [proxyIp4_append (by omega), hip, Option.bind_some, readWord_append (by omega), hport]
        rfl
      next =>
        split
        next h6 =>
          obtain ⟨groups, hgs⟩ := proxyIp6_isSome (by omega : 52 ≤ buf.length)
          obtain ⟨port, hport⟩ := readWord_isSome (by omega : 48 + 1 < buf.length)
          refine ⟨⟨.ok, proxyGroups true ipsz groups, port, some (16 + alen)⟩, by simp, rfl,
            fun more => ?_⟩
          rw [proxyIp6_append (by omega), hgs, Option.bind_some, readWord_append (by omega), hport]
          rfl
        next => exact ⟨_, by simp [ProxyV2Result.invalid], rfl, fun _ => rfl⟩

/-! ## 4. Any cut -/

/-- The bytes are those of the signature as far as they go. -/
def SigSoFar (buf : List UInt8) : Prop :=
  buf.take (min buf.length 12) = proxySig.take (min buf.length 12)

/-- What a header is told to wait for: its first 16 bytes, or all that these announce. The length
is a word of the header itself, and one that is too large is refused and not waited for. -/
def WaitsForMore (buf : List UInt8) : Prop :=
  SigSoFar buf ∧ (buf.length < 16 ∨ ∃ (verCmd : UInt8) (alen : Nat), buf[12]? = some verCmd ∧
    verCmd >>> 4 = 2 ∧ readWord buf 14 = some alen ∧ alen ≤ 512 ∧ buf.length < 16 + alen)

/-- What a wrong signature starts with stays wrong. -/
theorem sigSoFar_of_append {buf more : List UInt8} (h : SigSoFar (buf ++ more)) : SigSoFar buf := by
  have hcut := congrArg (List.take (min buf.length 12)) h
  rw [List.take_take, List.take_take, List.length_append, min_eq_left (by omega)] at hcut
  have htake : (buf ++ more).take (min buf.length 12) = buf.take (min buf.length 12) :=
    List.take_append_of_le_length (Nat.min_le_left ..)
  rwa [SigSoFar, ← htake]

theorem sigSoFar_append {buf : List UInt8} (hlen : 12 ≤ buf.length) (h : SigSoFar buf)
    (more : List UInt8) : SigSoFar (buf ++ more) := by
  rw [SigSoFar, min_eq_right hlen] at h
  rw [SigSoFar, List.length_append, min_eq_right (by omega), List.take_append_of_le_length hlen, h]

/-- **The answer for some bytes**: they wait for more, or it is final. Waiting is said by the bytes
alone. -/
theorem ircProxyV2Parse_cases (buf : List UInt8) :
    (WaitsForMore buf ∧ ircProxyV2Parse ipsz buf = some .incomplete) ∨
      ¬ WaitsForMore buf ∧ ∃ r, r.code ≠ .incomplete ∧ (∀ n, r.consumed = some n → n ≤ buf.length) ∧
        ∀ more, ircProxyV2Parse ipsz (buf ++ more) = some r := by
  by_cases hsig : SigSoFar buf
  case neg =>
    refine Or.inr ⟨fun h => hsig h.1, .invalid none, by simp [ProxyV2Result.invalid],
      fun n hn => absurd hn (by simp [ProxyV2Result.invalid]), fun more => ?_⟩
    exact if_pos (mt sigSoFar_of_append hsig)
  case pos =>
    by_cases hshort : buf.length < 16
    · refine Or.inl ⟨⟨hsig, Or.inl hshort⟩, ?_⟩
      rw [ircProxyV2Parse]
      exact (if_neg (not_not.mpr hsig)).trans (if_pos hshort)
    · have hstart : ∀ more, ircProxyV2Parse ipsz (buf ++ more) =
          (buf[12]?).bind fun verCmd : UInt8 =>
            if verCmd >>> 4 ≠ 2 then some (.invalid none)
            else
              (readWord buf 14).bind fun alen =>
                if 512 < alen then some (.invalid none)
                else if buf.length + more.length < 16 + alen then some .incomplete
                else proxyV2Address ipsz (buf ++ more) verCmd alen := by
        intro more
        rw [ircProxyV2Parse]
        refine (if_neg (not_not.mpr (sigSoFar_append (by omega) hsig more))).trans ?_
        rw [List.length_append, if_neg (by omega), read_append (by omega),
          readWord_append (by omega)]
      obtain ⟨verCmd, hver⟩ := read_isSome (by omega : 12 < buf.length)
      obtain ⟨alen, halen⟩ := readWord_isSome (by omega : 14 + 1 < buf.length)
      simp only [hver, halen, Option.bind_some] at hstart
      have hwaits : WaitsForMore buf → verCmd >>> 4 = 2 ∧ alen ≤ 512 ∧ buf.length < 16 + alen := by
        rintro ⟨-, hlen | ⟨v, n, hv, h2, hn, hmax, hlen⟩⟩
        · exact absurd hlen hshort
        · obtain rfl := Option.some.inj (hver.symm.trans hv)
          obtain rfl := Option.some.inj (halen.symm.trans hn)
          exact ⟨h2, hmax, hlen⟩
      by_cases h2 : verCmd >>> 4 = 2
      case neg =>
        refine Or.inr ⟨fun h => h2 (hwaits h).1, .invalid none, by simp [ProxyV2Result.invalid],
          fun n hn => absurd hn (by simp [ProxyV2Result.invalid]), fun more => ?_⟩
        rw [hstart, if_pos h2]
      case pos =>
        by_cases hmax : 512 < alen
        · refine Or.inr ⟨fun h => absurd (hwaits h).2.1 (by omega), .invalid none,
            by simp [ProxyV2Result.invalid],
            fun n hn => absurd hn (by simp [ProxyV2Result.invalid]), fun more => ?_⟩
          rw [hstart, if_neg (not_not.mpr h2), if_pos hmax]
        · by_cases hlen : buf.length < 16 + alen
          · refine Or.inl ⟨⟨hsig, Or.inr ⟨verCmd, alen, hver, h2, halen, by omega, hlen⟩⟩, ?_⟩
            have hnow := hstart []
            rw [List.append_nil] at hnow
            rw [hnow, if_neg (not_not.mpr h2), if_neg hmax, List.length_nil, Nat.add_zero,
              if_pos hlen]
          · obtain ⟨r, hcode, hconsumed, hfinal⟩ :=
              proxyV2Address_final ipsz (Nat.le_of_not_lt hlen) verCmd
            refine Or.inr ⟨fun h => hlen (hwaits h).2.2, r, hcode, fun n hn => ?_, fun more => ?_⟩
            · obtain rfl := Option.some.inj (hconsumed.symm.trans hn)
              omega
            · rw [hstart, if_neg (not_not.mpr h2), if_neg hmax, if_neg (by omega), hfinal]

theorem local_header :
    ircProxyV2Parse ipsz (proxySig ++ [0x20, 0, 0, 0]) = some ⟨.ok, [], 0, some 16⟩ := by
  have hver : (0x20 : UInt8) >>> 4 = 2 := by decide
  have hcmd : (0x20 : UInt8) &&& 0x0f = 0 := by decide
  simp [ircProxyV2Parse, proxySig, readWord, proxyV2Address, hver, hcmd]

/-- Up to the end of the signature, what waits is the start of a header. -/
theorem sig_extends {buf : List UInt8} (h : SigSoFar buf) (hlen : buf.length ≤ 12) :
    ∃ more r, ircProxyV2Parse ipsz (buf ++ more) = some r ∧ r.code = .ok := by
  rw [SigSoFar, min_eq_left hlen, List.take_length] at h
  refine ⟨proxySig.drop buf.length ++ [0x20, 0, 0, 0], ⟨.ok, [], 0, some 16⟩, ?_, rfl⟩
  have hall : buf ++ (proxySig.drop buf.length ++ [0x20, 0, 0, 0]) = proxySig ++ [0x20, 0, 0, 0] := by
    rw [← List.append_assoc]
    refine congrArg (· ++ [0x20, 0, 0, 0]) ?_
    calc buf ++ proxySig.drop buf.length
        = proxySig.take buf.length ++ proxySig.drop buf.length := by rw [← h]
      _ = proxySig := List.take_append_drop ..
  rw [hall]
  exact local_header ipsz

/-- **The header is parsed alike however it is cut.**  Nothing behind the bytes is read, an answer
stays what it is, the header is not longer than what is there, and more is asked for exactly while
the signature is right as far as it goes and the 16 bytes, or what they announce, are not all
there. -/
theorem proxyV2_incremental (buf : List UInt8) : ∃ r, ircProxyV2Parse ipsz buf = some r ∧
    (r.code ≠ .incomplete → ∀ more, ircProxyV2Parse ipsz (buf ++ more) = some r) ∧
    (∀ n, r.consumed = some n → n ≤ buf.length) ∧
    (r.code = .incomplete ↔ WaitsForMore buf) ∧
    (r.code = .incomplete → buf.length ≤ 12 →
      ∃ more r', ircProxyV2Parse ipsz (buf ++ more) = some r' ∧ r'.code = .ok) := by
  rcases ircProxyV2Parse_cases ipsz buf with ⟨hwaits, heq⟩ | ⟨hnot, r, hcode, hconsumed, hfinal⟩
  · exact ⟨.incomplete, heq, fun h => absurd rfl h,
      fun n hn => absurd hn (by simp [ProxyV2Result.incomplete]), iff_of_true rfl hwaits,
      fun _ hlen => sig_extends ipsz hwaits.1 hlen⟩
  · have hnow := hfinal []
    rw [List.append_nil] at hnow
    exact ⟨r, hnow, fun _ => hfinal, hconsumed, iff_of_false hcode hnot,
      fun h => absurd h hcode⟩

/-- **A wrong version waits** for the rest of the 16 bytes, though no header starts so. -/
theorem bad_version_waits :
    ircProxyV2Parse 64 (proxySig ++ [0x11]) = some .incomplete ∧
      ∀ more, ∃ r, ircProxyV2Parse 64 (proxySig ++ [0x11] ++ more) = some r ∧ r.code ≠ .ok := by
  refine ⟨rfl, fun more => ?_⟩
  have hsig : SigSoFar (proxySig ++ [0x11] ++ more) :=
    sigSoFar_append (by simp [proxySig]) (by unfold SigSoFar; decide) more
  rw [ircProxyV2Parse]
  by_cases hlen : (proxySig ++ [0x11] ++ more).length < 16
  · exact ⟨.incomplete, (if_neg (not_not.mpr hsig)).trans (if_pos hlen),
      by simp [ProxyV2Result.incomplete]⟩
  · exact ⟨.invalid none, (if_neg (not_not.mpr hsig)).trans ((if_neg hlen).trans rfl),
      by simp [ProxyV2Result.invalid]⟩

end SekurIRCd
