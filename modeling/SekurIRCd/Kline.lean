/-
# K-, G-, Z-, S- and E-lines

`KLINE`, `GLINE`, `ZLINE`, `SHUN` and `ELINE` put a line into one list, and for each of them there
is a command that takes it out again.  The mask of a line is not always kept as it was typed: a
Z-line keeps only the host part, and an address is written in its canonical form.  The commands
that remove a line look for the mask as it was typed, and `UNKLINE` and `UNZLINE` take the first
K-, G- or Z-line that has it.

So a line may not be found again, or one of another type may be taken in its place
(`other_line_removed`).  `unline_undoes_line` says exactly when a line is undone.
-/
import SekurIRCd.Lib.CString
import SekurIRCd.Spam
import Mathlib.Data.List.Basic
import Mathlib.Data.List.DropRight

namespace SekurIRCd

open CLib

/-! ## 1. Lines and their list

One list holds the lines of all five types. A line that is set again is refreshed where it is, and
a new one goes to the front. -/

/-- `line_type`. -/
inductive LineType
  | K | G | Z | S | E
deriving DecidableEq

/-- The letter of a type. -/
def LineType.letter : LineType → Text
  | .K => ['K']
  | .G => ['G']
  | .Z => ['Z']
  | .S => ['S']
  | .E => ['E']

/-- `kline_entry_t`. An expiry of 0 is that of a permanent line. The mask is what `line_common`
made of the one that was typed, cut to the field. -/
structure KLine where
  mask : Text
  reason : Text
  setBy : Text
  lineType : LineType
  expiresAt : Nat
deriving DecidableEq

/-- A K-, G- or Z-line. -/
def LineType.isBan (t : LineType) : Bool := decide (t ≠ .S ∧ t ≠ .E)

/-- `server_kline_prune_expired`. -/
def klinePruneExpired (now : Nat) (l : List KLine) : List KLine :=
  l.filter fun e => decide (e.expiresAt = 0 ∨ now < e.expiresAt)

/-- The line that `server_kline_add` refreshes. -/
def isLine (t : LineType) (mask : Text) (e : KLine) : Bool :=
  caseEq e.mask mask && decide (e.lineType = t)

/-- What is left of two expiries: no expiry at all outranks both. -/
def laterExpiry (old new : Nat) : Nat := if new = 0 ∨ old = 0 then 0 else max old new

/-- The first such line gets the later expiry. -/
def klineRefresh (t : LineType) (mask : Text) (newexp : Nat) : List KLine → List KLine
  | [] => []
  | e :: l =>
    if isLine t mask e then { e with expiresAt := laterExpiry e.expiresAt newexp } :: l
    else e :: klineRefresh t mask newexp l

/-- `server_kline_add`. A line with the same type and mask, case aside, gets the later of the two
expiries and keeps its reason; else a new line is put in front, its texts cut to their fields. -/
def klineAdd (now : Nat) (mask reason setBy : Text) (t : LineType) (duration : Nat)
    (l : List KLine) : List KLine :=
  let newexp := if 0 < duration then now + duration else 0
  if l.any (isLine t mask) then klineRefresh t mask newexp l
  else ⟨clip 256 mask, clip 256 reason, clip 128 setBy, t, newexp⟩ :: l

/-- What `server_kline_remove_typed` looks for; `none` is its type 0. -/
def typeOk (type : Option LineType) (e : KLine) : Bool :=
  match type with
  | some t => decide (e.lineType = t)
  | none => e.lineType.isBan

/-- `server_kline_remove_typed`: whether there was such a line, and the lines that are left. Only
the first one found is taken out; without a type, S- and E-lines are passed over. -/
def klineRemoveTyped (mask : Text) (type : Option LineType) (l : List KLine) : Bool × List KLine :=
  let p := fun e => typeOk type e && caseEq e.mask mask
  (l.any p, l.eraseP p)

/-! ## 2. The mask of a line

A Z-line is a mask on an address, so what is in front of the host part is taken off; an address is
then written as the C library writes it, with what is behind its slash kept as it came. -/

/-- `inet_pton` and `inet_ntop`: the bytes of an address, and how an address is written. They are
not part of the source, and all that is needed of them is which characters they write. -/
structure IpText where
  pton4 : Text → Option (List UInt8)
  pton6 : Text → Option (List UInt8)
  ntop4 : List UInt8 → Text
  ntop6 : List UInt8 → Text
  /-- Addresses are written with hexadecimal digits, dots and colons. -/
  ntop_chars : ∀ b, ∀ c ∈ ntop4 b ++ ntop6 b, c ∈ "0123456789abcdef.:".toList

/-- `::ffff:0:0/96`. -/
def mappedPart : List UInt8 := List.replicate 10 0 ++ [255, 255]

/-- The text that `format_ip` is left with before it adds the zero. -/
def IpText.ntop (ip : IpText) (v6 : Bool) (buf : List UInt8) : Text :=
  if v6 then (if buf.take 12 = mappedPart then ip.ntop4 (buf.drop 12) else ip.ntop6 buf)
  else ip.ntop4 buf

/-- `format_ip`. -/
def formatIp (ip : IpText) (v6 : Bool) (buf : List UInt8) (outsz : Nat) : Option Text :=
  let tmp := ip.ntop v6 buf
  let out := if tmp.head? = some ':' then '0' :: tmp else tmp
  if out.length < outsz then some out else none

/-- `irc_ip_normalize`. -/
def ircIpNormalize (ip : IpText) (s : Text) (outsz : Nat) : Option Text :=
  match ip.pton4 s with
  | some buf => formatIp ip false buf outsz
  | none => (ip.pton6 s).bind fun buf => formatIp ip true buf outsz

/-- What is in front of the host part, with its `@`. -/
def maskUser (mask : Text) : Text := mask.rdropWhile (· ≠ '@')

/-- The host part. -/
def maskHost (mask : Text) : Text := mask.rtakeWhile (· ≠ '@')

/-- A host part up to its slash. -/
def hostNet (host : Text) : Text := host.takeWhile (· ≠ '/')

/-- The slash and what is behind it. -/
def hostBits (host : Text) : Text := host.dropWhile (· ≠ '/')

/-- A host part whose address is written in the canonical form; `room` is what is left of the
buffer. -/
def canonHost (ip : IpText) (room : Nat) (host : Text) : Text :=
  match if (hostNet host).length < 64 then ircIpNormalize ip (hostNet host) 64 else none with
  | none => host
  | some norm => if norm = hostNet host then host else clip room (norm ++ clip 64 (hostBits host))

/-- The mask that `line_common` makes of its first parameter; `none` where it refuses it. A host
part of `*` alone is refused, and a number of 0 behind a slash, as either would hit everybody. -/
def lineMask (ip : IpText) (t : LineType) (param : Text) : Option Text :=
  let typed := clip 256 param
  let mask := if t = .Z then maskHost typed else typed
  let host := maskHost mask
  if host = ['*'] ∨ (hostBits host ≠ [] ∧ atol (hostBits host).tail = 0) then none
  else some (maskUser mask ++ canonHost ip (256 - (maskUser mask).length) host)

/-! ## 3. The commands

The commands are the list operations with a mask that was parsed in front and replies and news
behind. -/

/-- What goes to the links: `GLINE` and `SHUN`, `UNGLINE` and `UNSHUN`. -/
inductive LineNews
  | line (shun : Bool) (mask setter : Text) (expires : Nat) (reason : Text)
  | unline (shun : Bool) (mask : Text)

/-- The lines after a command, what the oper is told, and what the links are. -/
structure LineOutcome where
  lines : List KLine
  replies : List Text
  news : Option LineNews

section Commands

-- `format_expiry`
variable (formatExpiry : Nat → Text)

/-- A line as `line_common` lists it. -/
def lineListed (e : KLine) : Text :=
  let said := e.lineType.letter ++ "-line ".toList ++ e.mask ++ " (by ".toList ++ e.setBy
  clip 500 <| if e.expiresAt = 0 then said ++ ", permanent): ".toList ++ e.reason
    else said ++ ", expires ".toList ++ formatExpiry e.expiresAt ++ "): ".toList ++ e.reason

/-- The duration and the reason behind the mask. -/
def lineArgs : List Text → Nat × Text
  | [] => (0, "No reason given".toList)
  | arg :: args =>
    match ircParseDuration arg with
    | some d => (d, args.head?.getD "No reason given".toList)
    | none => (0, arg)

/-- `line_common`, without the clients that a new ban disconnects or warns. -/
def lineCommon (ip : IpText) (now : Nat) (nick : Text) (t : LineType) (params : List Text)
    (l : List KLine) : LineOutcome :=
  let l := klinePruneExpired now l
  match params with
  | [] =>
    ⟨l, if l = [] then ["No active K/G/Z-lines".toList] else l.map (lineListed formatExpiry), none⟩
  | param :: args =>
    match lineMask ip t param with
    | none => ⟨l, ["Refusing to add a line matching every address (mask '*' or a /0)".toList], none⟩
    | some mask =>
      let duration := (lineArgs args).1
      let reason := (lineArgs args).2
      let expires := if 0 < duration then now + duration else 0
      let said := t.letter ++ "-line added: ".toList ++ mask ++ " (".toList ++ reason
      ⟨klineAdd now mask reason nick t duration l,
        [clip 400 <| if duration = 0 then said ++ ") [permanent]".toList
          else said ++ ") [expires ".toList ++ formatExpiry expires ++ "]".toList],
        if t = .G then some (.line false mask nick expires reason)
        else if t = .S then some (.line true mask nick expires reason) else none⟩

/-- What the removers tell the oper. -/
def unlineReply (found : Bool) (mask : Text) : Text :=
  clip 300 ((if found then "Removed line: ".toList else "No such line: ".toList) ++ mask)

/-- `unline_common`. -/
def unlineCommon (mask : Text) (l : List KLine) : LineOutcome :=
  let r := klineRemoveTyped mask none l
  ⟨r.2, [unlineReply r.1 mask], none⟩

/-- `unline_typed`, and what is told to the links. -/
def unlineTyped (mask : Text) (t : LineType) (news : Option LineNews) (l : List KLine) :
    LineOutcome :=
  let r := klineRemoveTyped mask (some t) l
  ⟨r.2, [unlineReply r.1 mask], news⟩

/-- `cmd_unkline`, `cmd_ungline`, `cmd_unzline`, `cmd_unshun` and `cmd_uneline`. -/
def cmdUnline (t : LineType) (mask : Text) (l : List KLine) : LineOutcome :=
  match t with
  | .K => unlineCommon mask l
  | .G => unlineTyped mask .G (some (.unline false mask)) l
  | .Z => unlineCommon mask l
  | .S => unlineTyped mask .S (some (.unline true mask)) l
  | .E => unlineTyped mask .E none l

end Commands

/-! ## 4. Which mask is found again

What is kept of a mask and what is typed to remove it are compared without case. The mask that
comes back is told apart from the one that was typed in two places: the user part of a Z-line, and
the spelling of an address. -/

/-- The canonical form of an address has neither a slash nor an `@`. -/
theorem not_mem_normalize {ip : IpText} {s norm : Text} {outsz : Nat}
    (h : ircIpNormalize ip s outsz = some norm) : '/' ∉ norm ∧ '@' ∉ norm := by
  have hform : ∀ v6 buf, formatIp ip v6 buf outsz = some norm →
      ∀ c ∈ norm, c ∈ "0123456789abcdef.:".toList := by
    intro v6 buf hf c hc
    have hntop : ∀ c ∈ ip.ntop v6 buf, c ∈ "0123456789abcdef.:".toList := by
      intro c hc
      unfold IpText.ntop at hc
      split at hc
      · split at hc
        · exact ip.ntop_chars _ c (List.mem_append_left _ hc)
        · exact ip.ntop_chars _ c (List.mem_append_right _ hc)
      · exact ip.ntop_chars _ c (List.mem_append_left _ hc)
    unfold formatIp at hf
    obtain rfl := Option.some.inj (Option.ite_none_right_eq_some.mp hf).2
    split at hc
    · rcases List.mem_cons.mp hc with rfl | hc
      · decide
      · exact hntop c hc
    · exact hntop c hc
  have hall : ∀ c ∈ norm, c ∈ "0123456789abcdef.:".toList := by
    unfold ircIpNormalize at h
    split at h
    · exact hform false _ h
    · obtain ⟨buf, -, hf⟩ := Option.bind_eq_some_iff.mp h
      exact hform true buf hf
  exact ⟨fun hm => absurd (hall _ hm) (by decide), fun hm => absurd (hall _ hm) (by decide)⟩

theorem hostNet_append_hostBits (host : Text) : hostNet host ++ hostBits host = host :=
  List.takeWhile_append_dropWhile

theorem slash_not_mem_hostNet (host : Text) : '/' ∉ hostNet host := fun h => by
  have := List.mem_takeWhile_imp h
  simp at this

theorem hostBits_eq (host : Text) : hostBits host = [] ∨ ∃ r, hostBits host = '/' :: r := by
  cases h : hostBits host with
  | nil => exact Or.inl rfl
  | cons c r =>
    have hc := List.head?_dropWhile_not (fun c => decide (c ≠ '/')) host
    rw [show host.dropWhile (fun c => decide (c ≠ '/')) = c :: r from h] at hc
    simp only [List.head?_cons, decide_eq_false_iff_not, not_not] at hc
    exact Or.inr ⟨r, by rw [hc]⟩

/-- The host part keeps its spelling, up to the case: it has no address in it, or one that is
written as it would be written by the server, with no more behind the slash than is kept. -/
def KeepsHost (ip : IpText) (room : Nat) (host : Text) : Prop :=
  (hostNet host).length < 64 → ∀ norm, ircIpNormalize ip (hostNet host) 64 = some norm →
    norm = hostNet host ∨
      (caseEq (clip room norm) (hostNet host) = true ∧ (hostBits host).length < 64)

/-- Texts are compared up to their first slash and behind it. -/
theorem lower_slash {a b r r' : Text} (ha : '/' ∉ a) (hb : '/' ∉ b)
    (h : lower (a ++ '/' :: r) = lower (b ++ '/' :: r')) :
    lower a = lower b ∧ lower r = lower r' := by
  have hslash : Char.toLower '/' = '/' := by decide
  have hno : ∀ {a : Text}, '/' ∉ a → '/' ∉ lower a := fun ha hm =>
    ha ((mem_lower (by decide)).mp hm)
  rw [lower_append, lower_append] at h
  have hcons : ∀ r, lower ('/' :: r) = '/' :: lower r := fun r => by
    rw [lower, List.map_cons, hslash, lower]
  rw [hcons, hcons] at h
  have hfound := congrArg (strchr '/') h
  rw [strchr_append (hno ha), strchr_append (hno hb)] at hfound
  exact Prod.mk.inj (Option.some.inj hfound)

/-- The address and what is behind the slash are kept if both of them are. -/
theorem cut_caseEq {room : Nat} {norm net bits : Text} (hnet : '/' ∉ net) (hnorm : '/' ∉ norm)
    (hbits : bits = [] ∨ ∃ r, bits = '/' :: r) (hroom : net.length + bits.length < room) :
    caseEq (clip room (norm ++ clip 64 bits)) (net ++ bits) = true ↔
      caseEq (clip room norm) net = true ∧ bits.length < 64 := by
  constructor
  · intro h
    have hlen := caseEq_length h
    rcases hbits with rfl | ⟨r, rfl⟩
    · simpa [clip] using h
    · -- the slash is still there, so the address before it has not been cut
      have hmem : '/' ∈ clip room (norm ++ clip 64 ('/' :: r)) := by
        rw [← mem_lower (by decide), caseEq_iff.mp h, mem_lower (by decide)]
        simp
      have hfits : norm.length < room - 1 := by
        by_contra hle
        have htake : clip room (norm ++ clip 64 ('/' :: r)) = norm.take (room - 1) :=
          List.take_append_of_le_length (by omega)
        rw [htake] at hmem
        exact hnorm (List.mem_of_mem_take hmem)
      have hclip : clip room (norm ++ clip 64 ('/' :: r)) =
          norm ++ '/' :: (r.take 62).take (room - 1 - norm.length - 1) := by
        obtain ⟨k, hk⟩ : ∃ k, room - 1 - norm.length = k + 1 := ⟨room - 2 - norm.length, by omega⟩
        simp only [clip, List.take_append, List.take_of_length_le (Nat.le_of_lt hfits)]
        rw [hk]
        rfl
      rw [hclip] at h hlen
      have hnorm' := lower_slash hnorm hnet (caseEq_iff.mp h)
      refine ⟨?_, ?_⟩
      · rw [clip_of_fits (by omega), caseEq_iff]
        exact hnorm'.1
      · have hr := congrArg List.length hnorm'.2
        simp only [lower_length, List.length_take] at hr
        rw [List.length_cons]
        omega
  · rintro ⟨h, hshort⟩
    have hlen := caseEq_length h
    rw [clip_of_fits hshort]
    rcases hbits with rfl | ⟨r, rfl⟩
    · simpa using h
    · have hfits : norm.length < room := by
        rw [clip, List.length_take] at hlen
        rw [List.length_cons] at hroom
        omega
      rw [clip_of_fits hfits] at h hlen
      rw [clip_of_fits (by rw [List.length_append]; omega), caseEq_iff, lower_append, lower_append,
        caseEq_iff.mp h]

theorem canonHost_caseEq {ip : IpText} {room : Nat} {host : Text} (hroom : host.length < room) :
    caseEq (canonHost ip room host) host = true ↔ KeepsHost ip room host := by
  have hhost := hostNet_append_hostBits host
  have hlen : (hostNet host).length + (hostBits host).length = host.length := by
    rw [← List.length_append, hhost]
  by_cases hnet : (hostNet host).length < 64
  · cases hnorm : ircIpNormalize ip (hostNet host) 64 with
    | none => simp [canonHost, KeepsHost, hnorm]
    | some norm =>
      by_cases heq : norm = hostNet host
      · have hcanon : canonHost ip room host = host := by
          simp only [canonHost, hnet, hnorm, heq, if_true]
        rw [hcanon]
        simp [KeepsHost, hnorm, heq]
      · have hcanon : canonHost ip room host = clip room (norm ++ clip 64 (hostBits host)) := by
          simp only [canonHost, hnet, hnorm, heq, if_true, if_false]
        have hkeep : KeepsHost ip room host ↔
            caseEq (clip room norm) (hostNet host) = true ∧ (hostBits host).length < 64 := by
          simp [KeepsHost, hnet, hnorm, heq]
        have hcut := cut_caseEq (slash_not_mem_hostNet host) (not_mem_normalize hnorm).1
          (hostBits_eq host) (by omega : (hostNet host).length + (hostBits host).length < room)
        rw [hhost] at hcut
        rw [hcanon, hkeep, hcut]
  · simp [canonHost, KeepsHost, hnet]

theorem canonHost_cases (ip : IpText) (room : Nat) (host : Text) :
    canonHost ip room host = host ∨ ∃ norm, ircIpNormalize ip (hostNet host) 64 = some norm ∧
      canonHost ip room host = clip room (norm ++ clip 64 (hostBits host)) := by
  unfold canonHost
  split
  · exact Or.inl rfl
  · next norm h =>
    split
    · exact Or.inl rfl
    · exact Or.inr ⟨norm, (Option.ite_none_right_eq_some.mp h).2, rfl⟩

theorem canonHost_length (ip : IpText) {room : Nat} {host : Text} (hroom : host.length < room) :
    (canonHost ip room host).length < room := by
  rcases canonHost_cases ip room host with h | ⟨norm, -, h⟩
  · rw [h]
    exact hroom
  · rw [h]
    have := clip_length_le room (norm ++ clip 64 (hostBits host))
    omega

theorem at_not_mem_canonHost {ip : IpText} {room : Nat} {host : Text} (hat : '@' ∉ host) :
    '@' ∉ canonHost ip room host := by
  rcases canonHost_cases ip room host with h | ⟨norm, hnorm, h⟩
  · rw [h]
    exact hat
  · intro hm
    rw [h] at hm
    rcases List.mem_append.mp (mem_of_mem_clip hm) with hm | hm
    · exact (not_mem_normalize hnorm).2 hm
    · exact hat ((List.dropWhile_suffix _).mem (mem_of_mem_clip hm))

theorem maskUser_append_maskHost (mask : Text) : maskUser mask ++ maskHost mask = mask :=
  List.rdropWhile_append_rtakeWhile

theorem at_not_mem_maskHost (mask : Text) : '@' ∉ maskHost mask := fun h => by
  have := List.mem_rtakeWhile_imp h
  simp at this

theorem maskHost_of_not_mem {mask : Text} (h : '@' ∉ mask) : maskHost mask = mask := by
  refine List.rtakeWhile_eq_self_iff.mpr fun c hc => ?_
  simp only [ne_eq, decide_not, Bool.not_eq_eq_eq_not, Bool.not_true, decide_eq_false_iff_not]
  rintro rfl
  exact h hc

/-- The mask is kept as it was typed, up to the case. A Z-line keeps no user part, so it has none
to lose, and the host part keeps its spelling. -/
structure KeepsMask (ip : IpText) (t : LineType) (param : Text) : Prop where
  short : param.length < 256
  host_only : t = .Z → '@' ∉ param
  host : KeepsHost ip (256 - (maskUser param).length) (maskHost param)

/-- The mask that is kept, given the one that is looked at. -/
def keptMask (ip : IpText) (mask : Text) : Text :=
  maskUser mask ++ canonHost ip (256 - (maskUser mask).length) (maskHost mask)

theorem keptMask_length {ip : IpText} {mask : Text} (h : mask.length < 256) :
    (keptMask ip mask).length < 256 := by
  have hlen := congrArg List.length (maskUser_append_maskHost mask)
  rw [List.length_append] at hlen
  have hhost := canonHost_length ip
    (by omega : (maskHost mask).length < 256 - (maskUser mask).length)
  rw [keptMask, List.length_append]
  omega

theorem keptMask_caseEq {ip : IpText} {mask : Text} (h : mask.length < 256) :
    caseEq (keptMask ip mask) mask = true ↔
      KeepsHost ip (256 - (maskUser mask).length) (maskHost mask) := by
  have hlen := congrArg List.length (maskUser_append_maskHost mask)
  rw [List.length_append] at hlen
  rw [← canonHost_caseEq (by omega), caseEq_iff, caseEq_iff]
  nth_rewrite 2 [← maskUser_append_maskHost mask]
  rw [keptMask, lower_append, lower_append, List.append_cancel_left_eq]

theorem lineMask_some {ip : IpText} {t : LineType} {param stored : Text}
    (h : lineMask ip t param = some stored) :
    stored = keptMask ip (if t = .Z then maskHost (clip 256 param) else clip 256 param) :=
  (Option.some.inj (Option.ite_none_left_eq_some.mp h).2).symm

theorem lineMask_length {ip : IpText} {t : LineType} {param stored : Text}
    (h : lineMask ip t param = some stored) : stored.length < 256 := by
  have hclip := clip_length_le 256 param
  rw [lineMask_some h]
  split
  · have hhost : (maskHost (clip 256 param)).length ≤ (clip 256 param).length :=
      (List.rtakeWhile_suffix ..).length_le
    exact keptMask_length (by omega)
  · exact keptMask_length (by omega)

/-- **Which masks are found again by what was typed.** -/
theorem lineMask_caseEq {ip : IpText} {t : LineType} {param stored : Text}
    (h : lineMask ip t param = some stored) :
    caseEq stored param = true ↔ KeepsMask ip t param := by
  have hlen := lineMask_length h
  by_cases hshort : param.length < 256
  · have hsome := lineMask_some h
    rw [clip_of_fits hshort] at hsome
    by_cases hz : t = .Z ∧ '@' ∈ param
    · -- the host part alone has no @
      have hno : '@' ∉ stored := by
        rw [hsome, if_pos hz.1, keptMask, List.mem_append, not_or]
        have hhost := at_not_mem_maskHost param
        refine ⟨fun hm => hhost ((List.rdropWhile_prefix _ _).mem hm), at_not_mem_canonHost ?_⟩
        exact at_not_mem_maskHost _
      constructor
      · intro heq
        rw [← mem_lower (by decide), caseEq_iff.mp heq, mem_lower (by decide)] at hno
        exact absurd hz.2 hno
      · exact fun hk => absurd hz.2 (hk.host_only hz.1)
    · have hmask : stored = keptMask ip param := by
        rw [hsome]
        split
        · next ht => rw [maskHost_of_not_mem fun hm => hz ⟨ht, hm⟩]
        · rfl
      rw [hmask, keptMask_caseEq hshort]
      exact ⟨fun hk => ⟨hshort, fun ht hm => hz ⟨ht, hm⟩, hk⟩, KeepsMask.host⟩
  · constructor
    · intro heq
      have := caseEq_length heq
      omega
    · exact fun hk => absurd hk.short hshort

/-! ## 5. Erasing one line of a list

A remover erases the first line that its search finds, so two removers are compared by what they
find. -/

section Erase

variable {α : Type*} {p q r : α → Bool}

theorem eraseP_ne_cons {a : α} (h : p a = false) : ∀ l : List α, a :: l.eraseP p ≠ l
  | [] => by simp
  | b :: l => by
    intro heq
    obtain ⟨rfl, htail⟩ := List.cons.inj heq
    rw [List.eraseP_cons_of_neg (by simp [h])] at htail
    exact eraseP_ne_cons h l htail

/-- Two searches that erase alike have found the same. -/
theorem eraseP_eq_eraseP_iff {l : List α} : l.eraseP p = l.eraseP q ↔ l.find? p = l.find? q := by
  induction l with
  | nil => simp
  | cons a l ih =>
    cases hp : p a with
    | true =>
      rw [List.eraseP_cons_of_pos hp, List.find?_cons_of_pos hp]
      cases hq : q a with
      | true => simp [hq]
      | false =>
        rw [List.eraseP_cons_of_neg (by simp [hq]), List.find?_cons_of_neg (by simp [hq])]
        refine iff_of_false (fun h => eraseP_ne_cons hq l h.symm) fun h => ?_
        rw [List.find?_some h.symm] at hq
        cases hq
    | false =>
      rw [List.eraseP_cons_of_neg (by simp [hp]), List.find?_cons_of_neg (by simp [hp])]
      cases hq : q a with
      | true =>
        rw [List.eraseP_cons_of_pos hq, List.find?_cons_of_pos hq]
        refine iff_of_false (eraseP_ne_cons hp l) fun h => ?_
        rw [List.find?_some h] at hp
        cases hp
      | false =>
        rw [List.eraseP_cons_of_neg (by simp [hq]), List.find?_cons_of_neg (by simp [hq]), ← ih,
          List.cons.injEq, and_iff_right rfl]

/-- Nothing that a filter keeps is lost exactly if what is found is not kept. -/
theorem filter_eraseP_iff {l : List α} :
    (l.eraseP p).filter r = l.filter r ↔ ∀ a ∈ l.find? p, r a = false := by
  induction l with
  | nil => simp
  | cons a l ih =>
    cases hp : p a with
    | true =>
      rw [List.eraseP_cons_of_pos hp, List.find?_cons_of_pos hp]
      cases hr : r a with
      | true =>
        rw [List.filter_cons_of_pos hr]
        refine iff_of_false (fun h => ?_) fun h => ?_
        · have := congrArg List.length h
          simp at this
        · have := h a rfl
          rw [hr] at this
          cases this
      | false => simp [hr]
    | false =>
      rw [List.eraseP_cons_of_neg (by simp [hp]), List.find?_cons_of_neg (by simp [hp]), ← ih]
      cases hr : r a with
      | true => rw [List.filter_cons_of_pos hr, List.filter_cons_of_pos hr, List.cons.injEq,
          and_iff_right rfl]
      | false => rw [List.filter_cons_of_neg (by simp [hr]), List.filter_cons_of_neg (by simp [hr])]

/-- A narrower search finds what a wider one found, if that is in it. -/
theorem find?_of_find? (hqp : ∀ a, q a = true → p a = true) {l : List α} {a : α}
    (h : l.find? p = some a) (hq : q a = true) : l.find? q = some a := by
  obtain ⟨-, as, bs, rfl, hno⟩ := List.find?_eq_some_iff_append.mp h
  refine List.find?_eq_some_iff_append.mpr ⟨hq, as, bs, rfl, fun b hb => ?_⟩
  have := hno b hb
  cases hqb : q b with
  | false => rfl
  | true => simp [hqp b hqb] at this

end Erase

/-! ## 6. What is removed

`UNKLINE` and `UNZLINE` search with no type at all. What they find first need not be theirs, and
the two halves of the main theorem say when it is, and when the line that was just added is the
one. -/

/-- The lines of the other types. -/
def otherLines (t : LineType) (l : List KLine) : List KLine :=
  l.filter fun e => decide (e.lineType ≠ t)

/-- What `UNKLINE` and the others look for. -/
def unlineType (t : LineType) : Option LineType := if t = .K ∨ t = .Z then none else some t

/-- The first line that the command of a type finds is of that type. For `UNGLINE`, `UNSHUN` and
`UNELINE` this always holds, since they search by type; for `UNKLINE` and `UNZLINE` no other K-, G-
or Z-line with the mask may stand before it. -/
def OwnFirst (t : LineType) (mask : Text) (l : List KLine) : Prop :=
  t = .K ∨ t = .Z →
    ∀ e ∈ l.find? (fun e => e.lineType.isBan && caseEq e.mask mask), e.lineType = t

/-- The search of the command of a type. -/
def unlineHits (t : LineType) (mask : Text) (e : KLine) : Bool :=
  typeOk (unlineType t) e && caseEq e.mask mask

theorem cmdUnline_lines (t : LineType) (mask : Text) (l : List KLine) :
    (cmdUnline t mask l).lines = l.eraseP (unlineHits t mask) := by
  cases t <;> rfl

theorem unlineHits_of_isLine {t : LineType} {mask : Text} {e : KLine} (h : isLine t mask e = true) :
    unlineHits t mask e = true := by
  simp only [isLine, Bool.and_eq_true, decide_eq_true_eq] at h
  obtain ⟨hmask, rfl⟩ := h
  rw [unlineHits, hmask, Bool.and_true]
  cases ht : e.lineType <;> simp [unlineType, typeOk, ht, LineType.isBan]

theorem ownFirst_iff {t : LineType} {mask : Text} {l : List KLine} :
    OwnFirst t mask l ↔ ∀ e ∈ l.find? (unlineHits t mask), e.lineType = t := by
  by_cases ht : t = .K ∨ t = .Z
  · have hhits : unlineHits t mask = fun e => e.lineType.isBan && caseEq e.mask mask := by
      funext e
      simp only [unlineHits, unlineType, ht, if_true, typeOk]
    rw [hhits, OwnFirst, imp_iff_right ht]
  · refine iff_of_true (fun h => absurd h ht) fun e he => ?_
    have := List.find?_some he
    simp only [unlineHits, unlineType, ht, if_false, typeOk, Bool.and_eq_true, decide_eq_true_eq]
      at this
    exact this.1

/-- **No line of another type is removed** exactly if the first one found is of the type. -/
theorem otherLines_cmdUnline {t : LineType} {mask : Text} {l : List KLine} :
    otherLines t (cmdUnline t mask l).lines = otherLines t l ↔ OwnFirst t mask l := by
  rw [cmdUnline_lines, otherLines, otherLines, filter_eraseP_iff, ownFirst_iff]
  simp

/-- Refreshing a line changes no type and no mask. -/
theorem find?_klineRefresh {p : KLine → Bool} (hp : ∀ e x, p { e with expiresAt := x } = p e)
    (t : LineType) (mask : Text) (newexp : Nat) (l : List KLine) :
    ((klineRefresh t mask newexp l).find? p).map KLine.lineType =
      (l.find? p).map KLine.lineType := by
  induction l with
  | nil => rfl
  | cons e l ih =>
    rw [klineRefresh]
    split
    · rw [List.find?_cons, List.find?_cons, hp]
      cases p e <;> rfl
    · rw [List.find?_cons, List.find?_cons]
      cases p e
      · exact ih
      · rfl

theorem otherLines_klineRefresh (t : LineType) (mask : Text) (newexp : Nat) (l : List KLine) :
    otherLines t (klineRefresh t mask newexp l) = otherLines t l := by
  induction l with
  | nil => rfl
  | cons e l ih =>
    rw [klineRefresh]
    split
    · next h =>
      have ht : e.lineType = t := by
        simp only [isLine, Bool.and_eq_true, decide_eq_true_eq] at h
        exact h.2
      simp [otherLines, ht]
    · simp only [otherLines, List.filter_cons] at ih ⊢
      rw [ih]

theorem exists_isLine_klineAdd (now duration : Nat) {mask : Text} (reason setBy : Text)
    (t : LineType) (l : List KLine) (hmask : mask.length < 256) :
    ∃ e, (klineAdd now mask reason setBy t duration l).find? (isLine t mask) = some e := by
  rw [← Option.isSome_iff_exists, klineAdd]
  split
  · next h =>
    have hp : ∀ e x, isLine t mask { e with expiresAt := x } = isLine t mask e := fun _ _ => rfl
    have hmap := find?_klineRefresh hp t mask (if 0 < duration then now + duration else 0) l
    rw [← Option.isSome_map (f := KLine.lineType), hmap, Option.isSome_map, List.find?_isSome]
    exact List.any_eq_true.mp h
  · simp [isLine, clip_of_fits hmask]

theorem otherLines_klineAdd (now duration : Nat) (mask reason setBy : Text) (t : LineType)
    (l : List KLine) :
    otherLines t (klineAdd now mask reason setBy t duration l) = otherLines t l := by
  rw [klineAdd]
  split
  · exact otherLines_klineRefresh t mask _ l
  · simp [otherLines]

/-- A new line stands before all others, and a refreshed one stays where it is. -/
theorem ownFirst_klineAdd (now duration : Nat) {mask : Text} (reason setBy : Text) {t : LineType}
    {l : List KLine} (hmask : mask.length < 256) :
    OwnFirst t mask (klineAdd now mask reason setBy t duration l) ↔
      (l.any (isLine t mask) = true → OwnFirst t mask l) := by
  rw [klineAdd]
  split
  · next h =>
    have hp : ∀ e x, unlineHits t mask { e with expiresAt := x } = unlineHits t mask e :=
      fun _ _ => rfl
    have hmap := find?_klineRefresh hp t mask (if 0 < duration then now + duration else 0) l
    have htype : ∀ l : List KLine, OwnFirst t mask l ↔
        ∀ x ∈ (l.find? (unlineHits t mask)).map KLine.lineType, x = t := fun l => by
      rw [ownFirst_iff]
      simp
    rw [imp_iff_right h, htype, htype, hmap]
  · next h =>
    refine iff_of_true (ownFirst_iff.mpr fun e he => ?_) fun h' => absurd h' h
    have hself : unlineHits t mask (KLine.mk (clip 256 mask) (clip 256 reason) (clip 128 setBy) t
        (if 0 < duration then now + duration else 0)) = true :=
      unlineHits_of_isLine (by simp [isLine, clip_of_fits hmask])
    rw [List.find?_cons_of_pos hself] at he
    obtain rfl := Option.some.inj he
    rfl

/-- **A line that was added is removed again** exactly if its mask was kept and no other line is
found before it. -/
theorem eraseP_klineAdd (now duration : Nat) {mask param : Text} (reason setBy : Text)
    {t : LineType} {l : List KLine} (hmask : mask.length < 256) :
    (cmdUnline t param (klineAdd now mask reason setBy t duration l)).lines =
        (klineAdd now mask reason setBy t duration l).eraseP (isLine t mask) ↔
      caseEq mask param = true ∧ (l.any (isLine t param) = true → OwnFirst t param l) := by
  obtain ⟨e, he⟩ := exists_isLine_klineAdd now duration reason setBy t l hmask
  have hline := List.find?_some he
  simp only [isLine, Bool.and_eq_true, decide_eq_true_eq] at hline
  rw [cmdUnline_lines, eraseP_eq_eraseP_iff, he]
  -- with the mask kept, both searches are for the same mask
  have hsame : caseEq mask param = true →
      ((klineAdd now mask reason setBy t duration l).find? (unlineHits t param) = some e ↔
        (l.any (isLine t param) = true → OwnFirst t param l)) := by
    intro hkept
    have hisLine : isLine t param = isLine t mask := by
      funext e
      rw [isLine, isLine, caseEq_congr hkept]
    have hhits : unlineHits t param = unlineHits t mask := by
      funext e
      rw [unlineHits, unlineHits, caseEq_congr hkept]
    have hown : ∀ l, OwnFirst t param l ↔ OwnFirst t mask l := fun l => by
      rw [ownFirst_iff, ownFirst_iff, hhits]
    rw [hisLine, hown, ← ownFirst_klineAdd now duration reason setBy hmask, ownFirst_iff, hhits]
    constructor
    · intro hfind e' he'
      rw [hfind] at he'
      obtain rfl := Option.some.inj he'
      exact hline.2
    · intro hfirst
      cases hfind : (klineAdd now mask reason setBy t duration l).find? (unlineHits t mask) with
      | none =>
        have := List.find?_eq_none.mp hfind e (List.mem_of_find?_eq_some he)
        exact absurd (unlineHits_of_isLine (List.find?_some he)) this
      | some e' =>
        have htype : e'.lineType = t := hfirst e' hfind
        have hmask' := List.find?_some hfind
        rw [unlineHits, Bool.and_eq_true] at hmask'
        have hq : isLine t mask e' = true := by simp [isLine, hmask'.2, htype]
        rw [← he, find?_of_find? (fun _ => unlineHits_of_isLine) hfind hq]
  constructor
  · intro hfind
    have hhit := List.find?_some hfind
    rw [unlineHits, Bool.and_eq_true] at hhit
    have hkept : caseEq mask param = true := by
      rw [caseEq_iff, ← caseEq_iff.mp hline.1, caseEq_iff.mp hhit.2]
    exact ⟨hkept, (hsame hkept).mp hfind⟩
  · rintro ⟨hkept, hfirst⟩
    exact (hsame hkept).mpr hfirst

/-- The line with this mask was there and is gone, and the other lines are as they were. Where a
mask has lines of several types, only one may go. -/
structure Undone (t : LineType) (mask : Text) (l l' : List KLine) : Prop where
  was_there : l.any (isLine t mask) = true
  removed : l' = l.eraseP (isLine t mask)
  others : otherLines t l' = otherLines t l

/-- **When a line is undone, and when a line of another type is taken instead.** The first half is
about a line that was just set and the mask it was typed with; the second is about any list and
mask. -/
theorem unline_undoes_line (formatExpiry : Nat → Text) (ip : IpText) (now : Nat) (nick : Text)
    (t : LineType) (param : Text) (args : List Text) (l : List KLine) :
    (∀ stored, lineMask ip t param = some stored →
      let added := (lineCommon formatExpiry ip now nick t (param :: args) l).lines
      (Undone t stored added (cmdUnline t param added).lines ∧
          otherLines t added = otherLines t (klinePruneExpired now l) ↔
        KeepsMask ip t param ∧ ((klinePruneExpired now l).any (isLine t param) = true →
          OwnFirst t param (klinePruneExpired now l)))) ∧
    (otherLines t (cmdUnline t param l).lines = otherLines t l ↔ OwnFirst t param l) := by
  refine ⟨fun stored h => ?_, otherLines_cmdUnline⟩
  have hadded : (lineCommon formatExpiry ip now nick t (param :: args) l).lines =
      klineAdd now stored (lineArgs args).2 nick t (lineArgs args).1 (klinePruneExpired now l) := by
    simp only [lineCommon, h]
  have hlen := lineMask_length h
  simp only [hadded]
  rw [← lineMask_caseEq h, ← eraseP_klineAdd now (lineArgs args).1 (lineArgs args).2 nick hlen]
  constructor
  · exact fun hundone => hundone.1.removed
  · intro hremoved
    obtain ⟨e, he⟩ := exists_isLine_klineAdd now (lineArgs args).1 (lineArgs args).2 nick t
      (klinePruneExpired now l) hlen
    refine ⟨⟨?_, hremoved, ?_⟩, otherLines_klineAdd ..⟩
    · exact List.any_eq_true.mpr ⟨e, List.mem_of_find?_eq_some he, List.find?_some he⟩
    · rw [hremoved, otherLines, otherLines, filter_eraseP_iff]
      intro e he
      have := List.find?_some he
      simp only [isLine, Bool.and_eq_true, decide_eq_true_eq] at this
      simp [this.2]

/-- Where no text is an address. -/
def namesOnly : IpText where
  pton4 := fun _ => none
  pton6 := fun _ => none
  ntop4 := fun _ => []
  ntop6 := fun _ => []
  ntop_chars := by simp

theorem unline_undoes_line_demo :
    let l := [KLine.mk "*.example".toList "spam".toList "boss".toList .G 0]
    let added := (lineCommon (fun _ => []) namesOnly 1000 "boss".toList .K ["*.Example".toList,
      "1h".toList] l).lines
    Undone .K "*.Example".toList added (cmdUnline .K "*.Example".toList added).lines := by
  intro l added
  have h := (unline_undoes_line (fun _ => []) namesOnly 1000 "boss".toList .K "*.Example".toList
    ["1h".toList] l).1 "*.Example".toList (by decide +kernel)
  refine (h.mpr ⟨⟨by decide, by decide, ?_⟩, fun hany => absurd hany (by decide +kernel)⟩).1
  intro _ norm hnorm
  cases hnorm

/-- `UNKLINE` removes a G-line, and a Z-line is not found by the mask it was set with. -/
theorem other_line_removed :
    let gline := [KLine.mk "*.example".toList "spam".toList "boss".toList .G 0]
    let added := (lineCommon (fun _ => []) namesOnly 1000 "boss".toList .Z
      ["bob@host.example".toList] []).lines
    otherLines .K (cmdUnline .K "*.example".toList gline).lines ≠ otherLines .K gline ∧
      lineMask namesOnly .Z "bob@host.example".toList = some "host.example".toList ∧
      ¬Undone .Z "host.example".toList added
        (cmdUnline .Z "bob@host.example".toList added).lines := by
  refine ⟨by decide +kernel, by decide +kernel, fun h => ?_⟩
  exact absurd h.removed (by decide +kernel)

end SekurIRCd
