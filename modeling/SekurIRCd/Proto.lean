/-
# The wire protocol: lines, names and case

`proto.c` is pure: it cuts a line into a message (`irc_parse_line`), puts a message together
into a buffer (`irc_build`) and says which names are well formed.  Both directions are modelled
in full, tags included, because every statement about two servers goes through a line that one
of them built and the other parsed.

Two properties of `irc_build` decide what survives the trip.  A middle parameter is *defanged*
(`mid`): an empty one becomes `*`, a leading colon and every space become underscores, and CR
and LF disappear.  And a line that does not fit its buffer is cut off where the next piece
would have gone (`Buf`), with `-1` returned to callers that mostly ignore it.  So the round trip
`ircParseLine_ircLine` speaks of `params.map mid`, and `ircBuild_of_fits` asks for room.
-/
import SekurIRCd.Lib.CString

namespace SekurIRCd

open CLib

/-! ## 1. Parsing

A line is taken apart from the front: tags, source, and then the command with its parameters. The
source code does it in place, writing NULs into the line; here each step returns what it found and
what is left. -/

def ircMaxParams : Nat := 32

def ircMaxTags : Nat := 32

def maxRawTokens : Nat := 300

/-- `irc_message_t`. -/
structure IrcMessage where
  tags : List (Text × Text)
  pfx : Option Text
  command : Text
  params : List Text
deriving DecidableEq, Repr

/-- `unescape_tag_value_inplace`. -/
def unescapeTagValue : Text → Text
  | '\\' :: c :: r =>
    (if c = ':' then ';' else if c = 's' then ' ' else if c = 'r' then '\r'
      else if c = 'n' then '\n' else c) :: unescapeTagValue r
  | c :: r => c :: unescapeTagValue r
  | [] => []

/-- One `key[=value]` piece of the tag section. -/
def parseTag (part : Text) : Text × Text :=
  match strchr '=' part with
  | some (k, v) => (k, unescapeTagValue v)
  | none => (part, [])

/-- The leading `@tags `, when there is one. -/
def takeTags (line : Text) : Option (List (Text × Text) × Text) :=
  match line with
  | '@' :: rest =>
    match strchr ' ' rest with
    | none => none
    | some (tagStr, l) =>
      if l = [] then none else some (((strtok ';' tagStr).map parseTag).take ircMaxTags, l)
  | _ => some ([], line)

/-- The leading `:source `, when there is one. -/
def takePfx (line : Text) : Option (Option Text × Text) :=
  match line with
  | ':' :: rest => (strchr ' ' rest).map fun r => (some r.1, r.2)
  | _ => some (none, line)

/-- The parameters: the words that are not empty, then the trailing text, up to the cap. -/
def takeParams (words : List Text) (trailing : Option Text) : List Text :=
  let mids := (words.filter (· ≠ [])).take ircMaxParams
  match trailing with
  | some t => if mids.length < ircMaxParams then mids ++ [t] else mids
  | none => mids

/-- What is left behind the tags and the source: the command and its parameters.  A trailing
parameter starts at the first `" :"`, wherever that is. -/
def parseBody (tags : List (Text × Text)) (pfx : Option Text) (line : Text) :
    Option IrcMessage :=
  let cut : Text × Option Text := match strstr [' ', ':'] line with
    | some (a, t) => (a, some t)
    | none => (line, none)
  match splitSep ' ' cut.1 with
  | [] => none
  | c :: words =>
    if c = [] ∨ maxRawTokens < words.length + 1 then none
    else some
      { tags := tags, pfx := pfx, command := c.map Char.toUpper,
        params := takeParams words cut.2 }

/-- `irc_parse_line`; `none` is its `-1`. -/
def ircParseLine (line : Text) : Option IrcMessage :=
  (takeTags line).bind fun t => (takePfx t.2).bind fun p => parseBody t.1 p.1 p.2

/-! ## 2. Building

A line is put together piece by piece into a buffer. The first piece that does not fit ends it with
`-1`, and what is in the buffer by then stays there; only the trailing text is cut to the room
instead. -/

/-- `irc_escape(out, outsz, in)`. -/
def ircEscape (outsz : Nat) (s : Text) : Text :=
  (s.filter fun c => c ≠ '\r' ∧ c ≠ '\n').take (outsz - 1)

theorem ircEscape_length_le {n : Nat} (t : Text) : (ircEscape n t).length ≤ t.length :=
  (List.length_take_le' ..).trans (List.length_filter_le ..)

/-- `escape_tag_value(out, 1024, in)`: stops while two more bytes might not fit. -/
def escapeTagValue : Nat → Text → Text
  | _, [] => []
  | room, c :: s =>
    if room ≤ 2 then []
    else
      let e : Text := if c = '\\' then ['\\', '\\'] else if c = ';' then ['\\', ':']
        else if c = ' ' then ['\\', 's'] else if c = '\r' then ['\\', 'r']
        else if c = '\n' then ['\\', 'n'] else [c]
      e ++ escapeTagValue (room - e.length) s

/-- The output buffer of `irc_build`: the text so far, and whether everything has fitted. -/
structure Buf where
  text : Text
  ok : Bool
deriving DecidableEq, Repr

/-- `append_str`.  After a failure `irc_build` returns, so nothing more is appended. -/
def appendStr (outsz : Nat) (s : Text) (b : Buf) : Buf :=
  if b.ok ∧ b.text.length + s.length < outsz then ⟨b.text ++ s, true⟩ else ⟨b.text, false⟩

/-- What becomes of a middle parameter: never empty, no space, no leading colon. Where a name or a
mask may have one of these, what arrives is not what was sent. -/
def mid (param : Text) : Text :=
  (match ircEscape 512 param with
    | [] => ['*']
    | c :: s => (if c = ':' then '_' else c) :: s).map fun c => if c = ' ' then '_' else c

/-- The tag section. -/
def appendTags (outsz : Nat) : List (Text × Text) → Buf → Buf
  | [], b => b
  | ts, b =>
    let piece (t : Text × Text) : List Text :=
      if t.2 = [] then [t.1] else [t.1, ['='], escapeTagValue 1024 t.2]
    let pieces := ['@'] :: ((ts.map piece).intersperse [[';']]).flatten ++ [[' ']]
    pieces.foldl (fun b s => appendStr outsz s b) b

/-- The trailing text is cut to the room that is left instead of failing. -/
def appendTrailing (outsz : Nat) (t : Text) (b : Buf) : Buf :=
  let b := appendStr outsz [' ', ':'] b
  if b.ok then ⟨b.text ++ (ircEscape 1024 t).take (outsz - 1 - b.text.length), true⟩ else b

/-- `irc_build`: the bytes left in `out`, with `ok = false` for its `-1`. Most callers send the
buffer without a look at the result. -/
def ircBuild (outsz : Nat) (tags : List (Text × Text)) (pfx : Option Text) (command : Text)
    (params : List Text) (trailing : Option Text) : Buf :=
  let b := appendTags outsz tags ⟨[], true⟩
  let b := match pfx with
    | some p => appendStr outsz [' '] (appendStr outsz (ircEscape 1024 p) (appendStr outsz [':'] b))
    | none => b
  let b := appendStr outsz (ircEscape 1024 command) b
  let b := params.foldl (fun b p => appendStr outsz (mid p) (appendStr outsz [' '] b)) b
  match trailing with
  | some t => appendTrailing outsz t b
  | none => b

/-- The room that `irc_build` leaves for a text: what is behind the rest of the line. -/
def lineRoom (outsz : Nat) (tags : List (Text × Text)) (pfx : Option Text) (command : Text)
    (params : List Text) : Nat :=
  let b := appendStr outsz [' ', ':'] (ircBuild outsz tags pfx command params none)
  if b.ok then outsz - 1 - b.text.length else 0

/-- **The room of a text** is what the rest of its line leaves. -/
theorem ircBuild_room (outsz : Nat) (tags : List (Text × Text)) (pfx : Option Text)
    (command : Text) (params : List Text) (text : Text) :
    (ircBuild outsz tags pfx command params (some text)).text =
      (ircBuild outsz tags pfx command params (some [])).text ++
        (ircEscape 1024 text).take (lineRoom outsz tags pfx command params) := by
  have htrailing : ∀ t, ircBuild outsz tags pfx command params (some t) =
      appendTrailing outsz t (ircBuild outsz tags pfx command params none) := fun _ => rfl
  rw [htrailing, htrailing, lineRoom]
  generalize ircBuild outsz tags pfx command params none = b
  simp only [appendTrailing]
  cases hok : (appendStr outsz [' ', ':'] b).ok with
  | true =>
    rw [if_pos rfl, if_pos rfl, if_pos rfl]
    simp [ircEscape]
  | false =>
    rw [if_neg (by simp), if_neg (by simp), if_neg (by simp), List.take_zero, List.append_nil]

/-! ## 3. Names and case

Nicks, channels, users and hosts are checked character by character; every later argument about
what a name cannot contain comes from these checks. -/

/-- `irc_casefold(out, outsz, in)`. -/
def ircCasefold (outsz : Nat) (s : Text) : Text := lower (clip outsz s)

def isAlpha (c : Char) : Bool := c.isUpper || c.isLower

def isAlnum (c : Char) : Bool := isAlpha c || c.isDigit

/-- `is_nick_special`: `\ ^ [ ]`, the backquote, the left brace, the bar and the underscore. -/
def isNickSpecial (c : Char) : Bool :=
  c == '\\' || c == '^' || c == '[' || c == ']' || c == '\x60' || c == '\x7b' || c == '|' ||
    c == '_'

/-- `irc_valid_nick`. -/
def ircValidNick (nick : Text) (maxLen : Nat) : Bool :=
  match nick with
  | [] => false
  | c0 :: cs =>
    decide (nick.length ≤ maxLen) && (isAlpha c0 || isNickSpecial c0) &&
      cs.all fun c => isAlnum c || isNickSpecial c || c == '-'

/-- What `irc_valid_channel` bars behind the `#`. -/
def isChannelBarred (c : Char) : Bool :=
  decide (c.toNat ≤ 0x20) || c == '\x7f' || c == ',' || c == ':' || c == '*' || c == '?' ||
    c == '!' || c == '@' || c == '\\'

/-- `irc_valid_channel`. -/
def ircValidChannel (chan : Text) (maxLen : Nat) : Bool :=
  match chan with
  | '#' :: cs =>
    decide (chan.length ≤ maxLen) && decide (2 ≤ chan.length) && decide (chan.length - 1 ≤ 49) &&
      cs.all fun c => !isChannelBarred c
  | _ => false

/-- `irc_valid_user`. -/
def ircValidUser (user : Text) (maxLen : Nat) : Bool :=
  match user with
  | [] => false
  | c0 :: cs =>
    decide (user.length ≤ maxLen) && (isAlnum c0 || c0 == '_') &&
      cs.all fun c => isAlnum c || c == '_' || c == '-'

/-- `irc_valid_host`. -/
def ircValidHost (host : Text) : Bool :=
  decide (1 ≤ host.length ∧ host.length ≤ 253 ∧ host.head? ≠ some ':') &&
    host.all fun c => isAlnum c || c == '.' || c == '-' || c == ':'

theorem valid_channel_length {t : Text} (h : ircValidChannel t 50 = true) : t.length ≤ 50 := by
  unfold ircValidChannel at h
  split at h
  · simp only [Bool.and_eq_true, decide_eq_true_eq] at h
    exact h.1.1.1
  · exact absurd h (by simp)

theorem valid_nick_length {n : Text} {k : Nat} (h : ircValidNick n k = true) : n.length ≤ k := by
  unfold ircValidNick at h
  split at h
  · exact absurd h (by simp)
  · simp only [Bool.and_eq_true, decide_eq_true_eq] at h
    exact h.1.1

theorem valid_channel_head {t : Text} {n : Nat} (h : ircValidChannel t n = true) :
    t.head? = some '#' := by
  unfold ircValidChannel at h
  split at h
  · rfl
  · exact absurd h (by simp)

/-! ## 4. What survives the buffer

A parameter that is `Plain` comes through `irc_build` as it is, and the names that the checks
accept are plain. So are numbers, and whatever has been defanged once. -/

theorem ircEscape_length_lt {n : Nat} (hn : 0 < n) (s : Text) : (ircEscape n s).length < n := by
  have h := List.length_take_le (n - 1) (s.filter fun c => c ≠ '\r' ∧ c ≠ '\n')
  unfold ircEscape
  omega

/-- A short text without CR and LF is escaped to itself. -/
theorem ircEscape_eq_self {n : Nat} {s : Text} (hr : '\r' ∉ s) (hn : '\n' ∉ s)
    (hl : s.length < n) : ircEscape n s = s := by
  have hf : (s.filter fun c => c ≠ '\r' ∧ c ≠ '\n') = s := by
    rw [List.filter_eq_self]
    intro c hc
    have h1 : c ≠ '\r' := fun h => hr (h ▸ hc)
    have h2 : c ≠ '\n' := fun h => hn (h ▸ hc)
    simp [h1, h2]
  rw [ircEscape, hf]
  exact List.take_of_length_le (by omega)

theorem mid_ne_nil (p : Text) : mid p ≠ [] := by
  unfold mid
  cases ircEscape 512 p <;> simp

theorem space_notMem_mid (p : Text) : ' ' ∉ mid p := by
  intro h
  obtain ⟨c, -, hc⟩ := List.mem_map.mp h
  split at hc
  · exact absurd hc (by decide)
  · rename_i hne
    exact hne hc

theorem mid_head_ne_colon (p : Text) : ∀ c ∈ (mid p).head?, c ≠ ':' := by
  intro c hc
  unfold mid at hc
  cases h : ircEscape 512 p with
  | nil =>
    simp only [h, List.map_cons, List.head?_cons, Option.mem_def, Option.some.injEq] at hc
    rw [← hc]
    decide
  | cons d ds =>
    simp only [h, List.map_cons, List.head?_cons, Option.mem_def, Option.some.injEq] at hc
    rw [← hc]
    split
    · decide
    · split
      · decide
      · assumption

/-- **A parameter that `irc_build` leaves alone**: a word of its own, not led by a colon and short
enough for the escape buffer. -/
structure Plain (p : Text) : Prop where
  ne_nil : p ≠ []
  head_ne_colon : ∀ c ∈ p.head?, c ≠ ':'
  no_space : ' ' ∉ p
  no_cr : '\r' ∉ p
  no_lf : '\n' ∉ p
  short : p.length < 512

instance (p : Text) : Decidable (Plain p) :=
  decidable_of_iff
    (p ≠ [] ∧ p.head? ≠ some ':' ∧ ' ' ∉ p ∧ '\r' ∉ p ∧ '\n' ∉ p ∧ p.length < 512)
    ⟨fun ⟨h1, h2, h3, h4, h5, h6⟩ => ⟨h1, fun _ hc e => h2 (e ▸ hc), h3, h4, h5, h6⟩,
      fun ⟨h1, h2, h3, h4, h5, h6⟩ => ⟨h1, fun hc => h2 ':' hc rfl, h3, h4, h5, h6⟩⟩

theorem plain_of_valid_channel {t : Text} (h : ircValidChannel t 50 = true) : Plain t := by
  have hlen := valid_channel_length h
  unfold ircValidChannel at h
  split at h
  · rename_i cs
    simp only [Bool.and_eq_true, List.all_eq_true, Bool.not_eq_true'] at h
    have hno : ∀ d, d ≠ '#' → isChannelBarred d = true → d ∉ '#' :: cs := by
      intro d hd hb hm
      rcases List.mem_cons.mp hm with rfl | hm
      · exact hd rfl
      · rw [h.2 d hm] at hb
        exact absurd hb (by simp)
    exact ⟨by simp, by simp, hno ' ' (by decide) (by decide), hno '\r' (by decide) (by decide),
      hno '\n' (by decide) (by decide), by omega⟩
  · exact absurd h (by simp)

theorem plain_intDecimal {z : Int} (h0 : 0 ≤ z) (h : z ≤ longMax) : Plain (intDecimal z) := by
  have hlen := intDecimal_length_le (z := z) (k := 19) (by decide) h0
    (by simp only [longMax] at h; omega)
  have hno : ∀ c, c.isDigit = false → c ≠ '-' → c ∉ intDecimal z := by
    intro c hc hm hin
    rcases mem_intDecimal hin with h | h
    · exact hm h
    · rw [hc] at h
      exact absurd h (by simp)
  refine ⟨intDecimal_ne_nil z, ?_, hno ' ' (by decide) (by decide), hno '\r' (by decide) (by decide),
    hno '\n' (by decide) (by decide), by omega⟩
  rintro c hc rfl
  exact hno ':' (by decide) (by decide) (List.mem_of_mem_head? hc)

theorem Plain.append_colon {x y : Text} (hx : Plain x) (hy : Plain y)
    (h : x.length + y.length < 511) : Plain (x ++ ':' :: y) := by
  obtain ⟨c, cs, rfl⟩ := List.exists_cons_of_ne_nil hx.ne_nil
  have hno : ∀ d, d ≠ ':' → d ∉ c :: cs → d ∉ y → d ∉ c :: cs ++ ':' :: y := by
    intro d hd h1 h2 hm
    rcases List.mem_append.mp hm with hm | hm
    · exact h1 hm
    · rcases List.mem_cons.mp hm with hm | hm
      · exact hd hm
      · exact h2 hm
  exact ⟨by simp, by simpa using hx.head_ne_colon, hno ' ' (by decide) hx.no_space hy.no_space,
    hno '\r' (by decide) hx.no_cr hy.no_cr, hno '\n' (by decide) hx.no_lf hy.no_lf,
    by simp only [List.length_append, List.length_cons] at h ⊢; omega⟩

theorem mid_of_plain {p : Text} (h : Plain p) : mid p = p := by
  have hesc : ircEscape 512 p = p := ircEscape_eq_self h.no_cr h.no_lf h.short
  obtain ⟨c, s, rfl⟩ := List.exists_cons_of_ne_nil h.ne_nil
  have hc : c ≠ ':' := h.head_ne_colon c (by simp)
  have hid : ∀ d ∈ c :: s, (fun c => if c = ' ' then '_' else c) d = d := by
    intro d hd
    have : d ≠ ' ' := fun e => h.no_space (e ▸ hd)
    simp [this]
  rw [mid, hesc]
  simp only [if_neg hc]
  rw [List.map_congr_left hid, List.map_id']

/-- What `irc_build` makes of a parameter travels on as it is. -/
theorem plain_mid (p : Text) : Plain (mid p) := by
  have hmem : ∀ d, d ≠ '_' → d ≠ '*' → d ∈ mid p → d ∈ ircEscape 512 p := by
    intro d h1 h2 hd
    unfold mid at hd
    obtain ⟨c, hc, hcd⟩ := List.mem_map.mp hd
    split at hcd
    · exact absurd hcd.symm h1
    · subst hcd
      split at hc
      · exact absurd (List.mem_singleton.mp hc) h2
      · rename_i e s heq
        rcases List.mem_cons.mp hc with hc | hc
        · split at hc
          · exact absurd hc h1
          · rw [heq, hc]
            exact List.mem_cons_self
        · rw [heq]
          exact List.mem_cons_of_mem _ hc
  have hcrlf : ∀ d, d = '\r' ∨ d = '\n' → d ∉ ircEscape 512 p := by
    intro d hd hm
    have h := (List.mem_filter.mp (List.mem_of_mem_take hm)).2
    rcases hd with rfl | rfl <;> simp at h
  have hlen : (mid p).length < 512 := by
    have hesc := ircEscape_length_lt (n := 512) (by decide) p
    unfold mid
    cases h : ircEscape 512 p with
    | nil => simp
    | cons c s =>
      rw [h] at hesc
      simpa using hesc
  exact ⟨mid_ne_nil p, mid_head_ne_colon p, space_notMem_mid p,
    fun h => hcrlf '\r' (Or.inl rfl) (hmem _ (by decide) (by decide) h),
    fun h => hcrlf '\n' (Or.inr rfl) (hmem _ (by decide) (by decide) h), hlen⟩

theorem mid_length_le {p : Text} (h : p ≠ []) : (mid p).length ≤ p.length := by
  have hesc : (ircEscape 512 p).length ≤ p.length :=
    (List.length_take_le' _ _).trans (List.length_filter_le _ _)
  have hpos := List.length_pos_of_ne_nil h
  unfold mid
  cases he : ircEscape 512 p with
  | nil => exact hpos
  | cons c s =>
    rw [he] at hesc
    simpa using hesc

theorem map_mid_of_plain {ps : List Text} (h : ∀ p ∈ ps, Plain p) : ps.map mid = ps := by
  rw [List.map_congr_left fun p hp => mid_of_plain (h p hp), List.map_id']

/-! ## 5. Built and parsed

A line that fits is its parts in a row, and the parser finds the parts again. Both directions are
needed of every line between two servers, so they are proved here once, for any source, command and
parameters. -/

/-- The line `irc_build` makes when it has room: a source, a command and middle parameters. -/
def ircLine (pfx command : Text) (params : List Text) : Text :=
  ':' :: ircEscape 1024 pfx ++ ' ' :: joinSep ' ' (ircEscape 1024 command :: params.map mid)

/-- The same with trailing text. -/
def ircLineTrailing (pfx command : Text) (params : List Text) (trailing : Text) : Text :=
  ircLine pfx command params ++ ' ' :: ':' :: ircEscape 1024 trailing

theorem appendStr_of_fits {outsz : Nat} {s t : Text} (h : t.length + s.length < outsz) :
    appendStr outsz s ⟨t, true⟩ = ⟨t ++ s, true⟩ := by
  simp [appendStr, h]

/-- The parameters go in one after the other, each behind its space. -/
theorem foldl_appendStr_of_fits {outsz : Nat} : ∀ (ps : List Text) (w t : Text), w ≠ [] →
    (t ++ joinSep ' ' (w :: ps.map mid)).length < outsz →
    ps.foldl (fun b p => appendStr outsz (mid p) (appendStr outsz [' '] b)) ⟨t ++ w, true⟩ =
      ⟨t ++ joinSep ' ' (w :: ps.map mid), true⟩
  | [], w, t, _, _ => rfl
  | p :: ps, w, t, hw, h => by
    have hstep : joinSep ' ' (w :: (p :: ps).map mid) =
        w ++ ' ' :: joinSep ' ' (mid p :: ps.map mid) := rfl
    have hlen : (mid p).length ≤ (joinSep ' ' (mid p :: ps.map mid)).length := by
      cases ps with
      | nil => exact le_refl _
      | cons q qs => simp [joinSep_cons (mid p) (List.cons_ne_nil (mid q) (qs.map mid))]
    rw [hstep] at h ⊢
    have h' : (t ++ w ++ [' ']).length + (mid p).length < outsz := by
      simp only [List.length_append, List.length_cons, List.length_nil] at h ⊢
      omega
    have h1 : (t ++ w).length + [' '].length < outsz := by
      simp only [List.length_append, List.length_cons, List.length_nil] at h ⊢
      omega
    rw [List.foldl_cons, appendStr_of_fits h1, appendStr_of_fits h']
    have ih := foldl_appendStr_of_fits ps (mid p) (t ++ w ++ [' ']) (mid_ne_nil p)
      (by simpa using h)
    rw [ih]
    simp

/-- **A line that fits is built whole.** `ircLine` is the line without a buffer, so from here on
its length is all there is to check. -/
theorem ircBuild_of_fits {outsz : Nat} {pfx command : Text} {params : List Text}
    (hc : ircEscape 1024 command ≠ []) (h : (ircLine pfx command params).length < outsz) :
    ircBuild outsz [] (some pfx) command params none = ⟨ircLine pfx command params, true⟩ := by
  have hlen : (ircEscape 1024 command).length ≤
      (joinSep ' ' (ircEscape 1024 command :: params.map mid)).length := by
    cases params with
    | nil => exact le_refl _
    | cons q qs =>
      simp [joinSep_cons (ircEscape 1024 command) (List.cons_ne_nil (mid q) (qs.map mid))]
  simp only [ircLine, List.cons_append, List.length_cons, List.length_append] at h
  have h1 : ([] : Text).length + [':'].length < outsz := by simp; omega
  have h2 : [':'].length + (ircEscape 1024 pfx).length < outsz := by simp; omega
  have h3 : ([':'] ++ ircEscape 1024 pfx).length + [' '].length < outsz := by simp; omega
  have h4 : ([':'] ++ ircEscape 1024 pfx ++ [' ']).length + (ircEscape 1024 command).length
      < outsz := by simp; omega
  simp only [ircBuild, appendTags]
  rw [appendStr_of_fits h1, List.nil_append, appendStr_of_fits h2, appendStr_of_fits h3,
    appendStr_of_fits h4]
  rw [foldl_appendStr_of_fits _ _ _ hc (by simp; omega)]
  simp [ircLine]

theorem appendStr_ok {outsz : Nat} {s : Text} {b : Buf} (h : (appendStr outsz s b).ok = true) :
    b.ok = true ∧ b.text.length + s.length < outsz ∧
      (appendStr outsz s b).text = b.text ++ s := by
  unfold appendStr at h ⊢
  split at h
  · rename_i hb
    exact ⟨hb.1, hb.2, by rw [if_pos hb]⟩
  · exact absurd h (by simp)

theorem foldl_appendStr_ok {outsz : Nat} : ∀ {ps : List Text} {b : Buf},
    (ps.foldl (fun b p => appendStr outsz (mid p) (appendStr outsz [' '] b)) b).ok = true →
    b.ok = true ∧ (b.text.length < outsz →
      (b.text ++ ps.flatMap fun p => ' ' :: mid p).length < outsz)
  | [], b, h => ⟨h, fun hb => by simpa using hb⟩
  | p :: ps, b, h => by
    rw [List.foldl_cons] at h
    obtain ⟨h1, ih⟩ := foldl_appendStr_ok h
    obtain ⟨h2, hlen, heq⟩ := appendStr_ok h1
    obtain ⟨h3, -, heq'⟩ := appendStr_ok h2
    rw [heq, heq'] at ih
    rw [heq', ← List.length_append] at hlen
    refine ⟨h3, fun _ => ?_⟩
    simpa using ih hlen

/-- **A line is built exactly when it fits.** -/
theorem ircBuild_ok_iff {outsz : Nat} {pfx command : Text} {params : List Text}
    (hc : ircEscape 1024 command ≠ []) :
    (ircBuild outsz [] (some pfx) command params none).ok = true ↔
      (ircLine pfx command params).length < outsz := by
  constructor
  · intro h
    obtain ⟨h1, hfits⟩ := foldl_appendStr_ok h
    obtain ⟨h2, hlen, heq⟩ := appendStr_ok h1
    obtain ⟨h3, -, heq3⟩ := appendStr_ok h2
    obtain ⟨h4, -, heq4⟩ := appendStr_ok h3
    obtain ⟨-, -, heq5⟩ := appendStr_ok h4
    rw [heq3, heq4, heq5] at heq hlen
    rw [heq] at hfits
    rw [← List.length_append] at hlen
    have := hfits hlen
    rw [ircLine, joinSep_eq_flatMap, List.flatMap_map]
    simpa [appendTags] using this
  · intro h
    rw [ircBuild_of_fits hc h]

theorem appendStr_length {outsz : Nat} {b : Buf} (h : b.text.length < outsz) (s : Text) :
    (appendStr outsz s b).text.length < outsz := by
  rw [appendStr]
  split
  · next hfits =>
    rw [List.length_append]
    exact hfits.2
  · exact h

theorem ircBuild_text_length {outsz : Nat} (hsz : 0 < outsz) (pfx command : Text)
    (params : List Text) : (ircBuild outsz [] (some pfx) command params none).text.length < outsz := by
  have hparams : ∀ (ps : List Text) (b : Buf), b.text.length < outsz →
      (ps.foldl (fun b p => appendStr outsz (mid p) (appendStr outsz [' '] b)) b).text.length <
        outsz := by
    intro ps
    induction ps with
    | nil => exact fun _ hb => hb
    | cons p ps ih =>
      intro b hb
      exact ih _ (appendStr_length (appendStr_length hb _) _)
  refine hparams params _ (appendStr_length ?_ _)
  exact appendStr_length (appendStr_length (appendStr_length hsz _) _) _

/-- The same with trailing text, which then fits as well. -/
theorem ircBuild_trailing_of_fits {outsz : Nat} {pfx command trailing : Text}
    {params : List Text} (hc : ircEscape 1024 command ≠ [])
    (h : (ircLineTrailing pfx command params trailing).length < outsz) :
    ircBuild outsz [] (some pfx) command params (some trailing) =
      ⟨ircLineTrailing pfx command params trailing, true⟩ := by
  have hsum : (ircLine pfx command params).length + 2 + (ircEscape 1024 trailing).length
      < outsz := by
    simp only [ircLineTrailing, List.length_append, List.length_cons] at h
    omega
  have hb : ircBuild outsz [] (some pfx) command params none = ⟨ircLine pfx command params, true⟩ :=
    ircBuild_of_fits hc (by omega)
  have hsplit : ircBuild outsz [] (some pfx) command params (some trailing) =
      appendTrailing outsz trailing (ircBuild outsz [] (some pfx) command params none) := rfl
  rw [hsplit, hb, appendTrailing,
    appendStr_of_fits (s := [' ', ':']) (t := ircLine pfx command params)
      (by simp only [List.length_cons, List.length_nil]; omega)]
  simp only [if_true]
  rw [List.take_of_length_le (by
    simp only [List.length_append, List.length_cons, List.length_nil]; omega)]
  simp [ircLineTrailing]

theorem ircEscape_take {n m : Nat} (s : Text) : ircEscape n ((ircEscape n s).take m) = (ircEscape n s).take m := by
  by_cases hn : n = 0
  · simp [ircEscape, hn]
  · have hmem : ∀ c, (c = '\r' ∨ c = '\n') → c ∉ (ircEscape n s).take m := by
      intro c hc hin
      have h := (List.mem_filter.mp (List.mem_of_mem_take (List.mem_of_mem_take hin))).2
      rcases hc with rfl | rfl <;> simp at h
    have hlen := ircEscape_length_lt (Nat.pos_of_ne_zero hn) s
    exact ircEscape_eq_self (hmem '\r' (Or.inl rfl)) (hmem '\n' (Or.inr rfl))
      ((List.length_take_le' _ _).trans_lt hlen)

theorem ircBuild_trailing {outsz : Nat} {pfx command : Text} {params : List Text}
    (hc : ircEscape 1024 command ≠ []) (trailing : Text)
    (h : (ircLine pfx command params).length + 2 < outsz) :
    ∃ cut, ircBuild outsz [] (some pfx) command params (some trailing) =
      ⟨ircLineTrailing pfx command params cut, true⟩ := by
  have hb : ircBuild outsz [] (some pfx) command params none = ⟨ircLine pfx command params, true⟩ :=
    ircBuild_of_fits hc (by omega)
  have hsplit : ircBuild outsz [] (some pfx) command params (some trailing) =
      appendTrailing outsz trailing (ircBuild outsz [] (some pfx) command params none) := rfl
  refine ⟨(ircEscape 1024 trailing).take (outsz - 1 - (ircLine pfx command params ++ [' ', ':']).length), ?_⟩
  rw [hsplit, hb, appendTrailing,
    appendStr_of_fits (s := [' ', ':']) (t := ircLine pfx command params)
      (by simp only [List.length_cons, List.length_nil]; omega)]
  simp only [if_true, ircLineTrailing, ircEscape_take]
  simp

/-- Words that do not hold `" :"` between them: none is empty, led by a colon or spaced. -/
def Words (ws : List Text) : Prop :=
  ∀ w ∈ ws, w ≠ [] ∧ ' ' ∉ w ∧ ∀ c ∈ w.head?, c ≠ ':'

theorem words_map_mid (ps : List Text) : Words (ps.map mid) := by
  intro w hw
  obtain ⟨p, -, rfl⟩ := List.mem_map.mp hw
  exact ⟨mid_ne_nil p, space_notMem_mid p, mid_head_ne_colon p⟩

/-- The search for the trailing marker walks over joined words. -/
theorem strstr_words {r : Text} : ∀ (ws : List Text) (w : Text), ' ' ∉ w → Words ws →
    strstr [' ', ':'] (joinSep ' ' (w :: ws) ++ r) =
      (strstr [' ', ':'] r).map fun x => (joinSep ' ' (w :: ws) ++ x.1, x.2)
  | [], w, hw, _ => strstr_skip hw r
  | v :: vs, w, hw, h => by
    obtain ⟨hne, hsp, hcol⟩ := h v (by simp)
    obtain ⟨c, cs, rfl⟩ := List.exists_cons_of_ne_nil hne
    have hc : (':' == c) = false := by simpa using (hcol c (by simp)).symm
    have ih := strstr_words (r := r) vs (c :: cs) hsp fun x hx => h x (List.mem_cons_of_mem _ hx)
    obtain ⟨tl, htl⟩ : ∃ tl, joinSep ' ' ((c :: cs) :: vs) = c :: tl := by
      cases vs with
      | nil => exact ⟨cs, rfl⟩
      | cons u us => exact ⟨cs ++ ' ' :: joinSep ' ' (u :: us), rfl⟩
    rw [joinSep_cons w (by simp), List.append_assoc, strstr_skip hw]
    rw [htl] at ih ⊢
    rw [List.cons_append] at ih
    simp only [List.cons_append]
    have hstep : strstr [' ', ':'] (' ' :: c :: (tl ++ r)) =
        (strstr [' ', ':'] (c :: (tl ++ r))).map fun x => (' ' :: x.1, x.2) := by
      conv_lhs => rw [strstr]
      simp [List.isPrefixOf, hc]
    rw [hstep, ih]
    simp [Function.comp_def]

theorem splitSep_words {w : Text} {ws : List Text} (hw : ' ' ∉ w) (h : Words ws) :
    splitSep ' ' (joinSep ' ' (w :: ws)) = w :: ws := by
  refine splitSep_joinSep (by simp) fun x hx => ?_
  rcases List.mem_cons.mp hx with rfl | hx
  · exact hw
  · exact (h x hx).2.1

theorem takeParams_words {ws : List Text} (h : Words ws) (hl : ws.length ≤ ircMaxParams) :
    takeParams ws none = ws := by
  have hf : ws.filter (· ≠ []) = ws := by
    rw [List.filter_eq_self]
    intro x hx
    simpa using (h x hx).1
  simp only [takeParams, hf, List.take_of_length_le hl]

theorem takeParams_words_trailing {ws : List Text} (h : Words ws)
    (hl : ws.length < ircMaxParams) (t : Text) : takeParams ws (some t) = ws ++ [t] := by
  have hf : ws.filter (· ≠ []) = ws := by
    rw [List.filter_eq_self]
    intro x hx
    simpa using (h x hx).1
  simp only [takeParams, hf, List.take_of_length_le (Nat.le_of_lt hl), hl, if_true]

/-- What the two ends of a link agree on about a source: it is a word. -/
structure Source (p : Text) : Prop where
  no_space : ' ' ∉ p
  no_cr : '\r' ∉ p
  no_lf : '\n' ∉ p
  short : p.length < 1024

instance (p : Text) : Decidable (Source p) :=
  decidable_of_iff (' ' ∉ p ∧ '\r' ∉ p ∧ '\n' ∉ p ∧ p.length < 1024)
    ⟨fun ⟨h1, h2, h3, h4⟩ => ⟨h1, h2, h3, h4⟩, fun ⟨h1, h2, h3, h4⟩ => ⟨h1, h2, h3, h4⟩⟩

theorem Source.escape {p : Text} (h : Source p) : ircEscape 1024 p = p :=
  ircEscape_eq_self h.no_cr h.no_lf h.short

/-- A command word, already in upper case. -/
structure Command (c : Text) : Prop extends Source c where
  ne_nil : c ≠ []
  upper : c.map Char.toUpper = c

instance (c : Text) : Decidable (Command c) :=
  decidable_of_iff (Source c ∧ c ≠ [] ∧ c.map Char.toUpper = c)
    ⟨fun ⟨h1, h2, h3⟩ => ⟨h1, h2, h3⟩, fun ⟨h1, h2, h3⟩ => ⟨h1, h2, h3⟩⟩

theorem ircParseLine_source {p : Text} (h : ' ' ∉ p) (body : Text) :
    ircParseLine (':' :: p ++ ' ' :: body) = parseBody [] (some p) body := by
  have hp : takePfx (':' :: p ++ ' ' :: body) = some (some p, body) := by
    simp [takePfx, strchr_append h]
  have ht : takeTags (':' :: p ++ ' ' :: body) = some ([], ':' :: p ++ ' ' :: body) := rfl
  rw [ircParseLine, ht, Option.bind_some, hp, Option.bind_some]

theorem parseBody_words {tags : List (Text × Text)} {pfx : Option Text} {command : Text}
    {ws : List Text} (hc : Command command) (hw : Words ws) (hl : ws.length ≤ ircMaxParams) :
    parseBody tags pfx (joinSep ' ' (command :: ws)) =
      some { tags := tags, pfx := pfx, command := command, params := ws } := by
  have hfind := strstr_words (r := []) ws command hc.no_space hw
  have hnone : strstr [' ', ':'] ([] : Text) = none := rfl
  rw [List.append_nil, hnone, Option.map_none] at hfind
  have hraw : ¬ maxRawTokens < ws.length + 1 := by
    simp only [maxRawTokens, ircMaxParams] at *
    omega
  simp only [parseBody, hfind, splitSep_words hc.no_space hw, hc.ne_nil, hraw, or_self, if_false,
    hc.upper]
  rw [takeParams_words hw hl]

theorem parseBody_words_blank {tags : List (Text × Text)} {pfx : Option Text} {command : Text}
    {ws : List Text} (hc : Command command) (hw : Words ws) (hl : ws.length ≤ ircMaxParams) :
    parseBody tags pfx (joinSep ' ' (command :: ws) ++ [' ']) =
      some { tags := tags, pfx := pfx, command := command, params := ws } := by
  have hfind := strstr_words (r := [' ']) ws command hc.no_space hw
  have hnone : strstr [' ', ':'] [' '] = none := by decide
  rw [hnone, Option.map_none] at hfind
  have hsplit : splitSep ' ' (joinSep ' ' (command :: ws) ++ [' ']) = command :: (ws ++ [[]]) := by
    rw [← joinSep_concat (by simp) []]
    refine splitSep_joinSep (by simp) fun w hmem => ?_
    rcases List.mem_cons.mp hmem with rfl | hmem
    · exact hc.no_space
    · rcases List.mem_append.mp hmem with hmem | hmem
      · exact (hw w hmem).2.1
      · simp [List.mem_singleton.mp hmem]
  have hraw : ¬ maxRawTokens < (ws ++ [[]]).length + 1 := by
    simp only [maxRawTokens, ircMaxParams, List.length_append, List.length_cons, List.length_nil] at *
    omega
  have hparams : takeParams (ws ++ [[]]) none = ws := by
    refine Eq.trans ?_ (takeParams_words hw hl)
    simp [takeParams, List.filter_append]
  simp only [parseBody, hfind, hsplit, hc.ne_nil, hraw, or_self, if_false, hc.upper, hparams]

/-- Behind `" :"` everything is one parameter. -/
theorem parseBody_words_trailing {tags : List (Text × Text)} {pfx : Option Text} {command : Text}
    {ws : List Text} (hc : Command command) (hw : Words ws) (hl : ws.length < ircMaxParams)
    (trailing : Text) :
    parseBody tags pfx (joinSep ' ' (command :: ws) ++ ' ' :: ':' :: trailing) =
      some { tags := tags, pfx := pfx, command := command, params := ws ++ [trailing] } := by
  have hfind := strstr_words (r := ' ' :: ':' :: trailing) ws command hc.no_space hw
  have hhit : strstr [' ', ':'] (' ' :: ':' :: trailing) = some ([], trailing) := by
    simp [strstr, List.isPrefixOf]
  rw [hhit, Option.map_some, List.append_nil] at hfind
  have hraw : ¬ maxRawTokens < ws.length + 1 := by
    simp only [maxRawTokens, ircMaxParams] at *
    omega
  simp only [parseBody, hfind, splitSep_words hc.no_space hw, hc.ne_nil, hraw, or_self, if_false,
    hc.upper]
  rw [takeParams_words_trailing hw hl]

/-- **What was built is what is parsed**, up to the defanging of the middle parameters. The source
and the command must be words; all else may be any text. -/
theorem ircParseLine_ircLine {pfx command : Text} {params : List Text} (hp : Source pfx)
    (hc : Command command) (hl : params.length ≤ ircMaxParams) :
    ircParseLine (ircLine pfx command params) =
      some { tags := [], pfx := some pfx, command := command, params := params.map mid } := by
  rw [ircLine, hp.escape, hc.escape, ircParseLine_source hp.no_space]
  exact parseBody_words hc (words_map_mid params) (by simpa using hl)

theorem ircParseLine_ircLineTrailing {pfx command : Text} {params : List Text} (hp : Source pfx)
    (hc : Command command) (hl : params.length < ircMaxParams) (trailing : Text) :
    ircParseLine (ircLineTrailing pfx command params trailing) =
      some { tags := [], pfx := some pfx, command := command,
             params := params.map mid ++ [ircEscape 1024 trailing] } := by
  have hline : ircLineTrailing pfx command params trailing = ':' :: pfx ++ ' ' ::
      (joinSep ' ' (command :: params.map mid) ++ ' ' :: ':' :: ircEscape 1024 trailing) := by
    simp [ircLineTrailing, ircLine, hp.escape, hc.escape]
  rw [hline, ircParseLine_source hp.no_space]
  exact parseBody_words_trailing hc (words_map_mid params) (by simpa using hl) _

end SekurIRCd
