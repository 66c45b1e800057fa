/-
# The time tag

A line to a client with `server-time` gets a `time` tag, unless it has one.  `irc_time_tag_insert`
works on the text of the line: it looks for the tag among what stands between semicolons, and says
what to insert and where, without parsing a tag.

What it does is what would be done on the parsed line: all tags stay as they are and in order, the
time comes behind them, and the source, the command and the parameters are the same
(`timeTag_transparent`).
-/
import SekurIRCd.Iso8601
import SekurIRCd.Message
import SekurIRCd.Net.SendQueue

namespace SekurIRCd

open CLib

/-! ## 1. Inserting

The function returns a piece of text and a place, so that a line can be queued in three parts
without being copied. -/

/-- `irc_iso8601_now`, `ms` milliseconds after 1970. -/
def ircIso8601Now (outsz ms : Nat) : Text := clip outsz (ircIso8601FromMs 32 ms)

/-- The line with what is to be inserted. -/
def insertTag (t : Text × Nat) (line : Text) : Text := line.take t.2 ++ t.1 ++ line.drop t.2

/-- `irc_add_time_tag`. -/
def ircAddTimeTag (linesz ms : Nat) (line : Text) : Text :=
  let t := ircTimeTagInsert (ircIso8601Now 40 ms) line
  if t.1 = [] ∨ linesz ≤ line.length + t.1.length then line else insertTag t line

/-- All tags of a line; `irc_parse_line` keeps the first of them. The order is that of the line. -/
def lineTags : Text → List (Text × Text)
  | '@' :: body =>
    match strchr ' ' body with
    | some (tags, _) => (strtok ';' tags).map parseTag
    | none => []
  | _ => []

/-! ## 2. The text of the time -/

/-- What the text of a time is made of. -/
def IsTimeChar (c : Char) : Prop := c.isDigit = true ∨ c ∈ ['-', 'T', ':', '.', 'Z']

theorem isTimeChar_isoText {f : IsoFields Nat} {tail : Text} (htail : ∀ c ∈ tail, IsTimeChar c) :
    ∀ c ∈ isoText f tail, IsTimeChar c := by
  have hpadded : ∀ (w n : Nat) (sep : Char) (rest : Text), sep ∈ ['-', 'T', ':', '.', 'Z'] →
      (∀ c ∈ rest, IsTimeChar c) → ∀ c ∈ zeroPadded w n ++ sep :: rest, IsTimeChar c := by
    intro w n sep rest hsep hrest c hc
    rcases List.mem_append.mp hc with hc | hc
    · exact Or.inl (zeroPadded_digits w n c hc)
    · rcases List.mem_cons.mp hc with rfl | hc
      · exact Or.inr hsep
      · exact hrest c hc
  have hsec : ∀ c ∈ zeroPadded 2 f.sec ++ tail, IsTimeChar c := by
    intro c hc
    rcases List.mem_append.mp hc with hc | hc
    · exact Or.inl (zeroPadded_digits 2 f.sec c hc)
    · exact htail c hc
  rw [isoText]
  refine hpadded 4 f.year '-' _ (by decide) (hpadded 2 f.month '-' _ (by decide) ?_)
  refine hpadded 2 f.day 'T' _ (by decide) (hpadded 2 f.hour ':' _ (by decide) ?_)
  exact hpadded 2 f.min ':' _ (by decide) hsec

theorem isTimeChar_now (outsz ms : Nat) : ∀ c ∈ ircIso8601Now outsz ms, IsTimeChar c := by
  intro c hc
  refine isTimeChar_isoText (f := gmtime (ms / 1000)) ?_ c (mem_of_mem_clip (mem_of_mem_clip hc))
  intro d hd
  rcases List.mem_cons.mp hd with rfl | hd
  · exact Or.inr (by decide)
  · rcases List.mem_append.mp hd with hd | hd
    · exact Or.inl (zeroPadded_digits 3 _ d hd)
    · rw [List.mem_singleton.mp hd]
      exact Or.inr (by decide)

/-- No character of a time is one that the parser looks for. -/
theorem notMem_now {d : Char} (hd : ¬ IsTimeChar d) (outsz ms : Nat) : d ∉ ircIso8601Now outsz ms :=
  fun h => hd (isTimeChar_now outsz ms d h)

instance (c : Char) : Decidable (IsTimeChar c) := inferInstanceAs (Decidable (_ ∨ _))

theorem unescapeTagValue_of_notMem {v : Text} (h : '\\' ∉ v) : unescapeTagValue v = v := by
  induction v with
  | nil => rfl
  | cons c v ih =>
    obtain ⟨hc, hv⟩ := not_or.mp (mt List.mem_cons.mpr h)
    rw [unescapeTagValue_cons (Ne.symm hc), ih hv]

/-- The tag, as it is parsed. -/
def timeTag (ms : Nat) : Text × Text := ("time".toList, ircIso8601Now 40 ms)

theorem parseTag_time (ms : Nat) : parseTag ("time=".toList ++ ircIso8601Now 40 ms) = timeTag ms := by
  have hfind : strchr '=' ("time".toList ++ '=' :: ircIso8601Now 40 ms) =
      some ("time".toList, ircIso8601Now 40 ms) := strchr_append (by decide) _
  have hplain := unescapeTagValue_of_notMem (notMem_now (d := '\\') (by decide) 40 ms)
  have htag : "time=".toList ++ ircIso8601Now 40 ms = "time".toList ++ '=' :: ircIso8601Now 40 ms :=
    rfl
  rw [parseTag, htag, hfind]
  exact congrArg (Prod.mk "time".toList) hplain

/-! ## 3. Tags of a line

Tags are cut by `strtok`, and the parser takes no more than 32 of them. The scan for a time looks
at all of them. -/

theorem parseTag_key {part : Text} : (parseTag part).1 = "time".toList ↔
    part = "time".toList ∨ "time=".toList <+: part := by
  rw [parseTag]
  cases hfind : strchr '=' part with
  | none =>
    have hno := strchr_eq_none.mp hfind
    refine (or_iff_left fun hpre => hno ?_).symm
    obtain ⟨rest, rfl⟩ := hpre
    exact List.mem_append_left rest (show '=' ∈ "time=".toList by decide)
  | some r =>
    obtain ⟨hpart, hno⟩ := strchr_some hfind
    have hne : part ≠ "time".toList := by
      rintro rfl
      rw [strchr_eq_none.mpr (show '=' ∉ "time".toList by decide)] at hfind
      exact absurd hfind (by simp)
    rw [or_iff_right hne]
    constructor
    · intro hkey
      refine ⟨r.2, ?_⟩
      rw [hpart, show r.1 = "time".toList from hkey]
      rfl
    · rintro ⟨rest, rfl⟩
      have hsame : strchr '=' ("time=".toList ++ rest) = some ("time".toList, rest) :=
        strchr_append (show '=' ∉ "time".toList by decide) rest
      exact (congrArg Prod.fst (Option.some.inj (hsame.symm.trans hfind))).symm

/-- **The scan finds a time tag** exactly when one of the tags has that key. It compares the text
up to the end of a tag or its `=`, so a longer key is not taken for it. -/
theorem hasTimeTag_iff {tags : Text} :
    hasTimeTag tags = true ↔ ∃ v, ("time".toList, v) ∈ (strtok ';' tags).map parseTag := by
  have hpiece : ∀ part, (part == "time".toList || "time=".toList.isPrefixOf part) = true ↔
      (parseTag part).1 = "time".toList := by
    intro part
    rw [Bool.or_eq_true, beq_iff_eq, List.isPrefixOf_iff_prefix, parseTag_key]
  have hne : ∀ part, (parseTag part).1 = "time".toList → part ≠ [] := by
    rintro part hkey rfl
    exact absurd hkey (by decide)
  rw [hasTimeTag, List.any_eq_true]
  constructor
  · rintro ⟨part, hmem, hpart⟩
    have hkey := (hpiece part).mp hpart
    refine ⟨(parseTag part).2, List.mem_map.mpr ⟨part, ?_, Prod.ext hkey rfl⟩⟩
    exact List.mem_filter.mpr ⟨hmem, decide_eq_true (hne part hkey)⟩
  · rintro ⟨v, hv⟩
    obtain ⟨part, hmem, hpart⟩ := List.mem_map.mp hv
    exact ⟨part, (List.mem_filter.mp hmem).1, (hpiece part).mpr (congrArg Prod.fst hpart)⟩

/-- The command and its parameters do not depend on the tags. -/
theorem parseBody_tags (tags : List (Text × Text)) (pfx : Option Text) (body : Text) :
    parseBody tags pfx body = (parseBody [] pfx body).map fun m => { m with tags := tags } := by
  rw [parseBody, parseBody]
  generalize splitSep ' ' _ = words
  cases words with
  | nil => rfl
  | cons c words =>
    simp only
    split
    · rfl
    · rfl

theorem parse_parts {line : Text} {m : IrcMessage} (h : ircParseLine line = some m) :
    ∃ tags rest pfx body, takeTags line = some (tags, rest) ∧ takePfx rest = some (pfx, body) ∧
      parseBody tags pfx body = some m := by
  obtain ⟨⟨tags, rest⟩, htags, h⟩ := Option.bind_eq_some_iff.mp h
  obtain ⟨⟨pfx, body⟩, hpfx, h⟩ := Option.bind_eq_some_iff.mp h
  exact ⟨tags, rest, pfx, body, htags, hpfx, h⟩

theorem takeTags_some {b rest : Text} {tags : List (Text × Text)}
    (h : takeTags ('@' :: b) = some (tags, rest)) : ∃ tagStr, b = tagStr ++ ' ' :: rest ∧
      ' ' ∉ tagStr ∧ rest ≠ [] ∧ ((strtok ';' tagStr).map parseTag).take ircMaxTags = tags := by
  rw [takeTags] at h
  cases hfind : strchr ' ' b with
  | none =>
    rw [hfind] at h
    exact absurd h (by simp)
  | some r =>
    obtain ⟨hb, hno⟩ := strchr_some hfind
    rw [hfind] at h
    simp only at h
    split at h
    · exact absurd h (by simp)
    · next hrest =>
      obtain ⟨htags, rfl⟩ := Prod.mk.inj (Option.some.inj h)
      exact ⟨r.1, hb, hno, hrest, htags⟩

/-- With other tags in front of the same rest, only the tags of the message are others. -/
theorem parse_of_takeTags {line line' rest : Text} {m : IrcMessage} {tags tags' : List (Text × Text)}
    (h : ircParseLine line = some m) (htags : takeTags line = some (tags, rest))
    (htags' : takeTags line' = some (tags', rest)) :
    m.tags = tags ∧ ircParseLine line' = some { m with tags := tags' } := by
  obtain ⟨_, _, pfx, body, hparts, hpfx, hbody⟩ := parse_parts h
  obtain ⟨rfl, rfl⟩ := Prod.mk.inj (Option.some.inj (hparts.symm.trans htags))
  rw [parseBody_tags] at hbody
  obtain ⟨m', hm', rfl⟩ := Option.map_eq_some_iff.mp hbody
  refine ⟨rfl, ?_⟩
  rw [ircParseLine, htags', Option.bind_some, hpfx, Option.bind_some, parseBody_tags, hm']
  rfl

theorem tags_of_parse {line : Text} {m : IrcMessage} (h : ircParseLine line = some m) :
    m.tags = (lineTags line).take ircMaxTags := by
  obtain ⟨tags, rest, -, -, htags, -, -⟩ := parse_parts h
  rw [(parse_of_takeTags h htags htags).1]
  rw [lineTags.eq_def]
  split
  · obtain ⟨tagStr, rfl, hspace, -, rfl⟩ := takeTags_some htags
    rw [strchr_append hspace]
  · next hline =>
    have hhead : line.head? ≠ some '@' := by
      intro hat
      cases line with
      | nil => exact absurd hat (by simp)
      | cons c b => exact hline b (by rw [Option.some.inj hat])
    exact (congrArg Prod.fst (Option.some.inj ((takeTags_none hhead).symm.trans htags))).symm

theorem parse_ne_nil {line : Text} {m : IrcMessage} (h : ircParseLine line = some m) : line ≠ [] := by
  rintro rfl
  rw [show ircParseLine [] = none from rfl] at h
  exact absurd h (by simp)

/-! ## 4. What is inserted -/

section Insert

variable (ms : Nat)

/-- A line without tags gets a section with just the time. -/
theorem takeTags_front {line : Text} (hline : line ≠ []) :
    takeTags ("@time=".toList ++ ircIso8601Now 40 ms ++ [' '] ++ line) =
      some ([timeTag ms], line) := by
  have hspace : ' ' ∉ "time=".toList ++ ircIso8601Now 40 ms := by
    rw [List.mem_append, not_or]
    exact ⟨by decide, notMem_now (by decide) 40 ms⟩
  have hsemi : ';' ∉ "time=".toList ++ ircIso8601Now 40 ms := by
    rw [List.mem_append, not_or]
    exact ⟨by decide, notMem_now (by decide) 40 ms⟩
  have hfind := strchr_append hspace line
  have hline' : "@time=".toList ++ ircIso8601Now 40 ms ++ [' '] ++ line =
      '@' :: ("time=".toList ++ ircIso8601Now 40 ms ++ ' ' :: line) := by
    rw [List.append_assoc, List.singleton_append]
    rfl
  rw [hline', takeTags, hfind]
  simp only [if_neg hline]
  rw [strtok_of_notMem hsemi (List.cons_ne_nil _ _), List.map_singleton, parseTag_time]
  rfl

/-- Behind the tags of a section comes the time. -/
theorem takeTags_behind {tagStr rest : Text} (hno : ' ' ∉ tagStr) (hrest : rest ≠ []) :
    takeTags ('@' :: (tagStr ++ (";time=".toList ++ ircIso8601Now 40 ms) ++ ' ' :: rest)) =
      some (((strtok ';' tagStr).map parseTag ++ [timeTag ms]).take ircMaxTags, rest) := by
  have hspace : ' ' ∉ tagStr ++ (";time=".toList ++ ircIso8601Now 40 ms) := by
    rw [List.mem_append, List.mem_append, not_or, not_or]
    exact ⟨hno, by decide, notMem_now (by decide) 40 ms⟩
  have hsemi : ';' ∉ "time=".toList ++ ircIso8601Now 40 ms := by
    rw [List.mem_append, not_or]
    exact ⟨by decide, notMem_now (by decide) 40 ms⟩
  have hwords : strtok ';' (tagStr ++ (";time=".toList ++ ircIso8601Now 40 ms)) =
      strtok ';' tagStr ++ ["time=".toList ++ ircIso8601Now 40 ms] := by
    rw [← strtok_of_notMem hsemi (List.cons_ne_nil _ _), ← strtok_append_sep]
    rfl
  rw [takeTags, strchr_append hspace]
  simp only [if_neg hrest]
  rw [hwords, List.map_append, List.map_singleton, parseTag_time]

end Insert

/-- A line that has a time tag is left as it is. -/
theorem ircTimeTagInsert_of_tag {line : Text} {v : Text} (h : ("time".toList, v) ∈ lineTags line)
    (now : Text) : ircTimeTagInsert now line = ([], 0) := by
  rw [lineTags.eq_def] at h
  split at h
  · split at h
    · next tags rest hfind =>
      rw [ircTimeTagInsert, hfind]
      simp only [if_pos (hasTimeTag_iff.mpr ⟨v, h⟩)]
    · exact absurd h List.not_mem_nil
  · exact absurd h List.not_mem_nil

/-- **The time tag**: a line that parses, with fewer than 32 tags and without a time, gets it
behind the tags that it has, and nothing else is changed; a line with a time tag is
left as it is. -/
theorem timeTag_transparent (ms : Nat) (line : Text) :
    (∀ m, ircParseLine line = some m → m.tags = (lineTags line).take ircMaxTags) ∧
    (∀ m, ircParseLine line = some m → m.tags.length < ircMaxTags →
      (∀ v, ("time".toList, v) ∉ m.tags) →
      ircParseLine (insertTag (ircTimeTagInsert (ircIso8601Now 40 ms) line) line) =
        some { m with tags := m.tags ++ [timeTag ms] }) ∧
    ∀ v, ("time".toList, v) ∈ lineTags line →
      insertTag (ircTimeTagInsert (ircIso8601Now 40 ms) line) line = line ∧
      ∀ linesz, ircAddTimeTag linesz ms line = line := by
  refine ⟨fun m hparse => tags_of_parse hparse, ?_, ?_⟩
  · intro m hparse hcap hno
    have hne := parse_ne_nil hparse
    by_cases hat : ∃ b, line = '@' :: b
    · obtain ⟨b, rfl⟩ := hat
      obtain ⟨tags, rest, -, -, htags, -, -⟩ := parse_parts hparse
      obtain ⟨tagStr, rfl, hspace, hrest, rfl⟩ := takeTags_some htags
      have hm := (parse_of_takeTags hparse htags htags).1
      have hwhole : ((strtok ';' tagStr).map parseTag).length < ircMaxTags := by
        rw [hm, List.length_take] at hcap
        omega
      rw [List.take_of_length_le hwhole.le] at hm
      have hnone : ¬ hasTimeTag tagStr = true := by
        rw [hasTimeTag_iff, ← hm]
        exact not_exists.mpr hno
      have hinsert : ircTimeTagInsert (ircIso8601Now 40 ms) ('@' :: (tagStr ++ ' ' :: rest)) =
          (";time=".toList ++ ircIso8601Now 40 ms, tagStr.length + 1) := by
        rw [ircTimeTagInsert, strchr_append hspace]
        exact if_neg hnone
      have hbehind := takeTags_behind ms hspace hrest
      rw [List.take_of_length_le (by
        rw [List.length_append, List.length_singleton]
        exact hwhole), ← hm] at hbehind
      have hline : insertTag (";time=".toList ++ ircIso8601Now 40 ms, tagStr.length + 1)
          ('@' :: (tagStr ++ ' ' :: rest)) =
          '@' :: (tagStr ++ (";time=".toList ++ ircIso8601Now 40 ms) ++ ' ' :: rest) := by
        rw [insertTag, List.take_succ_cons, List.take_left, List.drop_succ_cons, List.drop_left]
        rfl
      rw [hinsert, hline]
      exact (parse_of_takeTags hparse htags hbehind).2
    · have hfront : takeTags line = some ([], line) :=
        takeTags_none fun h => hat (by
          cases line with
          | nil => exact absurd rfl hne
          | cons c b => exact ⟨b, by rw [Option.some.inj h]⟩)
      have hinsert : ircTimeTagInsert (ircIso8601Now 40 ms) line =
          ("@time=".toList ++ ircIso8601Now 40 ms ++ [' '], 0) := by
        rw [ircTimeTagInsert.eq_def]
        split
        · next b => exact absurd ⟨b, rfl⟩ hat
        · rfl
      obtain ⟨hnil, hnew⟩ := parse_of_takeTags hparse hfront (takeTags_front ms hne)
      rw [hinsert, insertTag, hnil]
      exact hnew
  · intro v hv
    have hnone := ircTimeTagInsert_of_tag hv (ircIso8601Now 40 ms)
    refine ⟨?_, fun linesz => ?_⟩
    · rw [hnone]
      rfl
    · rw [ircAddTimeTag]
      exact if_pos (Or.inl (congrArg Prod.fst hnone))

/-- A key that merely ends or starts with it is no time. -/
theorem timeTag_transparent_hi :
    let line := "@draft/time=x;timer PRIVMSG #chan :hi".toList
    ircParseLine (insertTag (ircTimeTagInsert (ircIso8601Now 40 0) line) line) =
      some ⟨[("draft/time".toList, ['x']), ("timer".toList, []), timeTag 0], none,
        "PRIVMSG".toList, ["#chan".toList, "hi".toList]⟩ ∧
    ircAddTimeTag 512 0 "@time=already PING x".toList = "@time=already PING x".toList := by
  constructor
  · exact (timeTag_transparent 0 _).2.1 ⟨[("draft/time".toList, ['x']), ("timer".toList, [])], none,
      "PRIVMSG".toList, ["#chan".toList, "hi".toList]⟩ (by decide) (by decide) (by simp)
  · exact ((timeTag_transparent 0 "@time=already PING x".toList).2.2 "already".toList
      (by decide)).2 512

end SekurIRCd
