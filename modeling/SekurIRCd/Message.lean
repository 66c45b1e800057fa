/-
# A message comes back as it was sent

`irc_build` writes up to five parts: tags, a source, a command, middle parameters and trailing
text.  Each part is written so that the parser finds its end.  A tag value has its semicolons and
spaces escaped, so the tags end at the first space and split at the semicolons; a middle parameter
has no space and no leading colon, so the first `" :"` is the one before the trailing text.

`Message.round_trip` says that nothing else is needed: whichever of the parts are there, what is
built is parsed to the same message.  A value longer than its scratch buffer in `irc_build` is cut
there, and `Message.Ok` asks that none is.
-/
import SekurIRCd.Proto

namespace SekurIRCd

open CLib

/-! ## 1. Tags

A tag value is the one part that may hold any text, and the one that is escaped. The scratch buffer
for it stops while two more bytes might not fit. -/

/-- What a character of a tag value is escaped to. -/
def escapeTagChar (c : Char) : Text :=
  if c = '\\' then ['\\', '\\'] else if c = ';' then ['\\', ':'] else if c = ' ' then ['\\', 's']
  else if c = '\r' then ['\\', 'r'] else if c = '\n' then ['\\', 'n'] else [c]

/-- A tag value escaped in full. -/
def escapeTag (v : Text) : Text := v.flatMap escapeTagChar

theorem unescapeTagValue_cons {c : Char} (h : c ≠ '\\') (s : Text) :
    unescapeTagValue (c :: s) = c :: unescapeTagValue s := by
  rw [unescapeTagValue]
  rintro d r rfl
  exact absurd rfl h

theorem unescapeTagValue_escapeTag (v : Text) : unescapeTagValue (escapeTag v) = v := by
  induction v with
  | nil => rfl
  | cons c s ih =>
    rw [escapeTag] at ih ⊢
    rw [List.flatMap_cons, escapeTagChar]
    split_ifs with h1 h2 h3 h4 h5
    · simp [unescapeTagValue, ih, h1]
    · simp [unescapeTagValue, ih, h2]
    · simp [unescapeTagValue, ih, h3]
    · simp [unescapeTagValue, ih, h4]
    · simp [unescapeTagValue, ih, h5]
    · rw [List.singleton_append, unescapeTagValue_cons h1, ih]

/-- An escaped value has neither a semicolon nor a space. -/
theorem notMem_escapeTag {c : Char} (hc : c = ';' ∨ c = ' ') (v : Text) : c ∉ escapeTag v := by
  rw [escapeTag, List.mem_flatMap]
  rintro ⟨d, -, h⟩
  unfold escapeTagChar at h
  have hlast : ∀ e, c = e → (e = ';' ∨ e = ' ') := by
    rintro e rfl
    exact hc
  split_ifs at h with h1 h2 h3 h4 h5 <;>
    simp only [List.mem_cons, List.not_mem_nil, or_false] at h
  · rcases h with rfl | rfl <;> exact absurd hc (by decide)
  · rcases h with rfl | rfl <;> exact absurd hc (by decide)
  · rcases h with rfl | rfl <;> exact absurd hc (by decide)
  · rcases h with rfl | rfl <;> exact absurd hc (by decide)
  · rcases h with rfl | rfl <;> exact absurd hc (by decide)
  · exact (hlast d h).elim h2 h3

/-- With room for all of it, a value is escaped as a whole. -/
theorem escapeTagValue_eq (v : Text) : ∀ room, 2 * v.length + 2 < room →
    escapeTagValue room v = escapeTag v := by
  induction v with
  | nil => exact fun _ _ => rfl
  | cons c s ih =>
    intro room hroom
    simp only [List.length_cons] at hroom
    rw [escapeTagValue, if_neg (by omega), escapeTag, List.flatMap_cons, ← escapeTag, escapeTagChar]
    simp only
    split_ifs <;> exact congrArg _ (ih _ (by simp only [List.length_cons, List.length_nil]; omega))

/-- A tag that can be sent: its key has no separator in it, and the value is not cut. -/
structure TagOk (t : Text × Text) : Prop where
  key_ne_nil : t.1 ≠ []
  no_semicolon : ';' ∉ t.1
  no_equals : '=' ∉ t.1
  no_space : ' ' ∉ t.1
  value_fits : escapeTagValue 1024 t.2 = escapeTag t.2

/-- A tag as it is written. -/
def tagWord (t : Text × Text) : Text := if t.2 = [] then t.1 else t.1 ++ '=' :: escapeTag t.2

theorem parseTag_tagWord {t : Text × Text} (h : TagOk t) : parseTag (tagWord t) = t := by
  obtain ⟨k, v⟩ := t
  have hk : '=' ∉ k := h.no_equals
  unfold tagWord parseTag
  by_cases hv : v = []
  · simp [hv, strchr_eq_none.mpr hk]
  · simp [hv, strchr_append hk, unescapeTagValue_escapeTag]

theorem tagWord_ne_nil {t : Text × Text} (h : TagOk t) : tagWord t ≠ [] := by
  unfold tagWord
  split
  · exact h.key_ne_nil
  · simp

theorem notMem_tagWord {t : Text × Text} (h : TagOk t) {c : Char} (hc : c = ';' ∨ c = ' ') :
    c ∉ tagWord t := by
  have hkey : c ∉ t.1 := by
    rcases hc with rfl | rfl
    · exact h.no_semicolon
    · exact h.no_space
  have heq : c ≠ '=' := by rcases hc with rfl | rfl <;> decide
  unfold tagWord
  split
  · exact hkey
  · simp [hkey, heq, notMem_escapeTag hc]

/-- The tag section as it is written, with the space behind it. -/
def tagSection (tags : List (Text × Text)) : Text :=
  if tags = [] then [] else '@' :: joinSep ';' (tags.map tagWord) ++ [' ']

theorem takeTags_none {line : Text} (h : line.head? ≠ some '@') :
    takeTags line = some ([], line) := by
  unfold takeTags
  split
  · exact absurd rfl h
  · rfl

theorem takeTags_tagSection {tags : List (Text × Text)} (h : ∀ t ∈ tags, TagOk t)
    (hl : tags.length ≤ ircMaxTags) (hne : tags ≠ []) {rest : Text} (hr : rest ≠ []) :
    takeTags (tagSection tags ++ rest) = some (tags, rest) := by
  have hsp : ' ' ∉ joinSep ';' (tags.map tagWord) := by
    intro hm
    rcases mem_joinSep hm with h' | ⟨w, hw, hm⟩
    · exact absurd h' (by decide)
    · obtain ⟨t, ht, rfl⟩ := List.mem_map.mp hw
      exact notMem_tagWord (h t ht) (Or.inr rfl) hm
  have hwords : strtok ';' (joinSep ';' (tags.map tagWord)) = tags.map tagWord := by
    apply strtok_joinSep
    · intro w hw
      obtain ⟨t, ht, rfl⟩ := List.mem_map.mp hw
      exact tagWord_ne_nil (h t ht)
    · intro w hw
      obtain ⟨t, ht, rfl⟩ := List.mem_map.mp hw
      exact notMem_tagWord (h t ht) (Or.inl rfl)
  have hback : (tags.map tagWord).map parseTag = tags := by
    have hid : ∀ t ∈ tags, (parseTag ∘ tagWord) t = t := fun t ht => parseTag_tagWord (h t ht)
    rw [List.map_map, List.map_congr_left hid, List.map_id']
  have hfind : strchr ' ' (joinSep ';' (tags.map tagWord) ++ ' ' :: rest) =
      some (joinSep ';' (tags.map tagWord), rest) := strchr_append hsp rest
  rw [tagSection, if_neg hne]
  simp only [List.cons_append, List.append_assoc, List.nil_append, takeTags, hfind, if_neg hr,
    hwords, hback, List.take_of_length_le hl]

/-! ## 2. The line

The parts are appended as pieces, so that a message fits exactly if its pieces do together, and the
parser is followed part by part from the front. -/

/-- What is given to `irc_build`. -/
structure Message where
  tags : List (Text × Text)
  pfx : Option Text
  command : Text
  params : List Text
  trailing : Option Text

namespace Message

/-- `irc_build` into a buffer of `outsz` bytes. -/
def build (m : Message) (outsz : Nat) : Buf :=
  ircBuild outsz m.tags m.pfx m.command m.params m.trailing

/-- The message with nothing cut off and nothing defanged. -/
def line (m : Message) : Text :=
  tagSection m.tags ++ (m.pfx.elim [] fun p => ':' :: p ++ [' ']) ++
    joinSep ' ' (m.command :: m.params) ++ m.trailing.elim [] fun t => ' ' :: ':' :: t

/-- What the parser makes of it. -/
def parsed (m : Message) : IrcMessage where
  tags := m.tags
  pfx := m.pfx
  command := m.command
  params := m.params ++ m.trailing.toList

/-- A message that can be sent. The command is what comes first if there are neither tags nor a
source, so it does not look like them then. -/
structure Ok (m : Message) : Prop where
  tags : ∀ t ∈ m.tags, TagOk t
  tags_le : m.tags.length ≤ ircMaxTags
  pfx : ∀ p ∈ m.pfx, Source p
  command : Command m.command
  no_colon : m.pfx = none → m.command.head? ≠ some ':'
  no_at : m.pfx = none → m.tags = [] → m.command.head? ≠ some '@'
  params : ∀ p ∈ m.params, Plain p
  params_le : m.params.length + m.trailing.toList.length ≤ ircMaxParams
  trailing : ∀ t ∈ m.trailing, '\r' ∉ t ∧ '\n' ∉ t ∧ t.length < 1024

/-- Pieces that fit are appended one after the other. -/
theorem foldl_pieces {outsz : Nat} : ∀ (pieces : List Text) (t : Text),
    (t ++ pieces.flatten).length < outsz →
    pieces.foldl (fun b s => appendStr outsz s b) ⟨t, true⟩ = ⟨t ++ pieces.flatten, true⟩
  | [], t, _ => by simp
  | s :: pieces, t, h => by
    have hs : t.length + s.length < outsz := by
      simp only [List.flatten_cons, List.length_append] at h
      omega
    rw [List.foldl_cons, appendStr_of_fits hs, foldl_pieces pieces (t ++ s) (by simpa using h)]
    simp

/-- A tag is appended as its key, and as two more pieces if it has a value. -/
def tagPieces (t : Text × Text) : List Text :=
  if t.2 = [] then [t.1] else [t.1, ['='], escapeTagValue 1024 t.2]

theorem flatten_tagPieces {t : Text × Text} (h : TagOk t) : (tagPieces t).flatten = tagWord t := by
  unfold tagPieces tagWord
  split
  · simp
  · simp [h.value_fits]

theorem flatten_tags : ∀ {tags : List (Text × Text)}, (∀ t ∈ tags, TagOk t) →
    ((tags.map tagPieces).intersperse [[';']]).flatten.flatten = joinSep ';' (tags.map tagWord)
  | [], _ => rfl
  | [t], h => by simp [flatten_tagPieces (h t (by simp))]
  | t :: u :: us, h => by
    have ih := flatten_tags fun x hx => h x (List.mem_cons_of_mem t hx)
    have ht := flatten_tagPieces (h t (by simp))
    simp only [List.map_cons, List.intersperse_cons_cons, List.flatten_cons,
      List.flatten_append] at ih ⊢
    rw [ih, ht, joinSep_cons (tagWord t) (by simp)]
    simp

theorem appendTags_of_fits {outsz : Nat} {tags : List (Text × Text)} (h : ∀ t ∈ tags, TagOk t)
    (hfit : (tagSection tags).length < outsz) :
    appendTags outsz tags ⟨[], true⟩ = ⟨tagSection tags, true⟩ := by
  cases tags with
  | nil => rfl
  | cons t ts =>
    have hpieces : ((['@'] :: (((t :: ts).map tagPieces).intersperse [[';']]).flatten) ++
        [[' ']]).flatten = tagSection (t :: ts) := by
      rw [List.flatten_append, List.flatten_cons, flatten_tags h]
      simp [tagSection]
    have hfold := foldl_pieces ((['@'] :: (((t :: ts).map tagPieces).intersperse
      [[';']]).flatten) ++ [[' ']]) [] (by rw [hpieces]; exact hfit)
    rw [hpieces] at hfold
    exact hfold

variable {m : Message}

/-- The source is three more pieces, if there is one. -/
theorem ircBuild_pieces (outsz : Nat) (tags : List (Text × Text)) (pfx : Option Text)
    (command : Text) (params : List Text) (trailing : Option Text) :
    ircBuild outsz tags pfx command params trailing =
      let b := (pfx.elim [] fun p => [[':'], ircEscape 1024 p, [' ']]).foldl
        (fun b s => appendStr outsz s b) (appendTags outsz tags ⟨[], true⟩)
      let b := params.foldl (fun b p => appendStr outsz (mid p) (appendStr outsz [' '] b))
        (appendStr outsz (ircEscape 1024 command) b)
      trailing.elim b fun t => appendTrailing outsz t b := by
  cases pfx <;> cases trailing <;> rfl

/-- **A message that fits is built whole.** -/
theorem build_of_fits (h : m.Ok) {outsz : Nat} (hfit : m.line.length < outsz) :
    m.build outsz = ⟨m.line, true⟩ := by
  have hcmd : ircEscape 1024 m.command = m.command := h.command.escape
  have hmids : m.params.map mid = m.params := map_mid_of_plain h.params
  have hsource : (m.pfx.elim [] fun p => [[':'], ircEscape 1024 p, [' ']]).flatten =
      m.pfx.elim [] fun p => ':' :: p ++ [' '] := by
    cases hp : m.pfx with
    | none => rfl
    | some p => simp [(h.pfx p hp).escape]
  simp only [line, List.length_append] at hfit
  have htags : appendTags outsz m.tags ⟨[], true⟩ = ⟨tagSection m.tags, true⟩ :=
    appendTags_of_fits h.tags (by omega)
  have hfits : (tagSection m.tags ++
      (m.pfx.elim [] fun p => [[':'], ircEscape 1024 p, [' ']]).flatten).length < outsz := by
    rw [hsource, List.length_append]
    omega
  have hhead := foldl_pieces _ _ hfits
  rw [hsource] at hhead
  have hle : m.command.length ≤ (joinSep ' ' (m.command :: m.params)).length := by
    rw [joinSep_eq_flatMap, List.length_append]
    omega
  have hwordsFit : (tagSection m.tags ++ (m.pfx.elim [] fun p => ':' :: p ++ [' ']) ++
      joinSep ' ' (m.command :: m.params.map mid)).length < outsz := by
    rw [hmids]
    simp only [List.length_append]
    omega
  have hwords := foldl_appendStr_of_fits m.params m.command _ h.command.ne_nil hwordsFit
  rw [hmids] at hwords
  rw [build, ircBuild_pieces, htags, hhead, hcmd]
  simp only
  rw [appendStr_of_fits (by simp only [List.length_append]; omega), hwords]
  cases ht : m.trailing with
  | none => simp [line, ht]
  | some t =>
    simp only [ht, Option.elim_some, List.length_cons] at hfit
    obtain ⟨hr, hn, hlen⟩ := h.trailing t ht
    have hesc : ircEscape 1024 t = t := ircEscape_eq_self hr hn hlen
    simp only [Option.elim_some, appendTrailing]
    rw [appendStr_of_fits (by
      simp only [List.length_append, List.length_cons, List.length_nil]; omega)]
    simp only [if_true, hesc]
    rw [List.take_of_length_le (by
      simp only [List.length_append, List.length_cons, List.length_nil]; omega)]
    simp [line, ht]

/-- The parser finds the source, if there is one. -/
theorem takePfx_line (h : m.Ok) (body : Text) (hb : body.head? = m.command.head?) :
    takePfx ((m.pfx.elim [] fun p => ':' :: p ++ [' ']) ++ body) = some (m.pfx, body) := by
  cases hp : m.pfx with
  | none =>
    have hne : body.head? ≠ some ':' := hb ▸ h.no_colon hp
    cases body with
    | nil => rfl
    | cons c cs =>
      have hc : c ≠ ':' := by simpa using hne
      simp only [Option.elim_none, List.nil_append]
      unfold takePfx
      split
      · next heq => exact absurd (List.cons.inj heq).1 hc
      · rfl
  | some p =>
    have hsp := (h.pfx p hp).no_space
    simp [takePfx, strchr_append hsp]

/-- The words behind the source, and the trailing text. -/
def body (m : Message) : Text :=
  joinSep ' ' (m.command :: m.params) ++ m.trailing.elim [] fun t => ' ' :: ':' :: t

theorem head?_body (h : m.Ok) : m.body.head? = m.command.head? := by
  obtain ⟨c, cs, hc⟩ := List.exists_cons_of_ne_nil h.command.ne_nil
  rw [body, hc, joinSep_eq_flatMap]
  rfl

theorem parseBody_body (h : m.Ok) : parseBody m.tags m.pfx m.body = some m.parsed := by
  have hw : Words m.params := by
    intro w hw
    have hp := h.params w hw
    exact ⟨hp.ne_nil, hp.no_space, hp.head_ne_colon⟩
  have hle := h.params_le
  cases ht : m.trailing with
  | none =>
    simp only [ht, Option.toList_none, List.length_nil, Nat.add_zero] at hle
    rw [body, ht, Option.elim_none, List.append_nil, parseBody_words h.command hw hle]
    simp [parsed, ht]
  | some t =>
    simp only [ht, Option.toList_some, List.length_singleton] at hle
    rw [body, ht, Option.elim_some,
      parseBody_words_trailing h.command hw (Nat.lt_of_succ_le hle) t]
    simp [parsed, ht]

theorem ircParseLine_line (h : m.Ok) : ircParseLine m.line = some m.parsed := by
  set rest := (m.pfx.elim [] fun p => ':' :: p ++ [' ']) ++ m.body with hrest
  have hline : m.line = tagSection m.tags ++ rest := by
    simp [line, hrest, body, List.append_assoc]
  have hpfx : takePfx rest = some (m.pfx, m.body) := takePfx_line h m.body (head?_body h)
  have htags : takeTags (tagSection m.tags ++ rest) = some (m.tags, rest) := by
    by_cases hne : m.tags = []
    · have hat : rest.head? ≠ some '@' := by
        cases hp : m.pfx with
        | none =>
          rw [hrest, hp, Option.elim_none, List.nil_append, head?_body h]
          exact h.no_at hp hne
        | some p => simp [hrest, hp]
      rw [hne, tagSection, if_pos rfl, List.nil_append]
      exact takeTags_none hat
    · refine takeTags_tagSection h.tags h.tags_le hne ?_
      have hb : m.body ≠ [] := by
        intro hnil
        have := head?_body h
        rw [hnil] at this
        exact h.command.ne_nil (List.head?_eq_none_iff.mp this.symm)
      simp [hrest, hb]
  rw [hline, ircParseLine, htags, Option.bind_some, hpfx, Option.bind_some]
  exact parseBody_body h

/-- **The round trip.** What fits is built whole, and parsed to what was given: tags in their order
with their values, source, command, parameters and trailing text. The fields are those of a message
that the builder takes as they are; what it escapes is read back unescaped. -/
theorem round_trip (h : m.Ok) {outsz : Nat} (hfit : m.line.length < outsz) :
    (m.build outsz).ok = true ∧ ircParseLine (m.build outsz).text = some m.parsed := by
  rw [build_of_fits h hfit]
  exact ⟨rfl, ircParseLine_line h⟩

/-- A message with all its parts. -/
def demo : Message where
  tags := [("msgid".toList, "a;b \\c".toList), ("+draft/reply".toList, [])]
  pfx := some "001AAAAAB".toList
  command := "PRIVMSG".toList
  params := ["#chan".toList, "a:b".toList]
  trailing := some " :with: spaces ".toList

theorem round_trip_demo : ircParseLine (demo.build 1100).text = some demo.parsed :=
  (round_trip (m := demo)
    { tags := by
        intro t ht
        simp only [demo, List.mem_cons, List.not_mem_nil, or_false] at ht
        rcases ht with rfl | rfl <;> constructor <;> decide +kernel
      tags_le := by decide
      pfx := by
        intro p hp
        obtain rfl : "001AAAAAB".toList = p := Option.some.inj hp
        decide +kernel
      command := by decide +kernel
      no_colon := by decide
      no_at := by decide
      params := by decide +kernel
      params_le := by decide
      trailing := by
        intro t ht
        obtain rfl : " :with: spaces ".toList = t := Option.some.inj ht
        decide +kernel }
    (by decide +kernel)).2

end Message

end SekurIRCd
