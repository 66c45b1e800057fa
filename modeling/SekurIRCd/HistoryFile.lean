/-
# The history file

`history_maybe_save` streams the conversations and the read markers into a JSON text, and
`history_load` reads it back through the ordinary additions.

What is stored comes back (`history_survives`), as long as the file is not over 64 MiB, the times
are doubles, and no marker moves while nothing else is unsaved: `MARKREAD` does not say that
there is something to write, so `history_maybe_save` leaves the file as it is
(`moved_marker_lost`).
-/
import SekurIRCd.HistoryTargets
import SekurIRCd.Lib.Json

namespace SekurIRCd

open CLib JsonText

/-! ## 1. Read markers

A marker says how far an account has read a target. The table is a list here, in the order of the
hash. -/

/-- `marker_key`. -/
def markerKey (account target : Text) : Text :=
  clip 200 (ircCasefold 72 account ++ '\x01' :: ircCasefold 72 target)

/-- `srv->markers`: keys and times, in the order of the table. -/
abbrev Markers := List (Text × Int)

def markersMax : Nat := 100000

/-- A marker only ever moves forward. -/
def forward (old ms : Int) : Int := if old < ms then ms else old

namespace Markers

/-- `server_marker_set`. A marker that is there is moved forward or stays; a new one is refused
when the table is full. -/
def set (m : Markers) (account target : Text) (ms : Int) : Markers :=
  let key := markerKey account target
  match m.lookup key with
  | some _ => m.map fun e => if e.1 = key then (key, forward e.2 ms) else e
  | none => if markersMax ≤ m.length then m else m ++ [(key, forward 0 ms)]

/-- What is moved from a target: the account, and the time. -/
def movedFrom (ocf : Text) (e : Text × Int) : Option (Text × Int) :=
  match strchr '\x01' e.1 with
  | some (account, target) => if target = ocf then some (clip 72 account, e.2) else none
  | none => none

/-- `server_marker_rename`: what was moved is added again, the last first. -/
def rename (m : Markers) (oldname newname : Text) : Markers :=
  let ocf := ircCasefold 72 oldname
  if ocf = ircCasefold 72 newname then m
  else (m.filterMap (movedFrom ocf)).reverse.foldl (fun m e => m.set e.1 newname e.2)
    (m.filter fun e => (movedFrom ocf e).isNone)

end Markers

/-! ## 2. The writer -/

/-- `%04x`. -/
def hex4 (n : Nat) : Text :=
  List.replicate (4 - (Nat.toDigits 16 n).length) '0' ++ Nat.toDigits 16 n

/-- A character in `json_put_string`. -/
def jsonPutChar (c : Char) : Text :=
  if c = '"' then ['\\', '"']
  else if c = '\\' then ['\\', '\\']
  else if c = '\n' then ['\\', 'n']
  else if c = '\r' then ['\\', 'r']
  else if c = '\t' then ['\\', 't']
  else if c.toNat < 0x20 then '\\' :: 'u' :: hex4 c.toNat
  else [c]

/-- `json_put_string`. -/
def jsonPutString (s : Text) : Text := '"' :: (s.flatMap jsonPutChar ++ ['"'])

/-- An entry. -/
def entryText (e : HistEntry) : Text :=
  '[' :: (joinSep ',' [jsonPutString e.msgid, intDecimal e.ms, jsonPutString e.sender,
    jsonPutString e.account, jsonPutString e.verb, jsonPutString e.target, jsonPutString e.text] ++
    [']'])

/-- A conversation. -/
def conversationText (key : Text) (l : List HistEntry) : Text :=
  jsonPutString key ++ ':' :: '[' :: (joinSep ',' (l.map entryText) ++ [']'])

/-- A marker. -/
def markerText (e : Text × Int) : Text := jsonPutString e.1 ++ ':' :: intDecimal e.2

/-- The file; `none` if a slot of a ring holds nothing. All conversations are written, also those
that are empty by now. -/
def historyText (w : Histories) (markers : Markers) : Option Text :=
  (w.mapM fun (e : Text × HistBuf) => e.2.entries.map (conversationText e.1)).map fun bufs =>
    "\x7b\"buffers\":\x7b".toList ++ joinSep ',' bufs ++ "\x7d,\"markers\":\x7b".toList ++
      joinSep ',' (markers.map markerText) ++ "\x7d\x7d".toList

/-! ## 3. The reader

The reader goes through cJSON: numbers are doubles, strings are cut to their fields, and what has
the wrong type is passed over. -/

/-- The fields of an object. -/
def fieldsOf : Option Json → List (Text × Json)
  | some (.obj fields) => fields
  | _ => []

/-- `jstr`. -/
def jstr (items : List Json) (i : Nat) : Text :=
  match items[i]? with
  | some (.str s) => s
  | _ => []

/-- A double as a `long long`. -/
def longOfDouble (d : Int) : Int := if -(2 ^ 63) ≤ d ∧ d ≤ longMax then d else -(2 ^ 63)

def loadEntry : Json → Option HistEntry
  | .arr items =>
    if items.length < 7 then none
    else
      match (items[1]? : Option Json) with
      | some (.num ms) => some ⟨longOfDouble ms, jstr items 0, jstr items 2, jstr items 3,
          jstr items 4, jstr items 5, jstr items 6⟩
      | _ => none
  | _ => none

def loadConversation (cap : Nat) (w : Histories) (f : Text × Json) : Option Histories :=
  match f.2 with
  | .arr items => (items.filterMap loadEntry).foldlM (fun w e => w.add f.1 cap e) w
  | _ => some w

def loadMarker (m : Markers) (f : Text × Json) : Markers :=
  match f.2 with
  | .num ms =>
    match strchr '\x01' f.1 with
    | some (account, target) => m.set (clip 72 account) target (longOfDouble ms)
    | none => m
  | _ => m

/-- The longest file that is read. -/
def historyFileMax : Nat := 64 * 2 ^ 20

/-- The history of a server: what is configured, what is stored, whether there is something to
write, and what is in the file. -/
structure HistoryStore where
  historySize : Nat
  histories : Histories
  markers : Markers
  historyDirty : Bool
  file : Option Text
deriving DecidableEq, Repr

/-- A server without history. -/
def HistoryStore.fresh (historySize : Nat) (file : Option Text) : HistoryStore :=
  ⟨historySize, [], [], false, file⟩

/-- `history_load`, into a fresh server. A file that is too long or does not parse leaves it empty,
and what was loaded is not to be written again. -/
def historyLoad (historySize : Nat) (file : Option Text) : Option HistoryStore :=
  match file with
  | none => some (.fresh historySize none)
  | some t =>
    if historySize = 0 ∨ t = [] ∨ historyFileMax < t.length then some (.fresh historySize (some t))
    else
      match readText t with
      | some (.obj root) =>
        ((fieldsOf (root.lookup "buffers".toList)).foldlM (loadConversation historySize) []).map
          fun w => ⟨historySize, w, (fieldsOf (root.lookup "markers".toList)).foldl loadMarker [],
            false, some t⟩
      | _ => some (.fresh historySize (some t))

namespace HistoryStore

/-- `history_maybe_save`, when it is not put off, and the file can be written. -/
def historyMaybeSave (s : HistoryStore) : Option HistoryStore :=
  if s.historySize = 0 ∨ s.historyDirty = false then some s
  else (historyText s.histories s.markers).map fun t =>
    { s with historyDirty := false, file := some t }

/-! ## 4. Runs

The state is what is in memory, what is in the file, and whether the code believes that they
differ. -/

/-- What happens to it. A save may come at any time, and a restart loses what was not saved; a
rehash may change how many entries a conversation keeps. -/
inductive Event
  | add (c : Conversation) (entry : HistEntry)
  | redact (c : Conversation) (msgid : Text)
  | rename (oldname newname : Text)
  | markread (account target : Text) (ms : Int)
  | rehash (historySize : Nat)
  | save
  | restart

/-- `history_find_msgid`, whether there is one. -/
def holdsMsgid (w : Histories) (key msgid : Text) : Bool :=
  match w.get key with
  | none => false
  | some b => (b.findIndex msgid).join.isSome

/-- Whether `history_rename_channel` or `server_marker_rename` say that something has changed. -/
def renames (w : Histories) (oldname newname : Text) : Bool :=
  decide ((historyKeyChannel oldname ≠ historyKeyChannel newname ∧
    (w.get (historyKeyChannel oldname)).isSome) ∨ ircCasefold 72 oldname ≠ ircCasefold 72 newname)

def step (s : HistoryStore) : Event → Option HistoryStore
  | .add c entry => (s.histories.step (.add c s.historySize entry)).map fun w =>
      { s with histories := w, historyDirty := true }
  | .redact c msgid => (s.histories.step (.redact c msgid)).map fun w =>
      { s with
        histories := w
        historyDirty := s.historyDirty || holdsMsgid s.histories c.key msgid }
  | .rename oldname newname => (s.histories.step (.rename oldname newname)).map fun w =>
      { s with
        histories := w
        markers := s.markers.rename oldname newname
        historyDirty := s.historyDirty || renames s.histories oldname newname }
  | .markread account target ms => some { s with markers := s.markers.set account target ms }
  | .rehash historySize => some { s with historySize := historySize }
  | .save => s.historyMaybeSave
  | .restart => s.historyMaybeSave.bind fun s' => historyLoad s'.historySize s'.file

end HistoryStore

/-! ## 5. What is written

The text that is written is the text of a value. What cJSON reads from it is then a fact about
values. -/

/-- Every character is written as an escape or as itself. -/
theorem writes_jsonPutChar (c : Char) : WritesChars [c] (jsonPutChar c) := by
  rw [jsonPutChar]
  split_ifs with hquote hback hlf hcr htab hctrl
  · subst hquote
    exact writesChars_escape (by decide) (by decide)
  · subst hback
    exact writesChars_escape (by decide) (by decide)
  · subst hlf
    exact writesChars_escape (by decide) (by decide)
  · subst hcr
    exact writesChars_escape (by decide) (by decide)
  · subst htab
    exact writesChars_escape (by decide) (by decide)
  · have hdigits : ∀ n < 0x20, ∃ a b c d, hex4 n = [a, b, c, d] ∧
        hexChar a b c d = some (Char.ofNat n) := by
      intro n hn
      refine ⟨(hex4 n).getD 0 ' ', (hex4 n).getD 1 ' ', (hex4 n).getD 2 ' ', (hex4 n).getD 3 ' ', ?_⟩
      revert n
      decide
    obtain ⟨a, b, d, e, hhex, hchar⟩ := hdigits c.toNat hctrl
    rw [Char.ofNat_toNat] at hchar
    rw [hhex]
    exact writesChars_hex hchar
  · exact writesChars_self hquote hback

theorem writes_jsonPutString (s : Text) : Writes (.str s) (jsonPutString s) :=
  writes_str (.flatMap fun c _ => writes_jsonPutChar c)

theorem writesField {v : Json} {t : Text} (h : Writes v t) (key : Text) :
    WritesField (key, v) (jsonPutString key ++ ':' :: t) := by
  refine ⟨key.flatMap jsonPutChar, t, .flatMap fun c _ => writes_jsonPutChar c, h, ?_⟩
  rw [jsonPutString, List.cons_append, List.append_assoc, List.singleton_append]

/-- An entry in the file. -/
def entryJson (e : HistEntry) : Json :=
  .arr [.str e.msgid, .num (nearestDouble e.ms), .str e.sender, .str e.account, .str e.verb,
    .str e.target, .str e.text]

/-- A time that a `long long` holds. -/
def IsLong (ms : Int) : Prop := -(2 ^ 63) ≤ ms ∧ ms ≤ longMax

theorem writes_entryText {e : HistEntry} (h : IsLong e.ms) : Writes (entryJson e) (entryText e) := by
  refine writes_arr (.cons (writes_jsonPutString _) (.cons (writes_num h.1 h.2) ?_))
  exact .cons (writes_jsonPutString _) (.cons (writes_jsonPutString _)
    (.cons (writes_jsonPutString _) (.cons (writes_jsonPutString _)
      (.cons (writes_jsonPutString _) .nil))))

theorem forall₂_map {α β γ : Type} {R : β → γ → Prop} {f : α → β} {g : α → γ} {l : List α}
    (h : ∀ a ∈ l, R (f a) (g a)) : List.Forall₂ R (l.map f) (l.map g) := by
  rw [List.forall₂_map_left_iff, List.forall₂_map_right_iff, List.forall₂_same]
  exact h

theorem writes_conversationText (key : Text) {l : List HistEntry} (h : ∀ e ∈ l, IsLong e.ms) :
    WritesField (key, .arr (l.map entryJson)) (conversationText key l) :=
  writesField (writes_arr (forall₂_map fun e he => writes_entryText (h e he))) key

theorem writes_markerText {e : Text × Int} (h : IsLong e.2) :
    WritesField (e.1, .num (nearestDouble e.2)) (markerText e) :=
  writesField (writes_num h.1 h.2) e.1

/-- The conversations with what their rings hold. -/
def Histories.contents (w : Histories) : List (Text × List HistEntry) :=
  w.map fun e => (e.1, e.2.entries.getD [])

/-- Those that are not empty. -/
def Histories.conversations (w : Histories) : List (Text × List HistEntry) :=
  w.contents.filter fun c => c.2 ≠ []

/-- The file as a value. -/
def historyJson (contents : List (Text × List HistEntry)) (markers : Markers) : Json :=
  .obj [("buffers".toList, .obj (contents.map fun c => (c.1, .arr (c.2.map entryJson)))),
    ("markers".toList, .obj (markers.map fun e => (e.1, .num (nearestDouble e.2))))]

/-- **The file says what is stored.** -/
theorem writes_historyText {w : Histories} (hheld : ∀ e ∈ w, ∃ l, e.2.Holds l) {markers : Markers}
    (hentries : ∀ c ∈ w.contents, ∀ x ∈ c.2, IsLong x.ms) (hmarkers : ∀ e ∈ markers, IsLong e.2) :
    ∃ t, historyText w markers = some t ∧ Writes (historyJson w.contents markers) t := by
  have hbufs : ∀ {w : Histories}, (∀ e ∈ w, ∃ l, e.2.Holds l) →
      w.mapM (fun e : Text × HistBuf => e.2.entries.map (conversationText e.1)) =
        some (w.contents.map fun c => conversationText c.1 c.2) := by
    intro w hw
    induction w with
    | nil => rfl
    | cons e w ih =>
      obtain ⟨l, hl⟩ := hw e List.mem_cons_self
      have hcontents : Histories.contents (e :: w) =
          (e.1, e.2.entries.getD []) :: Histories.contents w := rfl
      rw [List.mapM_cons, ih fun e' he' => hw e' (List.mem_cons_of_mem e he'), hcontents,
        List.map_cons, hl.entries]
      rfl
  refine ⟨_, by rw [historyText, hbufs hheld]; rfl, ?_⟩
  have hfields : List.Forall₂ WritesField
      [("buffers".toList, Json.obj (w.contents.map fun c => (c.1, .arr (c.2.map entryJson)))),
        ("markers".toList, Json.obj (markers.map fun e => (e.1, .num (nearestDouble e.2))))]
      [jsonPutString "buffers".toList ++ ':' :: '\x7b' ::
          (joinSep ',' (w.contents.map fun c => conversationText c.1 c.2) ++ ['\x7d']),
        jsonPutString "markers".toList ++ ':' :: '\x7b' ::
          (joinSep ',' (markers.map markerText) ++ ['\x7d'])] := by
    refine .cons (writesField (writes_obj (forall₂_map fun c hc => ?_)) _) (.cons
      (writesField (writes_obj (forall₂_map fun e he => ?_)) _) .nil)
    · exact writes_conversationText c.1 (hentries c hc)
    · exact writes_markerText (hmarkers e he)
  have hwrites := writes_obj hfields
  rw [joinSep_cons _ (List.cons_ne_nil _ _), joinSep_singleton] at hwrites
  have hopen : "\x7b\"buffers\":\x7b".toList =
      '\x7b' :: (jsonPutString "buffers".toList ++ [':', '\x7b']) := by decide
  have hmid : "\x7d,\"markers\":\x7b".toList =
      '\x7d' :: ',' :: (jsonPutString "markers".toList ++ [':', '\x7b']) := by decide
  rw [hopen, hmid, historyJson]
  simpa using hwrites

/-! ## 6. Markers come back

Loading adds markers one after the other, so it must be shown that no two of them collide and that
each is put behind those before it. -/

theorem ircCasefold_ircCasefold (n : Nat) (s : Text) :
    ircCasefold n (ircCasefold n s) = ircCasefold n s := by
  rw [ircCasefold, ircCasefold, clip, lower, lower, ← List.map_take, ← clip, clip_clip, List.map_map]
  exact List.map_congr_left fun c _ => toLower_toLower c

theorem ircCasefold_length_le (n : Nat) (s : Text) : (ircCasefold n s).length ≤ n - 1 := by
  rw [ircCasefold, lower_length]
  exact clip_length_le n s

theorem markerKey_eq (account target : Text) : markerKey account target =
    ircCasefold 72 account ++ '\x01' :: ircCasefold 72 target := by
  refine clip_of_fits ?_
  have h1 := ircCasefold_length_le 72 account
  have h2 := ircCasefold_length_le 72 target
  rw [List.length_append, List.length_cons]
  omega

theorem strchr_markerKey {account : Text} (h : '\x01' ∉ account) (target : Text) :
    strchr '\x01' (markerKey account target) =
      some (ircCasefold 72 account, ircCasefold 72 target) := by
  rw [markerKey_eq]
  refine strchr_append (fun hmem => h ?_) _
  exact mem_of_mem_clip ((mem_lower (by decide)).mp hmem)

theorem clip_ircCasefold (n : Nat) (s : Text) : clip n (ircCasefold n s) = ircCasefold n s := by
  rw [ircCasefold, clip, lower, ← List.map_take, ← clip, clip_clip]

theorem markerKey_folded (account target : Text) :
    markerKey (ircCasefold 72 account) (ircCasefold 72 target) = markerKey account target := by
  rw [markerKey, ircCasefold_ircCasefold, ircCasefold_ircCasefold, markerKey]

namespace Markers

/-- What holds of every run: what is kept is within bounds, and when nothing is marked as unsaved
the file says what is stored. -/
structure Ok (m : Markers) : Prop where
  nodup : (m.map Prod.fst).Nodup
  few : m.length ≤ markersMax
  keys : ∀ e ∈ m, ∃ account target, '\x01' ∉ account ∧ e.1 = markerKey account target
  times : ∀ e ∈ m, 0 ≤ e.2 ∧ e.2 ≤ longMax

variable {m : Markers}

theorem ok_nil : Ok [] :=
  ⟨List.nodup_nil, Nat.zero_le _, fun _ he => absurd he List.not_mem_nil,
    fun _ he => absurd he List.not_mem_nil⟩

theorem Ok.sublist (h : m.Ok) {m' : Markers} (hsub : List.Sublist m' m) : m'.Ok :=
  ⟨h.nodup.sublist (hsub.map _), hsub.length_le.trans h.few, fun e he => h.keys e (hsub.subset he),
    fun e he => h.times e (hsub.subset he)⟩

theorem forward_range {old ms : Int} (hold : 0 ≤ old ∧ old ≤ longMax) (hms : ms ≤ longMax) :
    0 ≤ forward old ms ∧ forward old ms ≤ longMax := by
  rw [forward]
  split
  · omega
  · exact hold

theorem Ok.set (h : m.Ok) {account target : Text} {ms : Int} (hacc : '\x01' ∉ account)
    (hms : ms ≤ longMax) : (m.set account target ms).Ok := by
  rw [Markers.set]
  split
  · refine ⟨?_, by rw [List.length_map]; exact h.few, fun e he => ?_, fun e he => ?_⟩
    · have hsame : (m.map fun e => if e.1 = markerKey account target then
          (markerKey account target, forward e.2 ms) else e).map Prod.fst = m.map Prod.fst := by
        rw [List.map_map]
        refine List.map_congr_left fun e _ => ?_
        rw [Function.comp_apply]
        split
        · next hkey => exact hkey.symm
        · rfl
      rw [hsame]
      exact h.nodup
    · obtain ⟨e', he', rfl⟩ := List.mem_map.mp he
      split
      · exact ⟨account, target, hacc, rfl⟩
      · exact h.keys e' he'
    · obtain ⟨e', he', rfl⟩ := List.mem_map.mp he
      split
      · exact forward_range (h.times e' he') hms
      · exact h.times e' he'
  · next hnone =>
    split
    · exact h
    · next hroom =>
      have hnew : markerKey account target ∉ m.map Prod.fst := by
        intro hmem
        obtain ⟨e, he, hkey⟩ := List.mem_map.mp hmem
        have hne := List.lookup_eq_none_iff.mp hnone e he
        rw [hkey] at hne
        simp at hne
      refine ⟨?_, ?_, fun e he => ?_, fun e he => ?_⟩
      · rw [List.map_append, List.nodup_append]
        refine ⟨h.nodup, List.pairwise_singleton _ _, fun k hk k' hk' heq => hnew ?_⟩
        have hkey : k' = markerKey account target := List.mem_singleton.mp hk'
        rw [← hkey, ← heq]
        exact hk
      · rw [List.length_append, List.length_singleton]
        omega
      · rcases List.mem_append.mp he with he | he
        · exact h.keys e he
        · rw [List.mem_singleton.mp he]
          exact ⟨account, target, hacc, rfl⟩
      · rcases List.mem_append.mp he with he | he
        · exact h.times e he
        · rw [List.mem_singleton.mp he]
          exact forward_range ⟨le_refl _, by decide⟩ hms

/-- What is moved is of an account, and has a time that it had. -/
theorem Ok.movedFrom (h : m.Ok) {ocf : Text} {e e' : Text × Int} (he : e ∈ m)
    (hmoved : movedFrom ocf e = some e') : '\x01' ∉ e'.1 ∧ e'.2 ≤ longMax := by
  obtain ⟨account, target, hacc, hkey⟩ := h.keys e he
  rw [Markers.movedFrom, hkey, strchr_markerKey hacc] at hmoved
  simp only at hmoved
  split at hmoved
  · rw [← Option.some.inj hmoved]
    refine ⟨fun hmem => hacc ?_, (h.times e he).2⟩
    exact mem_of_mem_clip ((mem_lower (by decide)).mp (mem_of_mem_clip hmem))
  · exact absurd hmoved (by simp)

theorem Ok.rename (h : m.Ok) (oldname newname : Text) : (m.rename oldname newname).Ok := by
  rw [Markers.rename]
  split
  · exact h
  · have hmoved : ∀ e ∈ (m.filterMap (Markers.movedFrom (ircCasefold 72 oldname))).reverse,
        '\x01' ∉ e.1 ∧ e.2 ≤ longMax := by
      intro e he
      obtain ⟨e', he', hmoved⟩ := List.mem_filterMap.mp (List.mem_reverse.mp he)
      exact h.movedFrom he' hmoved
    have hrest := h.sublist (List.filter_sublist (p := fun e =>
      (Markers.movedFrom (ircCasefold 72 oldname) e).isNone))
    revert hrest
    generalize (m.filter fun e => (Markers.movedFrom (ircCasefold 72 oldname) e).isNone) = rest
    revert hmoved
    generalize (m.filterMap (Markers.movedFrom (ircCasefold 72 oldname))).reverse = moved
    intro hmoved hrest
    induction moved generalizing rest with
    | nil => exact hrest
    | cons e moved ih =>
      obtain ⟨hacc, hms⟩ := hmoved e List.mem_cons_self
      exact ih (Markers.set rest e.1 newname e.2) (fun e' he' => hmoved e' (List.mem_cons_of_mem e he'))
        (hrest.set hacc hms)

/-- **A marker is loaded** behind those before it. -/
theorem Ok.loadMarker {e : Text × Int} (h : Ok (m ++ [e])) (hexact : nearestDouble e.2 = e.2) :
    SekurIRCd.loadMarker m (e.1, .num (nearestDouble e.2)) = m ++ [e] := by
  have he : e ∈ m ++ [e] := List.mem_append_right m List.mem_cons_self
  obtain ⟨account, target, hacc, hkey⟩ := h.keys e he
  obtain ⟨hpos, hlong⟩ := h.times e he
  have hnone : m.lookup e.1 = none := by
    refine List.lookup_eq_none_iff.mpr fun e' he' => ?_
    have hnodup := h.nodup
    rw [List.map_append, List.nodup_append] at hnodup
    have hne := hnodup.2.2 e'.1 (List.mem_map_of_mem he') e.1 List.mem_cons_self
    simpa using hne.symm
  have hroom : ¬ markersMax ≤ m.length := by
    have hfew := h.few
    rw [List.length_append, List.length_singleton] at hfew
    omega
  have hms : forward 0 e.2 = e.2 := by
    rw [forward]
    split <;> omega
  have hload : longOfDouble e.2 = e.2 := if_pos ⟨by omega, hlong⟩
  rw [SekurIRCd.loadMarker, hexact, hkey]
  simp only [strchr_markerKey hacc]
  rw [clip_ircCasefold, hload, Markers.set, markerKey_folded, ← hkey]
  simp only [hnone, hroom, if_false, hms]

/-- **The markers come back.** -/
theorem Ok.load (h : m.Ok) (hexact : ∀ e ∈ m, nearestDouble e.2 = e.2) :
    (m.map fun e => (e.1, Json.num (nearestDouble e.2))).foldl SekurIRCd.loadMarker [] = m := by
  induction m using List.reverseRecOn with
  | nil => rfl
  | append_singleton m e ih =>
    rw [List.map_append, List.foldl_append,
      ih (h.sublist (List.sublist_append_left m [e])) fun e' he' =>
        hexact e' (List.mem_append_left _ he')]
    exact h.loadMarker (hexact e (List.mem_append_right m List.mem_cons_self))

end Markers

/-! ## 7. Rings

What is needed of the rings for the way back: no field is longer than it may be, no ring longer
than its size, and no more buffers than the table has. -/

theorem entryDup_entryDup (e : HistEntry) : entryDup (entryDup e) = entryDup e := by
  simp [entryDup, List.take_take]

/-- An entry as it is kept: no field is longer than it may be. -/
def HistEntry.Kept (e : HistEntry) : Prop := entryDup e = e ∧ IsLong e.ms

theorem kept_entryDup {e : HistEntry} (h : IsLong e.ms) : (entryDup e).Kept :=
  ⟨entryDup_entryDup e, h⟩

/-- A ring with so many entries at most. -/
def HistBuf.Keeps (size : Nat) (b : HistBuf) : Prop :=
  ∃ l, b.Holds l ∧ l.length ≤ size ∧ ∀ x ∈ l, x.Kept

theorem mem_add {a : HistList} {cap : Nat} {entry x : HistEntry}
    (hx : x ∈ (a.add cap entry).entries) : x ∈ a.entries ∨ x = entryDup entry := by
  rw [HistList.add] at hx
  split at hx
  · exact Or.inl hx
  · rcases List.mem_append.mp (List.mem_of_mem_drop hx) with hx | hx
    · split at hx
      · exact Or.inl hx
      · exact absurd hx List.not_mem_nil
    · exact Or.inr (List.mem_singleton.mp hx)

theorem length_add_le {a : HistList} {cap : Nat} (h : a.entries.length ≤ cap) (entry : HistEntry) :
    (a.add cap entry).entries.length ≤ cap := by
  rw [HistList.add]
  split
  · exact h
  · simp only [List.length_drop]
    omega

theorem remove_sublist (a : HistList) (msgid : Text) :
    List.Sublist (a.remove msgid).entries a.entries := by
  rw [HistList.remove, ← List.reverse_sublist, List.reverse_reverse]
  exact List.eraseP_sublist

theorem HistBuf.Keeps.add {size : Nat} {b : HistBuf} (h : b.Keeps size) {entry : HistEntry}
    (hms : IsLong entry.ms) {b' : HistBuf} (hb' : b.add size entry = some b') : b'.Keeps size := by
  obtain ⟨l, hl, hlen, hkept⟩ := h
  obtain ⟨b'', hb'', hheld, -⟩ := hl.add size entry
  obtain rfl := Option.some.inj (hb'.symm.trans hb'')
  refine ⟨_, hheld, length_add_le hlen entry, fun x hx => ?_⟩
  rcases mem_add hx with hx | rfl
  · exact hkept x hx
  · exact kept_entryDup hms

theorem HistBuf.Keeps.removeMsgid {size : Nat} {b : HistBuf} (h : b.Keeps size) {msgid : Text}
    {r : HistBuf × Bool} (hr : b.removeMsgid msgid = some r) : r.1.Keeps size := by
  obtain ⟨l, hl, hlen, hkept⟩ := h
  obtain ⟨b', found, hb', hheld, -⟩ := hl.removeMsgid msgid
  obtain rfl := Option.some.inj (hr.symm.trans hb')
  have hsub := remove_sublist ⟨b.cap, l⟩ msgid
  exact ⟨_, hheld, hsub.length_le.trans hlen, fun x hx => hkept x (hsub.subset hx)⟩

namespace Histories

/-- Where a ring comes from in a step. -/
inductive Comes (w : Histories) : Event → HistBuf → Prop
  | stays {e : Event} {p : Text × HistBuf} (hp : p ∈ w) : Comes w e p.2
  | new {c : Conversation} {cap : Nat} {entry : HistEntry} {b : HistBuf}
    (hb : HistBuf.zero.add cap entry = some b) : Comes w (.add c cap entry) b
  | added {c : Conversation} {cap : Nat} {entry : HistEntry} {p : Text × HistBuf} {b : HistBuf}
    (hp : p ∈ w) (hb : p.2.add cap entry = some b) : Comes w (.add c cap entry) b
  | redacted {c : Conversation} {msgid : Text} {p : Text × HistBuf} {r : HistBuf × Bool}
    (hp : p ∈ w) (hr : p.2.removeMsgid msgid = some r) : Comes w (.redact c msgid) r.1

theorem comes {w w' : Histories} {e : Event} (h : w.step e = some w') :
    ∀ p ∈ w', Comes w e p.2 := by
  intro p hp
  cases e with
  | add c cap entry =>
    have h : w.add c.key cap entry = some w' := h
    rw [Histories.add] at h
    cases hget : w.get c.key with
    | some b =>
      rw [hget] at h
      obtain ⟨b', hb', rfl⟩ := Option.map_eq_some_iff.mp h
      rcases (mem_set hp).2 with hp | hnew
      · exact .stays hp
      · exact hnew ▸ .added (get_some hget) hb'
    | none =>
      rw [hget] at h
      obtain ⟨b', hb', rfl⟩ := Option.map_eq_some_iff.mp h
      rcases List.mem_append.mp hp with hp | hp
      · refine .stays ?_
        split at hp
        · exact (dropQuietest_sublist w).subset hp
        · exact hp
      · rw [List.mem_singleton.mp hp]
        exact .new hb'
  | redact c msgid =>
    have h : w.removeMsgid c.key msgid = some w' := h
    rw [Histories.removeMsgid] at h
    cases hget : w.get c.key with
    | none =>
      rw [hget] at h
      exact .stays (Option.some.inj h ▸ hp)
    | some b =>
      rw [hget] at h
      obtain ⟨r, hr, rfl⟩ := Option.map_eq_some_iff.mp h
      rcases (mem_set hp).2 with hp | hnew
      · exact .stays hp
      · exact hnew ▸ .redacted (get_some hget) hr
  | rename oldname newname =>
    have h : some (w.renameChannel oldname newname) = some w' := h
    obtain rfl := Option.some.inj h
    rw [renameChannel] at hp
    cases hget : w.get (historyKeyChannel oldname) with
    | none =>
      rw [hget] at hp
      exact .stays hp
    | some b =>
      rw [hget] at hp
      simp only at hp
      split at hp
      · exact .stays hp
      · rcases List.mem_append.mp hp with hp | hp
        · exact .stays (List.mem_of_mem_filter hp)
        · rw [List.mem_singleton.mp hp]
          exact Comes.stays (p := (historyKeyChannel oldname, b)) (get_some hget)

/-- Additions are of the configured size, with times of a clock. -/
def Event.Of (size : Nat) : Event → Prop
  | .add _ cap entry => cap = size ∧ IsLong entry.ms
  | _ => True

theorem Comes.keeps {w : Histories} {e : Event} {b : HistBuf} (h : Comes w e b) {size : Nat}
    (hw : ∀ p ∈ w, p.2.Keeps size) (he : e.Of size) : b.Keeps size := by
  cases h with
  | stays hp => exact hw _ hp
  | new hb =>
    obtain ⟨hcap, hms⟩ := he
    rw [hcap] at hb
    have hzero : HistBuf.zero.Keeps size :=
      ⟨[], HistBuf.holds_nil 0 0, Nat.zero_le _, fun _ hx => absurd hx List.not_mem_nil⟩
    exact hzero.add hms hb
  | added hp hb =>
    obtain ⟨hcap, hms⟩ := he
    rw [hcap] at hb
    exact (hw _ hp).add hms hb
  | redacted hp hr => exact (hw _ hp).removeMsgid hr

theorem foldl_pick {α : Type} {f : Option α → α → Option α}
    (hf : ∀ o c, f (some o) c = some c ∨ f (some o) c = some o) (l : List α) (o : α) :
    ∃ o' ∈ o :: l, l.foldl f (some o) = some o' := by
  induction l generalizing o with
  | nil => exact ⟨o, List.mem_cons_self, rfl⟩
  | cons c l ih =>
    rw [List.foldl_cons]
    rcases hf o c with hpick | hpick
    · obtain ⟨o', ho', hl⟩ := ih c
      rw [hpick]
      exact ⟨o', List.mem_cons_of_mem o ho', hl⟩
    · obtain ⟨o', ho', hl⟩ := ih o
      rw [hpick]
      refine ⟨o', ?_, hl⟩
      rcases List.mem_cons.mp ho' with rfl | ho'
      · exact List.mem_cons_self
      · exact List.mem_cons_of_mem o (List.mem_cons_of_mem c ho')

theorem quietest_mem {w : Histories} (hne : w ≠ []) : ∃ o ∈ w, w.quietest = some o := by
  cases w with
  | nil => exact absurd rfl hne
  | cons c l =>
    refine foldl_pick (fun o c => ?_) l c
    simp only
    split
    · exact Or.inl rfl
    · exact Or.inr rfl

theorem dropQuietest_length {w : Histories} (hne : w ≠ []) :
    w.dropQuietest.length < w.length := by
  obtain ⟨o, ho, hq⟩ := quietest_mem hne
  rw [dropQuietest, hq]
  exact List.length_filter_lt_length_iff_exists.mpr ⟨o, ho, by simp⟩

/-- There are never more buffers than there may be. -/
theorem length_step {w w' : Histories} {e : Event} (h : w.step e = some w')
    (hfew : w.length ≤ histMaxBuffers) : w'.length ≤ histMaxBuffers := by
  have hset : ∀ key b, (w.set key b).length = w.length := fun _ _ => List.length_map ..
  cases e with
  | add c cap entry =>
    have h : w.add c.key cap entry = some w' := h
    rw [Histories.add] at h
    cases hget : w.get c.key with
    | some b =>
      rw [hget] at h
      obtain ⟨b', -, rfl⟩ := Option.map_eq_some_iff.mp h
      rw [hset]
      exact hfew
    | none =>
      rw [hget] at h
      obtain ⟨b', -, rfl⟩ := Option.map_eq_some_iff.mp h
      rw [List.length_append, List.length_singleton]
      split
      · next hfull =>
        have hne : w ≠ [] := by
          rintro rfl
          exact absurd hfull (by decide)
        have hlt := dropQuietest_length hne
        omega
      · omega
  | redact c msgid =>
    have h : w.removeMsgid c.key msgid = some w' := h
    rw [Histories.removeMsgid] at h
    cases hget : w.get c.key with
    | none =>
      rw [hget] at h
      rwa [← Option.some.inj h]
    | some b =>
      rw [hget] at h
      obtain ⟨r, -, rfl⟩ := Option.map_eq_some_iff.mp h
      rw [hset]
      exact hfew
  | rename oldname newname =>
    have h : some (w.renameChannel oldname newname) = some w' := h
    obtain rfl := Option.some.inj h
    rw [renameChannel]
    cases hget : w.get (historyKeyChannel oldname) with
    | none => exact hfew
    | some b =>
      simp only
      split
      · exact hfew
      · next hne =>
        have hlt : (w.filter fun e => e.1 ≠ historyKeyChannel newname ∧
            e.1 ≠ historyKeyChannel oldname).length < w.length :=
          List.length_filter_lt_length_iff_exists.mpr ⟨_, get_some hget, by simp⟩
        rw [List.length_append, List.length_singleton]
        omega

/-- The conversations as they are kept, for a configured size: not too many of them, none over its
size, and no field longer than it may be. Only such text is read back as it was. -/
structure Kept (size : Nat) (w : Histories) : Prop where
  ok : w.Ok
  few : w.length ≤ histMaxBuffers
  keeps : ∀ p ∈ w, p.2.Keeps size

theorem kept_nil (size : Nat) : Kept size [] :=
  ⟨ok_nil, Nat.zero_le _, fun _ hp => absurd hp List.not_mem_nil⟩

/-- **One step.** -/
theorem Kept.step {size : Nat} {w : Histories} (h : Kept size w) {e : Event} (he : e.Sound)
    (hof : e.Of size) : ∃ w', w.step e = some w' ∧ Kept size w' := by
  obtain ⟨w', hstep, hok⟩ := h.ok.step he
  exact ⟨w', hstep, hok, length_step hstep h.few, fun p hp => (comes hstep p hp).keeps h.keeps hof⟩

/-! ## 8. Conversations come back

An entry that was kept is added as it is. By induction over the entries of a conversation, and then
over the conversations. -/

/-- A conversation as it is in the file, with times that are doubles. -/
structure Filed (size : Nat) (c : Text × List HistEntry) : Prop where
  keyed : ∃ conversation : Conversation, conversation.Sound ∧ c.1 = conversation.key
  length_le : c.2.length ≤ size
  kept : ∀ x ∈ c.2, x.Kept
  exact : ∀ x ∈ c.2, nearestDouble x.ms = x.ms

theorem loadEntry_entryJson {e : HistEntry} (h : IsLong e.ms) (hexact : nearestDouble e.ms = e.ms) :
    loadEntry (entryJson e) = some e := by
  have hlong : longOfDouble e.ms = e.ms := if_pos h
  rw [entryJson, hexact]
  show some (HistEntry.mk (longOfDouble e.ms) e.msgid e.sender e.account e.verb e.target e.text) =
    some e
  rw [hlong]

theorem add_room {b : HistBuf} {l : List HistEntry} (hb : b.Holds l) {size : Nat}
    (hcap : l = [] ∨ b.cap = size) (hlen : l.length < size) {x : HistEntry} (hx : entryDup x = x) :
    ∃ b', b.add size x = some b' ∧ b'.Holds (l ++ [x]) ∧ b'.cap = size := by
  obtain ⟨b', hb', hheld, hcap'⟩ := hb.add size x
  have hlist : (HistList.mk b.cap l).add size x = ⟨size, l ++ [x]⟩ := by
    have hsame : (if b.cap = size then l else []) = l := by
      rcases hcap with rfl | hcap
      · exact ite_self _
      · exact if_pos hcap
    rw [HistList.add, if_neg (by omega)]
    simp only [hsame, hx, List.length_append, List.length_singleton]
    rw [Nat.sub_eq_zero_of_le hlen, List.drop_zero]
  rw [hlist] at hheld hcap'
  exact ⟨b', hb', hheld, hcap'⟩

section Load

variable {w : Histories} {key : Text} (hnew : key ∉ w.map Prod.fst) {size : Nat}

include hnew

theorem get_new : w.get key = none := by
  refine List.lookup_eq_none_iff.mpr fun e he => ?_
  have hne : key ≠ e.1 := fun heq => hnew (heq ▸ List.mem_map_of_mem he)
  simpa using hne

theorem add_new (hkey : key.length < 160) (hroom : w.length < histMaxBuffers) {x : HistEntry}
    {b : HistBuf} (hb : HistBuf.zero.add size x = some b) :
    w.add key size x = some (w ++ [(key, b)]) := by
  rw [Histories.add, get_new hnew]
  simp only [hb, Option.map_some, if_neg (Nat.not_le.mpr hroom), clip_of_fits hkey]

theorem add_last {x : HistEntry} {b b' : HistBuf} (hb : b.add size x = some b') :
    Histories.add (w ++ [(key, b)]) key size x = some (w ++ [(key, b')]) := by
  have hget : Histories.get (w ++ [(key, b)]) key = some b := by
    have hlookup : List.lookup key w = none := get_new hnew
    rw [Histories.get, List.lookup_append, hlookup, Option.none_or, List.lookup_cons_self]
  have hset : Histories.set (w ++ [(key, b)]) key b' = w ++ [(key, b')] := by
    have hrest : (w.map fun e => if e.1 = key then (key, b') else e) = w := by
      refine (List.map_congr_left fun e he => ?_).trans (List.map_id w)
      exact if_neg fun heq : e.1 = key => hnew (heq ▸ List.mem_map_of_mem he)
    rw [Histories.set, List.map_append, hrest, List.map_singleton, if_pos rfl]
  rw [Histories.add, hget]
  simp only [hb, Option.map_some, hset]

theorem load_entries (hkey : key.length < 160) (hroom : w.length < histMaxBuffers)
    {l : List HistEntry} (hne : l ≠ []) (hlen : l.length ≤ size) (hkept : ∀ x ∈ l, x.Kept) :
    ∃ b, l.foldlM (fun w e => Histories.add w key size e) w = some (w ++ [(key, b)]) ∧
      b.Holds l ∧ b.cap = size := by
  induction l using List.reverseRecOn with
  | nil => exact absurd rfl hne
  | append_singleton l x ih =>
    rw [List.length_append, List.length_singleton] at hlen
    have hx : entryDup x = x := (hkept x (List.mem_append_right l List.mem_cons_self)).1
    by_cases hl : l = []
    · subst hl
      obtain ⟨b, hb, hheld, hcap⟩ := add_room (HistBuf.holds_nil 0 0) (Or.inl rfl)
        (show [].length < size from hlen) hx
      refine ⟨b, ?_, hheld, hcap⟩
      rw [List.nil_append, List.foldlM_cons, add_new hnew hkey hroom hb]
      rfl
    · obtain ⟨b, hb, hheld, hcap⟩ := ih hl (by omega) fun y hy => hkept y (List.mem_append_left _ hy)
      obtain ⟨b', hb', hheld', hcap'⟩ := add_room hheld (Or.inr hcap) hlen hx
      refine ⟨b', ?_, hheld', hcap'⟩
      rw [List.foldlM_append, hb, Option.bind_eq_bind, Option.bind_some, List.foldlM_cons,
        add_last hnew hb']
      rfl

/-- **A conversation is loaded** behind those before it, unless it is empty. -/
theorem loadConversation_eq (hroom : w.length < histMaxBuffers) {l : List HistEntry}
    (hfiled : Filed size (key, l)) :
    ∃ w', loadConversation size w (key, .arr (l.map entryJson)) = some w' ∧
      w'.contents = w.contents ++ [(key, l)].filter (fun c => c.2 ≠ []) ∧
      ((∀ p ∈ w, p.2.Keeps size) → ∀ p ∈ w', p.2.Keeps size) := by
  obtain ⟨⟨c, -, hkey⟩, hlen, hkept, hexact⟩ := hfiled
  have hentries : (l.map entryJson).filterMap loadEntry = l := by
    rw [List.filterMap_map]
    refine (List.filterMap_congr fun x hx => ?_).trans List.filterMap_some
    exact loadEntry_entryJson (hkept x hx).2 (hexact x hx)
  rw [loadConversation]
  simp only [hentries]
  by_cases hne : l = []
  · subst hne
    exact ⟨w, rfl, by simp, fun h => h⟩
  · have hfits : key.length < 160 := by
      have hkey : key = c.key := hkey
      rw [hkey]
      exact c.key_length
    obtain ⟨b, hb, hheld, -⟩ := load_entries hnew hfits hroom hne hlen hkept
    refine ⟨_, hb, ?_, fun h p hp => ?_⟩
    · rw [List.filter_singleton, contents, contents, List.map_append, List.map_singleton,
        hheld.entries]
      simp [hne]
    · rcases List.mem_append.mp hp with hp | hp
      · exact h p hp
      · rw [List.mem_singleton.mp hp]
        exact ⟨l, hheld, hlen, hkept⟩

end Load

/-- **The conversations come back.** -/
theorem load_conversations {size : Nat} {cs : List (Text × List HistEntry)}
    (hnodup : (cs.map Prod.fst).Nodup) (hfew : cs.length ≤ histMaxBuffers)
    (hfiled : ∀ c ∈ cs, Filed size c) :
    ∃ w, (cs.map fun c => (c.1, Json.arr (c.2.map entryJson))).foldlM (loadConversation size) [] =
        some w ∧ w.contents = cs.filter (fun c => c.2 ≠ []) ∧ ∀ p ∈ w, p.2.Keeps size := by
  induction cs using List.reverseRecOn with
  | nil => exact ⟨[], rfl, rfl, fun _ hp => absurd hp List.not_mem_nil⟩
  | append_singleton cs c ih =>
    rw [List.length_append, List.length_singleton] at hfew
    rw [List.map_append, List.nodup_append] at hnodup
    obtain ⟨w, hw, hcontents, hkeeps⟩ := ih hnodup.1 (by omega) fun c' hc' =>
      hfiled c' (List.mem_append_left _ hc')
    have hkeys : List.Sublist (w.map Prod.fst) (cs.map Prod.fst) := by
      have hmap : w.map Prod.fst = w.contents.map Prod.fst := by
        rw [contents, List.map_map]
        rfl
      rw [hmap, hcontents]
      exact List.filter_sublist.map _
    have hnew : c.1 ∉ w.map Prod.fst := fun hmem =>
      hnodup.2.2 c.1 (hkeys.subset hmem) c.1 List.mem_cons_self rfl
    have hlen := hkeys.length_le
    rw [List.length_map, List.length_map] at hlen
    obtain ⟨w', hw', hcontents', hkeeps'⟩ := loadConversation_eq hnew (by omega)
      (hfiled c (List.mem_append_right _ List.mem_cons_self))
    refine ⟨w', ?_, ?_, hkeeps' hkeeps⟩
    · rw [List.map_append, List.foldlM_append, hw, Option.bind_eq_bind, Option.bind_some,
        List.map_singleton, List.foldlM_cons, hw']
      rfl
    · rw [hcontents', hcontents, List.filter_append]

theorem Kept.mem_contents {size : Nat} {w : Histories} (h : Kept size w)
    {c : Text × List HistEntry} (hc : c ∈ w.contents) :
    (∃ conversation : Conversation, conversation.Sound ∧ c.1 = conversation.key) ∧
      c.2.length ≤ size ∧ ∀ x ∈ c.2, x.Kept := by
  obtain ⟨p, hp, rfl⟩ := List.mem_map.mp hc
  obtain ⟨l, hl, hlen, hkept⟩ := h.keeps p hp
  simp only [hl.entries, Option.getD_some]
  exact ⟨h.ok.keys p hp, hlen, hkept⟩

theorem map_fst_contents (w : Histories) : w.contents.map Prod.fst = w.map Prod.fst := by
  rw [contents, List.map_map]
  rfl

theorem mem_conversations {w : Histories} {c : Text × List HistEntry} (hc : c ∈ w.contents)
    (hne : c.2 ≠ []) : c ∈ w.conversations := List.mem_filter.mpr ⟨hc, by simpa using hne⟩

/-- **What was written is loaded.** -/
theorem Kept.load {size₀ : Nat} {w : Histories} (hw : Kept size₀ w) {markers : Markers}
    (hm : markers.Ok) {size : Nat} (hsize : 0 < size)
    (hentries : ∀ c ∈ w.conversations, c.2.length ≤ size ∧ ∀ x ∈ c.2, nearestDouble x.ms = x.ms)
    (hmarkers : ∀ e ∈ markers, nearestDouble e.2 = e.2) {t : Text}
    (ht : historyText w markers = some t) (hlen : t.length ≤ historyFileMax) :
    ∃ w', historyLoad size (some t) = some ⟨size, w', markers, false, some t⟩ ∧ Kept size w' ∧
      w'.conversations = w.conversations := by
  have hfiled : ∀ c ∈ w.contents, Filed size c := by
    intro c hc
    obtain ⟨hkey, -, hkept⟩ := hw.mem_contents hc
    by_cases hne : c.2 = []
    · exact ⟨hkey, by simp [hne], hkept, by simp [hne]⟩
    · obtain ⟨hle, hexact⟩ := hentries c (mem_conversations hc hne)
      exact ⟨hkey, hle, hkept, hexact⟩
  have hnodup : (w.contents.map Prod.fst).Nodup := by
    rw [map_fst_contents]
    exact hw.ok.nodup
  have hfew : w.contents.length ≤ histMaxBuffers := by
    rw [contents, List.length_map]
    exact hw.few
  obtain ⟨w', hw', hcontents, hkeeps⟩ := load_conversations hnodup hfew hfiled
  have hsub : List.Sublist w'.contents w.contents := by
    rw [hcontents]
    exact List.filter_sublist
  refine ⟨w', ?_, ⟨⟨?_, fun p hp => ?_, fun p hp => ?_⟩, ?_, hkeeps⟩, ?_⟩
  · obtain ⟨t', ht', hwrites⟩ := writes_historyText hw.ok.held
      (fun c hc x hx => ((hw.mem_contents hc).2.2 x hx).2)
      (fun e he => ⟨by have := (hm.times e he).1; omega, (hm.times e he).2⟩)
    obtain rfl := Option.some.inj (ht.symm.trans ht')
    obtain ⟨c, r, hcr, -⟩ := hwrites.head
    have hread : ¬ (size = 0 ∨ t = [] ∨ historyFileMax < t.length) := by
      rintro (h | h | h)
      · omega
      · rw [h] at hcr
        exact absurd hcr (by simp)
      · omega
    rw [historyLoad]
    simp only [hread, if_false, hwrites.readText, historyJson]
    refine (congrArg (Option.map _) hw').trans ?_
    rw [Option.map_some]
    exact congrArg (fun m => some (HistoryStore.mk size w' m false (some t))) (hm.load hmarkers)
  · rw [← map_fst_contents]
    exact hnodup.sublist (hsub.map _)
  · have hp' : (p.1, p.2.entries.getD []) ∈ w'.contents := List.mem_map.mpr ⟨p, hp, rfl⟩
    exact (hw.mem_contents (hsub.subset hp')).1
  · obtain ⟨l, hl, -⟩ := hkeeps p hp
    exact ⟨l, hl⟩
  · have hle := hsub.length_le
    rw [contents, List.length_map] at hle
    exact hle.trans hfew
  · rw [conversations, conversations, hcontents, List.filter_filter]
    simp

end Histories

/-! ## 9. A restart

The invariant of a run is that a file that need not be written says what is stored. A marker that
moves by itself breaks it, and a restart is right where it holds. -/

namespace HistoryStore

def Event.Sound : Event → Prop
  | .add c entry => c.Sound ∧ IsLong entry.ms
  | .redact c _ => c.Sound
  | .rename _ newname => ircValidChannel newname 50 = true
  | .markread account _ ms => ircValidUser account 30 = true ∧ 0 ≤ ms ∧ ms ≤ longMax
  | _ => True

/-- What is written is what is read: history is kept, the file is not too long, and the times are
doubles. -/
structure Fits (s : HistoryStore) : Prop where
  on : 0 < s.historySize
  file : ∀ t, (if s.historyDirty then historyText s.histories s.markers else s.file) = some t →
    t.length ≤ historyFileMax
  entries : ∀ c ∈ s.histories.conversations, ∀ x ∈ c.2, nearestDouble x.ms = x.ms
  markers : ∀ e ∈ s.markers, nearestDouble e.2 = e.2

/-- A step that the file stands: `MARKREAD` moves a marker only when there is something else to
write, and the size is never set below what is kept. -/
def Event.Safe (s : HistoryStore) : Event → Prop
  | .markread account target ms => s.historyDirty = true ∨ s.markers.set account target ms = s.markers
  | .rehash historySize => ∀ p ∈ s.histories, p.2.n ≤ historySize
  | .restart => s.Fits
  | _ => True

/-- A run of safe steps. -/
inductive Run (s₀ : HistoryStore) : HistoryStore → Prop
  | start : Run s₀ s₀
  | step {s s' : HistoryStore} {e : Event} (h : Run s₀ s) (he : e.Sound) (hsafe : e.Safe s)
    (hstep : s.step e = some s') : Run s₀ s'

/-- The file says what is stored. -/
def Current (s : HistoryStore) : Prop :=
  (s.file = none ∧ s.histories.conversations = [] ∧ s.markers = []) ∨
    ∃ size w, Histories.Kept size w ∧ w.conversations = s.histories.conversations ∧
      s.file = historyText w s.markers

/-- What holds of every run. -/
structure Ok (s : HistoryStore) : Prop where
  kept : s.histories.Kept s.historySize
  markers : s.markers.Ok
  current : s.historyDirty = false → s.Current

theorem ok_fresh (historySize : Nat) : (fresh historySize none).Ok :=
  ⟨Histories.kept_nil _, Markers.ok_nil, fun _ => Or.inl ⟨rfl, rfl, rfl⟩⟩

variable {s : HistoryStore}

theorem Ok.text (h : s.Ok) : ∃ t, historyText s.histories s.markers = some t := by
  obtain ⟨t, ht, -⟩ := writes_historyText h.kept.ok.held
    (fun c hc x hx => ((h.kept.mem_contents hc).2.2 x hx).2)
    (fun e he => ⟨by have := (h.markers.times e he).1; omega, (h.markers.times e he).2⟩)
  exact ⟨t, ht⟩

/-- A conversation is as long as its size at most. -/
theorem Ok.conversation (h : s.Ok) (hfits : s.Fits) : ∀ c ∈ s.histories.conversations,
    c.2.length ≤ s.historySize ∧ ∀ x ∈ c.2, nearestDouble x.ms = x.ms := fun c hc =>
  ⟨(h.kept.mem_contents (List.mem_of_mem_filter hc)).2.1, hfits.entries c hc⟩

/-- **A restart** brings back what was stored. -/
theorem Ok.restart (h : s.Ok) (hfits : s.Fits) : ∃ s', s.step .restart = some s' ∧ s'.Ok ∧
    s'.histories.conversations = s.histories.conversations ∧ s'.markers = s.markers := by
  have hoff : ¬ s.historySize = 0 := Nat.pos_iff_ne_zero.mp hfits.on
  have hconv := h.conversation hfits
  cases hdirty : s.historyDirty with
  | true =>
    obtain ⟨t, ht⟩ := h.text
    have hlen := hfits.file t (by rw [hdirty]; exact ht)
    obtain ⟨w', hload, hkept, hsame⟩ := h.kept.load h.markers hfits.on hconv hfits.markers ht hlen
    have hsave : s.historyMaybeSave = some { s with historyDirty := false, file := some t } := by
      rw [historyMaybeSave, if_neg (by simp [hoff, hdirty]), ht]
      rfl
    refine ⟨⟨s.historySize, w', s.markers, false, some t⟩, by rw [step, hsave]; exact hload,
      ⟨hkept, h.markers, fun _ => ?_⟩, hsame, rfl⟩
    exact Or.inr ⟨_, _, h.kept, hsame.symm, ht.symm⟩
  | false =>
    have hsave : s.historyMaybeSave = some s := if_pos (Or.inr hdirty)
    rcases h.current hdirty with ⟨hfile, hnone, hmarkers⟩ | ⟨size, w, hw, hsame, hfile⟩
    · refine ⟨fresh s.historySize none, ?_, ok_fresh _, hnone.symm, hmarkers.symm⟩
      rw [step, hsave, Option.bind_some, hfile]
      rfl
    · obtain ⟨t, ht, -⟩ := writes_historyText hw.ok.held
        (fun c hc x hx => ((hw.mem_contents hc).2.2 x hx).2)
        (fun e he => ⟨by have := (h.markers.times e he).1; omega, (h.markers.times e he).2⟩)
      rw [ht] at hfile
      have hlen := hfits.file t (by rw [hdirty]; exact hfile)
      rw [← hsame] at hconv
      obtain ⟨w', hload, hkept, hsame'⟩ := hw.load h.markers hfits.on hconv hfits.markers ht hlen
      refine ⟨⟨s.historySize, w', s.markers, false, some t⟩,
        by rw [step, hsave, Option.bind_some, hfile]; exact hload,
        ⟨hkept, h.markers, fun _ => ?_⟩, hsame'.trans hsame, rfl⟩
      exact Or.inr ⟨size, w, hw, hsame'.symm, ht.symm⟩

/-- A redaction that finds nothing leaves the conversations as they are. -/
theorem redact_none {w w' : Histories} (hw : w.Ok) {c : Conversation} {msgid : Text}
    (hstep : w.step (.redact c msgid) = some w') (hno : holdsMsgid w c.key msgid = false) :
    w' = w := by
  have hstep : w.removeMsgid c.key msgid = some w' := hstep
  rw [Histories.removeMsgid] at hstep
  rw [holdsMsgid] at hno
  cases hget : w.get c.key with
  | none =>
    rw [hget] at hstep
    exact (Option.some.inj hstep).symm
  | some b =>
    rw [hget] at hstep hno
    obtain ⟨l, hl⟩ := hw.held _ (Histories.get_some hget)
    have hfind : b.findIndex msgid = some none := by
      rcases hl.findIndexFrom msgid le_rfl with ⟨hnone, -⟩ | ⟨i, e, -, hfind, -⟩
      · exact hnone
      · have hfind : b.findIndex msgid = some (some i) := hfind
        simp only [hfind] at hno
        exact absurd hno (by simp)
    have hremove : b.removeMsgid msgid = some (b, false) := by
      rw [HistBuf.removeMsgid, hfind]
      rfl
    simp only [hremove, Option.map_some, Option.some.injEq] at hstep
    rw [← hstep, Histories.set]
    refine (List.map_congr_left fun e he => ?_).trans (List.map_id w)
    rw [id_eq]
    split
    · next hkey =>
      have hsame := hw.get_of_mem he
      rw [hkey, hget] at hsame
      rw [Option.some.inj hsame, ← hkey]
    · rfl

theorem rename_none {w : Histories} {m : Markers} {oldname newname : Text}
    (hno : renames w oldname newname = false) :
    w.renameChannel oldname newname = w ∧ m.rename oldname newname = m := by
  have hno := of_decide_eq_false hno
  rw [not_or, not_and, not_not] at hno
  refine ⟨?_, if_pos hno.2⟩
  rw [Histories.renameChannel]
  cases hget : w.get (historyKeyChannel oldname) with
  | none => rfl
  | some b =>
    by_cases hsame : historyKeyChannel oldname = historyKeyChannel newname
    · simp only [if_pos hsame]
    · exact absurd (hno.1 hsame) (by simp [hget])

/-- **A safe step.** -/
theorem Ok.step (h : s.Ok) {e : Event} (he : e.Sound) (hsafe : e.Safe s) :
    ∃ s', s.step e = some s' ∧ s'.Ok := by
  cases e with
  | add c entry =>
    obtain ⟨w, hw, hkept⟩ := h.kept.step (e := .add c s.historySize entry) he.1 ⟨rfl, he.2⟩
    refine ⟨{ s with histories := w, historyDirty := true },
      by rw [HistoryStore.step, hw]; rfl, hkept, h.markers, fun hclean => ?_⟩
    exact absurd hclean (by simp)
  | redact c msgid =>
    obtain ⟨w, hw, hkept⟩ := h.kept.step (e := .redact c msgid) he trivial
    refine ⟨{ s with
        histories := w
        historyDirty := s.historyDirty || holdsMsgid s.histories c.key msgid },
      by rw [HistoryStore.step, hw]; rfl, hkept, h.markers, fun hclean => ?_⟩
    obtain ⟨hwas, hno⟩ := Bool.or_eq_false_iff.mp hclean
    obtain rfl := redact_none h.kept.ok hw hno
    exact h.current hwas
  | rename oldname newname =>
    obtain ⟨w, hw, hkept⟩ := h.kept.step (e := .rename oldname newname) he trivial
    refine ⟨{ s with
        histories := w
        markers := s.markers.rename oldname newname
        historyDirty := s.historyDirty || renames s.histories oldname newname },
      by rw [HistoryStore.step, hw]; rfl, hkept, h.markers.rename oldname newname,
      fun hclean => ?_⟩
    obtain ⟨hclean, hno⟩ := Bool.or_eq_false_iff.mp hclean
    obtain ⟨hsame, hmarkers⟩ := @rename_none _ s.markers _ _ hno
    have hw : some (s.histories.renameChannel oldname newname) = some w := hw
    rw [← Option.some.inj hw, hsame, hmarkers]
    exact h.current hclean
  | markread account target ms =>
    obtain ⟨hacc, -, hms⟩ := he
    have hno : '\x01' ∉ account := by
      intro hmem
      have hmade := (valid_user hacc).2 _ hmem
      revert hmade
      decide
    refine ⟨_, rfl, h.kept, h.markers.set hno hms, fun hclean => ?_⟩
    have hsame : s.markers.set account target ms = s.markers :=
      hsafe.resolve_left fun hdirty => by
        have hclean : s.historyDirty = false := hclean
        rw [hdirty] at hclean
        exact absurd hclean (by simp)
    rw [hsame]
    exact h.current hclean
  | rehash historySize =>
    refine ⟨_, rfl, ⟨h.kept.ok, h.kept.few, fun p hp => ?_⟩, h.markers, h.current⟩
    obtain ⟨l, hl, -, hkept⟩ := h.kept.keeps p hp
    exact ⟨l, hl, hl.count ▸ hsafe p hp, hkept⟩
  | save =>
    rw [HistoryStore.step, historyMaybeSave]
    split
    · exact ⟨s, rfl, h⟩
    · obtain ⟨t, ht⟩ := h.text
      refine ⟨{ s with historyDirty := false, file := some t }, by rw [ht]; rfl, h.kept, h.markers,
        fun _ => ?_⟩
      exact Or.inr ⟨_, _, h.kept, rfl, ht.symm⟩
  | restart =>
    obtain ⟨s', hs', hok, -⟩ := h.restart hsafe
    exact ⟨s', hs', hok⟩

theorem Run.ok {historySize : Nat} (h : Run (fresh historySize none) s) : s.Ok := by
  induction h with
  | start => exact ok_fresh historySize
  | step _ he hsafe hstep ih =>
    obtain ⟨s', hs', hok⟩ := ih.step he hsafe
    rwa [Option.some.inj (hstep.symm.trans hs')]

/-- **History survives a restart**, in every state of a run of safe steps that fits: the
conversations that are not empty come back with their entries, and so do the markers. The state is
written and parsed as JSON text here, not handed over. -/
theorem history_survives {historySize : Nat} (h : Run (fresh historySize none) s)
    (hfits : s.Fits) : ∃ s', s.step .restart = some s' ∧
      s'.histories.conversations = s.histories.conversations ∧ s'.markers = s.markers := by
  obtain ⟨s', hs', -, hconv, hmarkers⟩ := h.ok.restart hfits
  exact ⟨s', hs', hconv, hmarkers⟩

/-- A message, and that it was read. -/
def talkStore : HistoryStore where
  historySize := 100
  histories := [("#chat".toList, ⟨100, 4, 0, 1, [some (entryDup demoMessage), none, none, none],
    1700000000000⟩)]
  markers := [("ann\x01#chat".toList, 1700000000000)]
  historyDirty := true
  file := none

theorem talkStore_run : Run (fresh 100 none) talkStore := by
  have hsaid : Run (fresh 100 none) { talkStore with markers := [] } :=
    .step (e := .add (.channel "#Chat".toList) demoMessage) .start
      ⟨by unfold Conversation.Sound; decide, by decide, by decide⟩ trivial (by decide +kernel)
  exact .step (e := .markread "Ann".toList "#Chat".toList 1700000000000) hsaid
    ⟨by decide, by decide, by decide⟩ (Or.inl rfl) (by decide +kernel)

theorem talkStore_fits : talkStore.Fits := by
  refine ⟨by decide, fun t ht => ?_, by decide +kernel, by decide +kernel⟩
  have hlen : (historyText talkStore.histories talkStore.markers).all fun t =>
      decide (t.length ≤ historyFileMax) := by decide +kernel
  have ht : historyText talkStore.histories talkStore.markers = some t := ht
  rw [ht] at hlen
  exact of_decide_eq_true hlen

theorem history_survives_talk : ∃ s', talkStore.step .restart = some s' ∧
    s'.histories.conversations = talkStore.histories.conversations ∧
    s'.markers = talkStore.markers :=
  history_survives talkStore_run talkStore_fits

/-- **A marker that moves** when nothing else has changed is not written. -/
theorem moved_marker_lost :
    ∃ s s', (fresh 100 none).step (.markread "ann".toList "#chat".toList 1700000000000) = some s ∧
      (Event.markread "ann".toList "#chat".toList 1700000000000).Sound ∧
      s.markers = [("ann\x01#chat".toList, 1700000000000)] ∧ s.step .restart = some s' ∧
      s'.markers = [] :=
  ⟨_, fresh 100 none, rfl, ⟨by decide, by decide, by decide⟩, by decide +kernel, rfl, rfl⟩

end HistoryStore

end SekurIRCd
