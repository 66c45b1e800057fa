/-
# What a conversation sounded like

A message goes to its recipients and into the history.  A multiline batch is stored as one text,
its lines joined by LF and its concat fragments by CR, and taken apart again when it is replayed.

+S and +G work on each fragment on that way, and on the glued line on the way to a client without
the capability; and a CR that a client put into a line stays in the text that is stored, while it
is dropped from a line that is sent.  And a line by itself carries its sender's own tags when it is
sent, and may be cut for them, while a replay has no such tags.

A replay is what was live exactly when no CR is left, every glued line comes out the same both ways,
and the text of a line has room behind the tags (`replay_iff`).
-/
import SekurIRCd.Delivery
import SekurIRCd.History
import Mathlib.Data.List.Forall2

namespace SekurIRCd

open CLib

/-! ## 1. What a channel does to a text

`strip_formatting` is a machine with four states, and `censor_text` a loop for each word. Neither
can see further than the text it is given, which is why it matters where a text is cut. -/

/-- The bytes of bold, reset, monospace, reverse, italic, strikethrough and underline. -/
def isFormatting (c : Char) : Bool :=
  c ∈ ['\x02', '\x0f', '\x11', '\x16', '\x1d', '\x1e', '\x1f']

/-- Where `strip_formatting` stands: in the text, or behind the digits of a colour, or behind those
of the other one. -/
inductive StripState
  | text
  | fore (digits : Nat)
  | back (digits : Nat)
deriving DecidableEq, Repr

/-- A character of the text: where it leads, and whether it stays. -/
def stripText (c : Char) : StripState × Bool :=
  if isFormatting c then (.text, false) else if c = '\x03' then (.fore 0, false) else (.text, true)

/-- A character, behind some: two digits at most are of a colour, and a comma begins the other.
Where the colour ends the character is one of the text. -/
def stripChar : StripState → Char → StripState × Bool
  | .text, c => stripText c
  | .fore n, c =>
    if n < 2 ∧ c.isDigit then (.fore (n + 1), false)
    else if c = ',' then (.back 0, false) else stripText c
  | .back n, c => if n < 2 ∧ c.isDigit then (.back (n + 1), false) else stripText c

def stripFrom : StripState → Text → Text
  | _, [] => []
  | st, c :: s =>
    if (stripChar st c).2 then c :: stripFrom (stripChar st c).1 s
    else stripFrom (stripChar st c).1 s

/-- `strip_formatting`. -/
def stripFormatting (dstsz : Nat) (src : Text) : Text := clip dstsz (stripFrom .text src)

/-- The loop over one censored word; `k` characters of an occurrence are still to be starred. -/
def censorFrom (w : Text) : Nat → Text → Text
  | _, [] => []
  | k + 1, _ :: s => '*' :: censorFrom w k s
  | 0, c :: s =>
    if casePrefix w (c :: s) then '*' :: censorFrom w (w.length - 1) s else c :: censorFrom w 0 s

/-- `censor_text`. -/
def censorText (words : List Text) (text : Text) : Text :=
  words.foldl (fun t w => if w = [] then t else censorFrom w 0 t) text

/-- `+S` and `+G` of the channel, with the words of the configuration; neither for a private
message. They are as they were when the message was sent. -/
structure TextModes where
  strip : Bool
  censor : Bool
  words : List Text
deriving DecidableEq, Repr

/-- What both do to a text. -/
def TextModes.applied (m : TextModes) (text : Text) : Text :=
  let t := if m.strip then stripFormatting 420 text else text
  if m.censor then censorText m.words t else t

/-- Neither +S nor +G. -/
def TextModes.off : TextModes := ⟨false, false, []⟩

/-! ## 2. Live

The texts that lines are built of are the same for all clients that have multiline, and for all
that have not.  The lines are not: what is built around a text depends on the tags a client asked
for, and with it the room that is left. -/

/-- A message that a client sent: one line, or a batch with its concat flags. History has one text
for either. -/
inductive SentMessage
  | line (text : Text)
  | batch (ls : List MlLine)

/-- The loop of `deliver_ml` for a client without multiline; a line was begun, and has `cur`. -/
def glueLines (m : TextModes) (cur : Text) : List MlLine → List Text
  | [] => [m.applied cur]
  | (true, t) :: ls => glueLines m (clip 420 (cur ++ t)) ls
  | (false, t) :: ls => m.applied cur :: glueLines m (clip 420 t) ls

/-- `deliver_ml`: the texts, each with its concat flag. A client with multiline gets the fragments,
each with the modes applied to it; any other gets the lines glued. -/
def deliverMl (multiline : Bool) (m : TextModes) (ls : List MlLine) : List MlLine :=
  if multiline then ls.map fun l => (l.1, m.applied (clip 420 l.2))
  else
    match ls with
    | [] => []
    | (_, t) :: ls => (glueLines m (clip 420 t) ls).map fun t => (false, t)

/-- The texts of a message when it is sent. -/
def liveTexts (multiline : Bool) (m : TextModes) : SentMessage → List MlLine
  | .line text => [(false, m.applied text)]
  | .batch ls => deliverMl multiline m ls

/-- **What is shown of a message when it is sent** (`deliver`).  The sender's own tags are in the
line of a message by itself; the lines of a batch are without. -/
def liveLines (c : ClientCaps) (e : Envelope) (m : TextModes) (msg : SentMessage) : List MlLine :=
  match msg with
  | .line _ => (liveTexts c.multiline m msg).filterMap fun l =>
      e.sentLine 1200 (e.tags c 0 e.clientTags) e.target l
  | .batch _ =>
    if c.multiline then (liveTexts true m msg).filterMap fun l =>
      e.sentLine 1200 (Envelope.batchTags e.liveBatch l.1) e.target l
    else (liveTexts false m msg).zipIdx.filterMap fun x =>
      e.sentLine 1200 (e.tags c x.2 []) e.target x.1

/-! ## 3. Stored and replayed

An entry keeps the text of a line, or of a batch the texts with a mark between each two.  A replay
takes a text with a mark in it for a batch. -/

/-- What stands before a line of a batch that is not the first. -/
def histMark (concat : Bool) : Char := if concat then '\r' else '\n'

/-- `ml_hist_text`. -/
def mlHistText (m : TextModes) : List MlLine → Text
  | [] => []
  | (_, t) :: ls => clip (mlMaxBytes + mlMaxLines + 1) (m.applied (clip 420 t) ++
      ls.flatMap fun l => histMark l.1 :: m.applied (clip 420 l.2))

/-- `hist_body`, of a message that is no `TAGMSG`. -/
def histBody (m : TextModes) : SentMessage → Text
  | .line text => m.applied text
  | .batch ls => mlHistText m ls

/-- The text of the entry, with `HIST_FIELD_MAX`. -/
def histText (m : TextModes) (msg : SentMessage) : Text := (histBody m msg).take 4200

/-- LF or CR. -/
def isMark (c : Char) : Bool := c == '\n' || c == '\r'

/-- The fragments between the marks, each with whether a CR stands before it. -/
def histFrags (concat : Bool) (frag : Text) : Text → List MlLine
  | [] => [(concat, frag)]
  | c :: s =>
    if isMark c then (concat, frag) :: histFrags (c == '\r') [] s
    else histFrags concat (frag ++ [c]) s

/-- `replay_multiline`: the texts, each with its concat flag. A client without multiline gets the
parts between the LFs, with the CRs taken out. -/
def replayMultiline (multiline : Bool) (text : Text) : List MlLine :=
  if multiline then (histFrags false [] text).map fun l => (l.1, clip 420 l.2)
  else (splitSep '\n' text).map fun l => (false, clip 420 (l.filter (· ≠ '\r')))

/-- The texts of an entry when it is replayed. -/
def replayTexts (multiline : Bool) (text : Text) : List MlLine :=
  if text.any isMark then replayMultiline multiline text else [(false, text)]

/-- **What is shown of an entry when it is replayed** (`cmd_chathistory`). -/
def replayLines (c : ClientCaps) (e : Envelope) (text : Text) : List MlLine :=
  if text.any isMark ∧ c.multiline then (replayTexts true text).filterMap fun l =>
    e.sentLine 1100 (Envelope.batchTags e.replayBatch l.1) e.name l
  else (replayTexts c.multiline text).zipIdx.filterMap fun x =>
    e.sentLine 1100 (e.pageTags c (x.2 == 0)) e.name x.1

/-! ## 4. What is to be

What is shown is compared as a list of texts with their concat flags: the lines around the texts
are not the same at another time. -/

/-- A message as it can come from a client to this target: cut where a line is taken, without line
feeds, and for a batch within its limits and of this target. -/
inductive SentMessage.Accepted (maxLen : Nat) (target : Text) : SentMessage → Prop
  | line {text : Text} (hlf : '\n' ∉ text) : Accepted maxLen target (.line (mlText maxLen text))
  | batch {ml : MlState} (hok : ml.Ok maxLen) (hacc : ml.accepted = true)
    (hlf : ∀ l ∈ ml.lines, '\n' ∉ l.2) (htarget : ml.target = target) :
    Accepted maxLen target (.batch ml.lines)

/-- A batch has a short target: a longer one is not opened. -/
theorem SentMessage.Accepted.target_lt {maxLen : Nat} {target : Text} {ls : List MlLine}
    (h : SentMessage.Accepted maxLen target (.batch ls)) : target.length < 72 := by
  cases h with
  | batch hok _ _ htarget => exact htarget ▸ hok.target

/-- **A replay is what was live**: to every client it shows the same lines with the same concat
flags, and a single line is not replayed as a batch. -/
def ReplaysAsLive (e : Envelope) (m : TextModes) (msg : SentMessage) : Prop :=
  (∀ c, replayLines c e (histText m msg) = liveLines c e m msg) ∧
    ∀ text, msg = .line text → (histText m msg).any isMark = false

/-- **The text of a line has room** behind the tags of every client; that of a batch has no tags of
its sender, and always has. -/
def LeavesRoom (e : Envelope) (m : TextModes) : SentMessage → Prop
  | .line text => ∀ c, (e.lineHead c).Holds (m.applied text)
  | .batch _ => True

/-- The fragments of a message, each with its concat flag. -/
def SentMessage.lines : SentMessage → List MlLine
  | .line text => [(false, text)]
  | .batch ls => ls

/-- The fragments of each line, once a line was begun. -/
def lineFrags (frags : List Text) : List MlLine → List (List Text)
  | [] => [frags]
  | (true, t) :: ls => lineFrags (frags ++ [t]) ls
  | (false, t) :: ls => frags :: lineFrags [t] ls

/-- The fragments of each line of a message. -/
def SentMessage.glued (msg : SentMessage) : List (List Text) :=
  match msg.lines with
  | [] => []
  | (_, t) :: ls => lineFrags [t] ls

/-- **The seams of a line do not show**: what +S and +G make of the glued line, cut where a line is
cut, is what they make of its fragments. -/
def Seamless (m : TextModes) (frags : List Text) : Prop :=
  shownText (m.applied (clip 420 frags.flatten)) =
    shownText (clip 420 (frags.map m.applied).flatten)

instance (m : TextModes) (frags : List Text) : Decidable (Seamless m frags) :=
  inferInstanceAs (Decidable (_ = _))

/-! ## 5. The modes -/

theorem stripFrom_sublist (st : StripState) (s : Text) : (stripFrom st s).Sublist s := by
  induction s generalizing st with
  | nil => exact List.Sublist.slnil
  | cons c s ih =>
    rw [stripFrom]
    split
    · exact (ih _).cons_cons c
    · exact (ih _).cons c

/-- Some characters are stars afterwards, the others as they were. -/
def Starred (s t : Text) : Prop := List.Forall₂ (fun x y => y = x ∨ y = '*') s t

theorem Starred.refl (s : Text) : Starred s s := List.forall₂_same.mpr fun _ _ => Or.inl rfl

theorem Starred.trans {s t u : Text} (h : Starred s t) (h' : Starred t u) : Starred s u := by
  induction h generalizing u with
  | nil => exact h'
  | cons hxy _ ih =>
    cases h' with
    | cons hyz hrest =>
      refine .cons ?_ (ih hrest)
      rcases hyz with rfl | hstar
      · exact hxy
      · exact Or.inr hstar

theorem starred_censorFrom (w : Text) (k : Nat) (s : Text) : Starred s (censorFrom w k s) := by
  induction s generalizing k with
  | nil =>
    rw [censorFrom]
    exact .nil
  | cons c s ih =>
    cases k with
    | zero =>
      rw [censorFrom]
      split
      · exact .cons (Or.inr rfl) (ih _)
      · exact .cons (Or.inl rfl) (ih 0)
    | succ k => exact .cons (Or.inr rfl) (ih k)

theorem starred_censorText (words : List Text) (s : Text) : Starred s (censorText words s) := by
  induction words generalizing s with
  | nil => exact .refl s
  | cons w words ih =>
    refine Starred.trans ?_ (ih _)
    show Starred s (if w = [] then s else censorFrom w 0 s)
    split
    · exact .refl s
    · exact starred_censorFrom w 0 s

theorem Starred.mem {s t : Text} (h : Starred s t) : ∀ x ∈ t, x = '*' ∨ x ∈ s := by
  induction h with
  | nil => exact fun x hx => Or.inr hx
  | cons hxy _ ih =>
    refine List.forall_mem_cons.mpr ⟨?_, fun x hx => (ih x hx).imp_right (List.mem_cons_of_mem _)⟩
    rcases hxy with rfl | hstar
    · exact Or.inr List.mem_cons_self
    · exact Or.inl hstar

namespace TextModes

variable (m : TextModes)

theorem applied_length_le (text : Text) : (m.applied text).length ≤ text.length := by
  have hstrip : (if m.strip then stripFormatting 420 text else text).length ≤ text.length := by
    split
    · exact ((List.take_sublist _ _).trans (stripFrom_sublist _ _)).length_le
    · exact le_rfl
  rw [applied]
  split
  · rwa [← (starred_censorText _ _).length_eq]
  · exact hstrip

theorem mem_applied {text : Text} {c : Char} (h : c ∈ m.applied text) : c = '*' ∨ c ∈ text := by
  have hstrip : c ∈ (if m.strip then stripFormatting 420 text else text) → c ∈ text := by
    split
    · exact fun hmem => ((List.take_sublist _ _).trans (stripFrom_sublist _ _)).subset hmem
    · exact id
  rw [applied] at h
  split at h
  · exact ((starred_censorText _ _).mem _ h).imp_right hstrip
  · exact Or.inr (hstrip h)

theorem lf_notMem_applied {text : Text} (h : '\n' ∉ text) : '\n' ∉ m.applied text :=
  fun hmem => (m.mem_applied hmem).elim (by decide) h

end TextModes

theorem clip_clip_append (n : Nat) (a b : Text) : clip n (clip n a ++ b) = clip n (a ++ b) := by
  rw [clip, clip, clip, List.take_append, List.take_append, List.take_take, List.length_take]
  congr 1
  · rw [min_self]
  · congr 1
    omega

/-! ## 6. The marks -/

section Marks

variable (m : TextModes)

/-- What the lines behind the first are stored as. -/
def histRest (ls : List MlLine) : Text := ls.flatMap fun l => histMark l.1 :: m.applied l.2

variable {m}

theorem isMark_histMark (concat : Bool) : isMark (histMark concat) = true := by
  cases concat <;> rfl

theorem any_isMark_eq_false_iff {t : Text} : t.any isMark = false ↔ '\n' ∉ t ∧ '\r' ∉ t := by
  rw [List.any_eq_false]
  constructor
  · exact fun hnone => ⟨fun hmem => hnone _ hmem rfl, fun hmem => hnone _ hmem rfl⟩
  · rintro ⟨hlf, hcr⟩ x hx hm
    rw [isMark, Bool.or_eq_true, beq_iff_eq, beq_iff_eq] at hm
    rcases hm with rfl | rfl
    · exact hlf hx
    · exact hcr hx

theorem filter_cr_eq_self {t : Text} (hcr : '\r' ∉ t) : t.filter (· ≠ '\r') = t := by
  refine List.filter_eq_self.mpr fun x hx => ?_
  rw [decide_eq_true_eq]
  rintro rfl
  exact hcr hx

@[simp] theorem histRest_nil : histRest m [] = [] := rfl

theorem histRest_cons (l : MlLine) (ls : List MlLine) :
    histRest m (l :: ls) = histMark l.1 :: (m.applied l.2 ++ histRest m ls) := rfl

theorem histFrags_append {a : Text} (h : a.any isMark = false) (concat : Bool) (frag s : Text) :
    histFrags concat frag (a ++ s) = histFrags concat (frag ++ a) s := by
  induction a generalizing frag with
  | nil => rw [List.nil_append, List.append_nil]
  | cons c a ih =>
    obtain ⟨hc, ha⟩ := Bool.or_eq_false_iff.mp (List.any_cons.symm.trans h)
    rw [List.cons_append, histFrags, if_neg (Bool.eq_false_iff.mp hc), ih ha, List.append_assoc,
      List.singleton_append]

/-- **The fragments come apart** where they were put together. -/
theorem histFrags_histRest {ls : List MlLine} (h : ∀ l ∈ ls, (m.applied l.2).any isMark = false)
    (concat : Bool) (frag : Text) : histFrags concat frag (histRest m ls) =
      (concat, frag) :: ls.map fun l => (l.1, m.applied l.2) := by
  induction ls generalizing concat frag with
  | nil => rfl
  | cons l ls ih =>
    obtain ⟨hl, hls⟩ := List.forall_mem_cons.mp h
    have hflag : (histMark l.1 == '\r') = l.1 := by cases l.1 <;> rfl
    rw [histRest_cons, histFrags, if_pos (isMark_histMark l.1), histFrags_append hl,
      List.nil_append, ih hls, hflag, List.map_cons]

theorem length_histFrags (concat : Bool) (frag s : Text) :
    (histFrags concat frag s).length = s.countP isMark + 1 := by
  induction s generalizing concat frag with
  | nil => rfl
  | cons c s ih =>
    rw [histFrags]
    by_cases hc : isMark c = true
    · rw [if_pos hc, List.length_cons, ih, List.countP_cons_of_pos hc]
    · rw [if_neg hc, ih, List.countP_cons_of_neg hc]

theorem countP_histRest_cons (l : MlLine) (ls : List MlLine) :
    (histRest m (l :: ls)).countP isMark =
      (m.applied l.2).countP isMark + (histRest m ls).countP isMark + 1 := by
  rw [histRest_cons, List.countP_cons_of_pos (isMark_histMark l.1), List.countP_append]

theorem length_le_countP_histRest (ls : List MlLine) :
    ls.length ≤ (histRest m ls).countP isMark := by
  induction ls with
  | nil => exact le_rfl
  | cons l ls ih =>
    rw [countP_histRest_cons, List.length_cons]
    omega

/-- As many fragments as lines come back only if there is no mark in a line. -/
theorem any_isMark_of_countP {ls : List MlLine} (h : (histRest m ls).countP isMark ≤ ls.length) :
    ∀ l ∈ ls, (m.applied l.2).any isMark = false := by
  induction ls with
  | nil => exact fun l hl => absurd hl List.not_mem_nil
  | cons l ls ih =>
    rw [countP_histRest_cons, List.length_cons] at h
    have hge := length_le_countP_histRest (m := m) ls
    have hzero : (m.applied l.2).countP isMark = 0 := by omega
    refine List.forall_mem_cons.mpr ⟨?_, ih (by omega)⟩
    rw [List.any_eq_false]
    exact fun x hx => List.countP_eq_zero.mp hzero x hx

/-- **The lines come apart** too, and without the marks of the fragments. -/
theorem splitSep_histRest {ls : List MlLine} (h : ∀ l ∈ ls, '\n' ∉ m.applied l.2)
    {line : Text} (hlf : '\n' ∉ line) {frags : List Text}
    (hline : line.filter (· ≠ '\r') = (frags.map m.applied).flatten.filter (· ≠ '\r')) :
    (splitSep '\n' (line ++ histRest m ls)).map (fun l => l.filter (· ≠ '\r')) =
      (lineFrags frags ls).map fun g => (g.map m.applied).flatten.filter (· ≠ '\r') := by
  induction ls generalizing line frags with
  | nil =>
    rw [histRest_nil, List.append_nil, splitSep_of_not_mem hlf, List.map_singleton, hline]
    rfl
  | cons l ls ih =>
    obtain ⟨concat, t⟩ := l
    obtain ⟨hl, hls⟩ := List.forall_mem_cons.mp h
    cases concat with
    | true =>
      have hcons : line ++ histRest m ((true, t) :: ls) =
          (line ++ '\r' :: m.applied t) ++ histRest m ls := by
        rw [List.append_assoc]
        rfl
      rw [hcons, lineFrags]
      refine ih hls ?_ ?_
      · rw [List.mem_append, List.mem_cons, not_or, not_or]
        exact ⟨hlf, by decide, hl⟩
      · rw [List.filter_append, hline, List.filter_cons_of_neg (by decide), List.map_append,
          List.flatten_append, List.map_singleton, List.flatten_singleton, List.filter_append]
    | false =>
      have hcons : line ++ histRest m ((false, t) :: ls) =
          line ++ '\n' :: (m.applied t ++ histRest m ls) := rfl
      rw [hcons, splitSep_append hlf, lineFrags, List.map_cons, List.map_cons, hline,
        ih hls hl (by rw [List.map_singleton, List.flatten_singleton])]

theorem mem_lineFrags {frags : List Text} {ls : List MlLine} {g : List Text}
    (hg : g ∈ lineFrags frags ls) : ∀ t ∈ g, t ∈ frags ∨ t ∈ ls.map Prod.snd := by
  induction ls generalizing frags with
  | nil =>
    rw [List.mem_singleton.mp hg]
    exact fun t ht => Or.inl ht
  | cons l ls ih =>
    obtain ⟨concat, t⟩ := l
    intro x hx
    cases concat with
    | true =>
      rcases ih hg x hx with hx | hx
      · rcases List.mem_append.mp hx with hx | hx
        · exact Or.inl hx
        · exact Or.inr (List.mem_cons.mpr (Or.inl (List.mem_singleton.mp hx)))
      · exact Or.inr (List.mem_cons_of_mem _ hx)
    | false =>
      rcases List.mem_cons.mp hg with rfl | hg
      · exact Or.inl hx
      · rcases ih hg x hx with hx | hx
        · exact Or.inr (List.mem_cons.mpr (Or.inl (List.mem_singleton.mp hx)))
        · exact Or.inr (List.mem_cons_of_mem _ hx)

/-- The fragments that are glued are those of the message. -/
theorem mem_lines_of_lineFrags {t : Text} {ls : List MlLine} {g : List Text}
    (hg : g ∈ lineFrags [t] ls) {f : Text} (hf : f ∈ g) : ∃ l ∈ (false, t) :: ls, l.2 = f := by
  rcases mem_lineFrags hg f hf with hf | hf
  · exact ⟨(false, t), List.mem_cons_self, (List.mem_singleton.mp hf).symm⟩
  · obtain ⟨l, hl, rfl⟩ := List.mem_map.mp hf
    exact ⟨l, List.mem_cons_of_mem _ hl, rfl⟩

/-- What a client without multiline gets live: each line glued first. -/
theorem glueLines_eq {ls : List MlLine} {cur : Text} {frags : List Text}
    (hcur : cur = clip 420 frags.flatten) :
    glueLines m cur ls = (lineFrags frags ls).map fun g => m.applied (clip 420 g.flatten) := by
  induction ls generalizing cur frags with
  | nil =>
    rw [glueLines, hcur]
    rfl
  | cons l ls ih =>
    obtain ⟨concat, t⟩ := l
    cases concat with
    | true =>
      rw [glueLines, lineFrags]
      refine ih ?_
      rw [hcur, clip_clip_append, List.flatten_append, List.flatten_singleton]
    | false =>
      rw [glueLines, lineFrags, List.map_cons, hcur, ih (by rw [List.flatten_singleton])]

end Marks

/-! ## 7. Live and replayed

Both directions: with no CR, no seam and enough room what is replayed is what was live, and each of
the three can be seen in some client's replay. -/

section Replay

variable {m : TextModes} {t : Text} {ls : List MlLine}

/-- A text without a mark is shown as one line either way. -/
theorem replayTexts_eq {text : Text} (h : text.any isMark = false → text.length < 420)
    (multiline : Bool) : replayTexts multiline text = replayMultiline multiline text := by
  rw [replayTexts]
  split
  · rfl
  next hnone =>
    have hnone := Bool.eq_false_iff.mpr hnone
    have hclip : clip 420 text = text := clip_of_fits (h hnone)
    have hfrags : histFrags false [] text = [(false, text)] := by
      have happ := histFrags_append hnone false [] []
      rwa [List.append_nil] at happ
    obtain ⟨hlf, hcr⟩ := any_isMark_eq_false_iff.mp hnone
    cases multiline with
    | true =>
      rw [replayMultiline, if_pos rfl, hfrags, List.map_singleton, hclip]
    | false =>
      rw [replayMultiline, if_neg (by decide), splitSep_of_not_mem hlf, List.map_singleton,
        filter_cr_eq_self hcr, hclip]

/-- Live, a client with multiline is sent the fragments as they are. -/
theorem wholeLines_live (hshort : ∀ l ∈ (false, t) :: ls, l.2.length < 420) :
    wholeLines (deliverMl true m ((false, t) :: ls)) =
      ((false, t) :: ls).map fun l => (l.1, shownText (m.applied l.2)) := by
  rw [deliverMl, if_pos rfl, wholeLines, List.map_map]
  refine List.map_congr_left fun l hl => ?_
  rw [Function.comp_apply, clip_of_fits (hshort l hl)]

/-- Live, a client without multiline is sent the lines, each glued and cut. -/
theorem wholeLines_live_glued : wholeLines (deliverMl false m ((false, t) :: ls)) =
    (lineFrags [t] ls).map fun g => (false, shownText (m.applied (clip 420 g.flatten))) := by
  have hcur : clip 420 t = clip 420 ([t] : List Text).flatten := by rw [List.flatten_singleton]
  rw [deliverMl, if_neg (by decide), glueLines_eq hcur, List.map_map, wholeLines, List.map_map]
  rfl

/-- With no mark left in a fragment, a client with multiline is replayed the same fragments. -/
theorem wholeLines_replay (hshort : ∀ l ∈ (false, t) :: ls, l.2.length < 420)
    (hnone : ∀ l ∈ (false, t) :: ls, (m.applied l.2).any isMark = false) :
    wholeLines (replayMultiline true (m.applied t ++ histRest m ls)) =
      ((false, t) :: ls).map fun l => (l.1, shownText (m.applied l.2)) := by
  have hclip : ∀ l ∈ (false, t) :: ls, clip 420 (m.applied l.2) = m.applied l.2 := fun l hl =>
    clip_of_fits ((m.applied_length_le l.2).trans_lt (hshort l hl))
  obtain ⟨ht, hls⟩ := List.forall_mem_cons.mp hnone
  rw [replayMultiline, if_pos rfl, histFrags_append ht, List.nil_append, histFrags_histRest hls,
    List.map_cons, List.map_cons, List.map_map, wholeLines, List.map_cons, List.map_map,
    hclip (false, t) List.mem_cons_self]
  refine congrArg (_ :: ·) (List.map_congr_left fun l hl => ?_)
  rw [Function.comp_apply, Function.comp_apply, hclip l (List.mem_cons_of_mem _ hl)]

/-- And a client without it the lines, glued from fragments that were stripped and censored. -/
theorem wholeLines_replay_glued (hlf : ∀ l ∈ (false, t) :: ls, '\n' ∉ m.applied l.2)
    (hcr : ∀ l ∈ (false, t) :: ls, '\r' ∉ m.applied l.2) :
    wholeLines (replayMultiline false (m.applied t ++ histRest m ls)) =
      (lineFrags [t] ls).map fun g => (false, shownText (clip 420 (g.map m.applied).flatten)) := by
  have hclean : ∀ g ∈ lineFrags [t] ls, (g.map m.applied).flatten.filter (· ≠ '\r') =
      (g.map m.applied).flatten := by
    intro g hg
    refine filter_cr_eq_self fun hmem => ?_
    obtain ⟨a, ha, hin⟩ := List.mem_flatten.mp hmem
    obtain ⟨f, hf, rfl⟩ := List.mem_map.mp ha
    obtain ⟨l, hl, rfl⟩ := mem_lines_of_lineFrags hg hf
    exact hcr l hl hin
  have hline : (m.applied t).filter (· ≠ '\r') =
      (([t] : List Text).map m.applied).flatten.filter (· ≠ '\r') := by
    rw [List.map_singleton, List.flatten_singleton]
  have hsplit := (splitSep_histRest (List.forall_mem_cons.mp hlf).2
    (hlf (false, t) List.mem_cons_self) hline).trans (List.map_congr_left hclean)
  have hmap := congrArg (List.map fun l : Text => (false, shownText (clip 420 l))) hsplit
  rw [List.map_map, List.map_map] at hmap
  rw [replayMultiline, if_neg (by decide), wholeLines, List.map_map]
  exact hmap

/-- **The fragments of a message** are replayed as they were live exactly if none has a mark and no
seam of a line shows. -/
theorem replayMultiline_iff (hshort : ∀ l ∈ (false, t) :: ls, l.2.length < 420)
    (hlf : ∀ l ∈ (false, t) :: ls, '\n' ∉ l.2) :
    (∀ multiline, wholeLines (replayMultiline multiline (m.applied t ++ histRest m ls)) =
        wholeLines (deliverMl multiline m ((false, t) :: ls))) ↔
      (∀ l ∈ (false, t) :: ls, '\r' ∉ m.applied l.2) ∧ ∀ g ∈ lineFrags [t] ls, Seamless m g := by
  have hlf' : ∀ l ∈ (false, t) :: ls, '\n' ∉ m.applied l.2 := fun l hl =>
    m.lf_notMem_applied (hlf l hl)
  have hmark : ∀ l ∈ (false, t) :: ls,
      ((m.applied l.2).any isMark = false ↔ '\r' ∉ m.applied l.2) :=
    fun l hl => any_isMark_eq_false_iff.trans (and_iff_right (hlf' l hl))
  by_cases hnone : ∀ l ∈ (false, t) :: ls, '\r' ∉ m.applied l.2
  · have hbatch := (wholeLines_replay hshort fun l hl => (hmark l hl).mpr (hnone l hl)).trans
      (wholeLines_live hshort).symm
    rw [and_iff_right hnone, Bool.forall_bool, and_iff_left hbatch, wholeLines_live_glued,
      wholeLines_replay_glued hlf' hnone, List.map_inj_left]
    exact forall₂_congr fun g _ =>
      ⟨fun h => (Prod.mk.inj h).2.symm, fun h => congrArg (Prod.mk false) h.symm⟩
  · -- a mark that is left makes one fragment more
    refine iff_of_false (fun hall => hnone ?_) fun h => hnone h.1
    have hlen := congrArg List.length (hall true)
    rw [wholeLines_live hshort, replayMultiline, if_pos rfl, wholeLines, List.length_map,
      List.length_map, List.length_map, length_histFrags, List.countP_append,
      List.length_cons] at hlen
    have hle : (histRest m ((false, t) :: ls)).countP isMark ≤ ((false, t) :: ls).length := by
      rw [countP_histRest_cons, List.length_cons]
      dsimp only
      omega
    exact fun l hl => (hmark l hl).mp (any_isMark_of_countP hle l hl)

/-- A message of a client, as its fragments. -/
structure SentMessage.Shape (m : TextModes) (msg : SentMessage) (t : Text) (ls : List MlLine) :
    Prop where
  lines : msg.lines = (false, t) :: ls
  short : ∀ l ∈ (false, t) :: ls, l.2.length < 420
  lf : ∀ l ∈ (false, t) :: ls, '\n' ∉ l.2
  stored : histText m msg = m.applied t ++ histRest m ls
  live : ∀ multiline, liveTexts multiline m msg = deliverMl multiline m ((false, t) :: ls)

theorem length_histRest_le (m : TextModes) (ls : List MlLine) :
    (histRest m ls).length ≤ mlBytes ls + ls.length := by
  induction ls with
  | nil => exact le_rfl
  | cons l ls ih =>
    have hbytes : mlBytes (l :: ls) = l.2.length + mlBytes ls := rfl
    have hle := m.applied_length_le l.2
    rw [histRest_cons, List.length_cons, List.length_append, hbytes, List.length_cons]
    omega

theorem SentMessage.Accepted.shape {maxLen : Nat} {target : Text} {msg : SentMessage}
    (h : msg.Accepted maxLen target) (m : TextModes) : ∃ t ls, msg.Shape m t ls := by
  cases h with
  | @line text hlf =>
    have hlt := mlText_lt maxLen text
    have hle := m.applied_length_le (mlText maxLen text)
    refine ⟨mlText maxLen text, [], rfl, ?_, ?_, ?_, fun multiline => ?_⟩
    · rintro l (_ | ⟨_, ⟨⟩⟩)
      exact hlt
    · rintro l (_ | ⟨_, ⟨⟩⟩)
      exact fun hmem => hlf (List.mem_of_mem_take (List.mem_of_mem_take hmem))
    · have hfits : (m.applied (mlText maxLen text)).length ≤ 4200 := by omega
      exact (List.take_of_length_le hfits).trans (List.append_nil _).symm
    · have hclip : clip 420 (mlText maxLen text) = mlText maxLen text := clip_of_fits hlt
      cases multiline <;> simp [liveTexts, deliverMl, glueLines, hclip]
  | @batch ml hok hacc hlf htarget =>
    obtain ⟨⟨concat, t⟩, ls, hlines⟩ : ∃ l ls, ml.lines = l :: ls := by
      refine List.exists_cons_of_ne_nil fun hnil => ?_
      rw [MlState.accepted, hnil] at hacc
      exact absurd hacc (by decide)
    obtain rfl : concat = false := hok.first (concat, t) (by rw [hlines]; rfl)
    have hshort : ∀ l ∈ (false, t) :: ls, l.2.length < 420 := by
      intro l hl
      rw [← hok.texts l (hlines ▸ hl)]
      exact mlText_lt ..
    have hclip : ∀ l ∈ (false, t) :: ls, clip 420 l.2 = l.2 := fun l hl =>
      clip_of_fits (hshort l hl)
    refine ⟨t, ls, hlines, hshort, hlines ▸ hlf, ?_, fun multiline => ?_⟩
    · have hrest : (ls.flatMap fun l => histMark l.1 :: m.applied (clip 420 l.2)) = histRest m ls :=
        List.flatMap_congr fun l hl => by rw [hclip l (List.mem_cons_of_mem _ hl)]
      have hbytes := hok.bytes
      have hcount := hok.lines
      rw [hlines] at hbytes hcount
      have hsum : mlBytes ((false, t) :: ls) = t.length + mlBytes ls := rfl
      have hle := m.applied_length_le t
      have hrestle := length_histRest_le m ls
      rw [hsum, mlMaxBytes] at hbytes
      rw [List.length_cons, mlMaxLines] at hcount
      have hlen : (m.applied t ++ histRest m ls).length < 4121 := by
        rw [List.length_append]
        omega
      rw [histText, histBody, hlines, mlHistText, hrest, hclip (false, t) List.mem_cons_self,
        clip_of_fits (show _ < mlMaxBytes + mlMaxLines + 1 from hlen),
        List.take_of_length_le (by omega)]
    · rw [liveTexts, hlines]

theorem shownText_of_lf {t : Text} (ht : t.length < 420) (hlf : '\n' ∉ t) :
    shownText t = t.filter (· ≠ '\r') := by
  have hfilter : (t.filter fun c => c ≠ '\r' ∧ c ≠ '\n') = t.filter (· ≠ '\r') := by
    refine List.filter_congr fun c hc => ?_
    have hne : c ≠ '\n' := fun h => hlf (h ▸ hc)
    simp [hne]
  have hlen := List.length_filter_le (fun c : Char => c ≠ '\r') t
  rw [shownText, ircEscape, hfilter, List.take_of_length_le (by omega)]

theorem shownText_eq {t : Text} (ht : t.length < 420) (hcr : '\r' ∉ t) (hlf : '\n' ∉ t) :
    shownText t = t := by
  rw [shownText_of_lf ht hlf, filter_cr_eq_self hcr]

/-- A part of a text that is short and has no LF is shown as it is. -/
theorem shownText_part {s q : Text} (hs : s.length < 420) (hlf : '\n' ∉ s)
    (hq : q ∈ splitSep '\r' s) : shownText (clip 420 q) = q := by
  have hsub : q.Sublist s := by
    refine (List.sublist_flatten_of_mem hq).trans ?_
    rw [flatten_splitSep]
    exact List.filter_sublist
  have hlen := hsub.length_le
  rw [clip_of_fits (by omega)]
  exact shownText_eq (by omega) (notMem_of_mem_splitSep hq) fun hmem => hlf (hsub.subset hmem)

/-- The fragments between the marks are those on either side of one. -/
theorem histFrags_mark (a : Text) (k concat : Bool) (frag s : Text) :
    histFrags concat frag (a ++ histMark k :: s) = histFrags concat frag a ++ histFrags k [] s := by
  induction a generalizing concat frag with
  | nil =>
    have hflag : (histMark k == '\r') = k := by cases k <;> rfl
    have hstep : histFrags concat frag (histMark k :: s) =
        (concat, frag) :: histFrags (histMark k == '\r') [] s := if_pos (isMark_histMark k)
    rw [List.nil_append, hstep, hflag]
    rfl
  | cons c a ih =>
    rw [List.cons_append, histFrags, histFrags]
    split
    · rw [ih, List.cons_append]
    · exact ih _ _

theorem histFrags_texts {a : Text} (hlf : '\n' ∉ a) (concat : Bool) {frag : Text}
    (hfrag : '\r' ∉ frag) :
    (histFrags concat frag a).map Prod.snd = splitSep '\r' (frag ++ a) := by
  induction a generalizing concat frag with
  | nil =>
    rw [List.append_nil, splitSep_of_not_mem hfrag]
    rfl
  | cons c a ih =>
    obtain ⟨hc, ha⟩ := not_or.mp (mt List.mem_cons.mpr hlf)
    by_cases hcr : c = '\r'
    · rw [hcr, histFrags, if_pos (by decide), List.map_cons, ih ha _ List.not_mem_nil,
        splitSep_append hfrag, List.nil_append]
    · have hno : isMark c = false := by
        rw [isMark, Bool.or_eq_false_iff, beq_eq_false_iff_ne, beq_eq_false_iff_ne]
        exact ⟨Ne.symm hc, hcr⟩
      have hfrag' : '\r' ∉ frag ++ [c] := by
        rw [List.mem_append, List.mem_singleton, not_or]
        exact ⟨hfrag, Ne.symm hcr⟩
      rw [histFrags, if_neg (Bool.eq_false_iff.mp hno), ih ha _ hfrag', List.append_assoc,
        List.singleton_append]

theorem histFrags_histRest_texts {m : TextModes} {ls : List MlLine} (hls : ∀ l ∈ ls, '\n' ∉ l.2)
    {t : Text} (ht : '\n' ∉ t) (concat : Bool) :
    (histFrags concat [] (m.applied t ++ histRest m ls)).map Prod.snd =
      splitSep '\r' (m.applied t) ++ ls.flatMap fun l => splitSep '\r' (m.applied l.2) := by
  induction ls generalizing t concat with
  | nil =>
    rw [histRest_nil, List.append_nil, List.flatMap_nil, List.append_nil]
    exact histFrags_texts (m.lf_notMem_applied ht) concat List.not_mem_nil
  | cons l ls ih =>
    obtain ⟨hl, hls⟩ := List.forall_mem_cons.mp hls
    rw [histRest_cons, histFrags_mark, List.map_append, ih hls hl, List.flatMap_cons,
      histFrags_texts (m.lf_notMem_applied ht) concat List.not_mem_nil, List.nil_append]

namespace SentMessage.Shape

variable {m : TextModes} {msg : SentMessage} {t : Text} {ls : List MlLine}
  (h : msg.Shape m t ls)

include h

theorem glued_eq : msg.glued = lineFrags [t] ls := by rw [glued, h.lines]

theorem applied_lt : ∀ l ∈ (false, t) :: ls, (m.applied l.2).length < 420 := fun l hl =>
  (m.applied_length_le l.2).trans_lt (h.short l hl)

theorem applied_lf : ∀ l ∈ (false, t) :: ls, '\n' ∉ m.applied l.2 := fun l hl =>
  m.lf_notMem_applied (h.lf l hl)

theorem bare (hnone : (m.applied t ++ histRest m ls).any isMark = false) :
    (m.applied t ++ histRest m ls).length < 420 := by
  cases ls with
  | nil =>
    rw [histRest_nil, List.append_nil]
    exact h.applied_lt (false, t) List.mem_cons_self
  | cons l ls =>
    rw [List.any_eq_false] at hnone
    exact absurd (isMark_histMark l.1)
      (hnone _ (List.mem_append_right _ (List.mem_cons_self ..)))

/-- The texts that a client with multiline gets live. -/
theorem live_texts : (wholeLines (liveTexts true m msg)).map Prod.snd =
    msg.lines.map fun l => shownText (m.applied l.2) := by
  rw [h.live, h.lines, deliverMl, if_pos rfl, wholeLines, List.map_map, List.map_map]
  refine List.map_congr_left fun l hl => ?_
  rw [Function.comp_apply, Function.comp_apply, clip_of_fits (h.short l hl)]

theorem live_glued : (wholeLines (liveTexts false m msg)).map Prod.snd =
    msg.glued.map fun g => shownText (m.applied (clip 420 g.flatten)) := by
  have hcur : clip 420 t = clip 420 ([t] : List Text).flatten := by rw [List.flatten_singleton]
  rw [h.live, h.glued_eq, deliverMl, if_neg (by decide), glueLines_eq hcur, wholeLines,
    List.map_map, List.map_map, List.map_map]
  rfl

/-- The texts that a replay shows to a client with multiline: a CR takes a fragment apart. -/
theorem replay_texts : (wholeLines (replayTexts true (histText m msg))).map Prod.snd =
    msg.lines.flatMap fun l => splitSep '\r' (m.applied l.2) := by
  obtain ⟨ht, hls⟩ := List.forall_mem_cons.mp h.lf
  have hfrags : (histFrags false [] (m.applied t ++ histRest m ls)).map Prod.snd =
      ((false, t) :: ls).flatMap fun l => splitSep '\r' (m.applied l.2) := by
    rw [histFrags_histRest_texts hls ht false, List.flatMap_cons]
  have hshown : (((false, t) :: ls).flatMap fun l => splitSep '\r' (m.applied l.2)).map
      (fun q => shownText (clip 420 q)) =
        ((false, t) :: ls).flatMap fun l => splitSep '\r' (m.applied l.2) := by
    refine (List.map_congr_left fun q hq => ?_).trans (List.map_id _)
    obtain ⟨l, hl, hpart⟩ := List.mem_flatMap.mp hq
    exact shownText_part (h.applied_lt l hl) (h.applied_lf l hl) hpart
  rw [h.stored, replayTexts_eq h.bare, replayMultiline, if_pos rfl, wholeLines, List.map_map,
    List.map_map, h.lines, ← hshown, ← hfrags, List.map_map]
  rfl

/-- And to one without: the fragments as they were left, glued. -/
theorem replay_glued : (wholeLines (replayTexts false (histText m msg))).map Prod.snd =
    msg.glued.map fun g => clip 420 ((g.map m.applied).flatten.filter (· ≠ '\r')) := by
  have hline : (m.applied t).filter (· ≠ '\r') =
      (([t] : List Text).map m.applied).flatten.filter (· ≠ '\r') := by
    rw [List.map_singleton, List.flatten_singleton]
  have hsplit := splitSep_histRest (List.forall_mem_cons.mp h.applied_lf).2
    (h.applied_lf (false, t) List.mem_cons_self) hline
  rw [h.stored, replayTexts_eq h.bare, replayMultiline, if_neg (by decide), wholeLines,
    List.map_map, List.map_map, h.glued_eq]
  have hmap := congrArg (List.map fun l : Text => shownText (clip 420 l)) hsplit
  rw [List.map_map, List.map_map] at hmap
  refine hmap.trans (List.map_congr_left fun g hg => ?_)
  have hmem : ∀ c ∈ clip 420 ((g.map m.applied).flatten.filter (· ≠ '\r')),
      c ≠ '\r' ∧ c ≠ '\n' := by
    intro c hc
    obtain ⟨hc, hcr⟩ := List.mem_filter.mp (mem_of_mem_clip hc)
    refine ⟨of_decide_eq_true hcr, ?_⟩
    rintro rfl
    obtain ⟨a, ha, hin⟩ := List.mem_flatten.mp hc
    obtain ⟨f, hf, rfl⟩ := List.mem_map.mp ha
    obtain ⟨l, hl, rfl⟩ := mem_lines_of_lineFrags hg hf
    exact h.applied_lf l hl hin
  have hlen := clip_length_le 420 ((g.map m.applied).flatten.filter (· ≠ '\r'))
  exact shownText_eq (Nat.lt_of_le_of_lt hlen (by decide)) (fun hin => (hmem _ hin).1 rfl)
    fun hin => (hmem _ hin).2 rfl

/-- **A replay has room** for all it shows. -/
theorem replayed (c : ClientCaps) (e : Envelope) :
    replayLines c e (histText m msg) = wholeLines (replayTexts c.multiline (histText m msg)) := by
  have hname : e.name.length < 72 := e.name_fits.trans (by decide)
  have hclip : ∀ t : Text, (clip 420 t).length < 420 := fun t =>
    Nat.lt_of_le_of_lt (clip_length_le 420 t) (by decide)
  have hshort : ∀ multiline, ∀ l ∈ replayTexts multiline (histText m msg), l.2.length < 420 := by
    intro multiline l hl
    rw [h.stored, replayTexts_eq h.bare, replayMultiline] at hl
    split at hl
    · obtain ⟨x, -, rfl⟩ := List.mem_map.mp hl
      exact hclip x.2
    · obtain ⟨x, -, rfl⟩ := List.mem_map.mp hl
      exact hclip _
  rw [replayLines]
  split
  next hmarks =>
    rw [hmarks.2]
    exact Envelope.sentLines_whole fun l hl =>
      e.holds_batch e.replayBatch l.1 hname (hshort true l hl) le_rfl
  next =>
    exact Envelope.sentLines_whole_zipIdx fun x hx =>
      e.holds_page c (x.2 == 0) (hshort _ x.1 (List.fst_mem_of_mem_zipIdx hx))

/-- **So has a batch** when it is sent. -/
theorem live_batch {sent : List MlLine} (hb : msg = .batch sent) (c : ClientCaps) {e : Envelope}
    (ht : e.target.length < 72) :
    liveLines c e m msg = wholeLines (liveTexts c.multiline m msg) := by
  have hshort : ∀ multiline, ∀ l ∈ liveTexts multiline m msg, l.2.length < 420 := by
    intro multiline l hl
    rw [h.live, deliverMl] at hl
    have happlied : ∀ t : Text, (m.applied (clip 420 t)).length < 420 := fun t =>
      (m.applied_length_le _).trans_lt (Nat.lt_of_le_of_lt (clip_length_le 420 t) (by decide))
    split at hl
    · obtain ⟨x, -, rfl⟩ := List.mem_map.mp hl
      exact happlied x.2
    · have hcur : clip 420 t = clip 420 ([t] : List Text).flatten := by rw [List.flatten_singleton]
      rw [glueLines_eq hcur, List.map_map] at hl
      obtain ⟨g, -, rfl⟩ := List.mem_map.mp hl
      exact happlied g.flatten
  subst hb
  rw [liveLines]
  cases hc : c.multiline with
  | true =>
    rw [if_pos rfl]
    exact Envelope.sentLines_whole fun l hl =>
      e.holds_batch e.liveBatch l.1 ht (hshort true l hl) (by decide)
  | false =>
    rw [if_neg (by decide)]
    exact Envelope.sentLines_whole_zipIdx fun x hx =>
      e.holds_live c x.2 ht (hshort false x.1 (List.fst_mem_of_mem_zipIdx hx))

end SentMessage.Shape

/-- A line by itself: as much of the text as its line has room for. -/
theorem liveLines_line (c : ClientCaps) (e : Envelope) (m : TextModes) (text : Text) :
    liveLines c e m (.line text) =
      (((e.lineHead c).sent (m.applied text)).map (false, ·)).toList := by
  rw [liveLines, liveTexts, List.filterMap_cons, List.filterMap_nil]
  show _ = (e.sentLine 1200 (e.tags c 0 e.clientTags) e.target (false, m.applied text)).toList
  cases e.sentLine 1200 (e.tags c 0 e.clientTags) e.target (false, m.applied text) <;> rfl

/-- It is shown whole to every client exactly if it has the room. -/
theorem roomFor_line {e : Envelope} {m : TextModes} {text : Text} :
    LeavesRoom e m (.line text) ↔
      ∀ c, liveLines c e m (.line text) = wholeLines (liveTexts c.multiline m (.line text)) := by
  refine forall_congr' fun c => ?_
  rw [liveLines_line, liveTexts, wholeLines, List.map_singleton, ← LineHead.sent_eq_iff]
  cases (e.lineHead c).sent (m.applied text) <;> simp

/-- **A replay is what was live** exactly if no CR is left in the text, no seam of a line shows,
and the text of a line has room behind the tags of every client. Each of the three is about the
message and the channel as they are when it is sent. -/
theorem replay_iff (e : Envelope) (m : TextModes) {maxLen : Nat} {msg : SentMessage}
    (h : msg.Accepted maxLen e.target) : ReplaysAsLive e m msg ↔
      (∀ l ∈ msg.lines, '\r' ∉ m.applied l.2) ∧ (∀ g ∈ msg.glued, Seamless m g) ∧
        LeavesRoom e m msg := by
  obtain ⟨t, ls, hshape⟩ := h.shape m
  have hwhole : (∀ multiline, wholeLines (replayTexts multiline (histText m msg)) =
      wholeLines (liveTexts multiline m msg)) ↔
        (∀ l ∈ msg.lines, '\r' ∉ m.applied l.2) ∧ ∀ g ∈ msg.glued, Seamless m g := by
    rw [hshape.glued_eq, hshape.lines, ← replayMultiline_iff hshape.short hshape.lf, hshape.stored]
    simp only [replayTexts_eq hshape.bare, hshape.live]
  rw [ReplaysAsLive]
  simp only [hshape.replayed]
  cases h with
  | @batch ml hok hacc hlf htarget =>
    -- there is room for a batch, and it has marks
    have ht : e.target.length < 72 := htarget ▸ hok.target
    simp only [hshape.live_batch rfl _ ht, LeavesRoom, and_true]
    rw [← hwhole, and_iff_left (by simp)]
    exact ⟨fun hall multiline => hall ⟨multiline, false, false⟩, fun hall c => hall c.multiline⟩
  | @line text hlf =>
    have hstored : histText m (.line (mlText maxLen text)) = m.applied (mlText maxLen text) := by
      obtain ⟨heq, rfl⟩ := List.cons.inj hshape.lines
      rw [hshape.stored, histRest_nil, List.append_nil, ← (Prod.mk.inj heq).2]
    rw [roomFor_line]
    constructor
    · rintro ⟨hall, hbare⟩
      have hone : ∀ multiline, replayTexts multiline (histText m (.line (mlText maxLen text))) =
          liveTexts multiline m (.line (mlText maxLen text)) := fun multiline => by
        rw [replayTexts, if_neg (Bool.eq_false_iff.mp (hbare _ rfl)), hstored, liveTexts]
      simp only [hone] at hall
      obtain ⟨hcr, hseam⟩ := hwhole.mp fun multiline => congrArg wholeLines (hone multiline)
      exact ⟨hcr, hseam, fun c => (hall c).symm⟩
    · rintro ⟨hcr, hseam, hroom⟩
      refine ⟨fun c => (hwhole.mpr ⟨hcr, hseam⟩ _).trans (hroom c).symm, fun _ _ => ?_⟩
      rw [hstored]
      refine any_isMark_eq_false_iff.mpr ⟨m.lf_notMem_applied ?_, hcr _ List.mem_cons_self⟩
      exact fun hmem => hlf (List.mem_of_mem_take (List.mem_of_mem_take hmem))

end Replay

/-! ## 8. Seams

When a seam shows, said of the fragments. For +S alone it is a colour that the fragment behind it
goes on with. -/

theorem seamless_singleton (m : TextModes) {t : Text} (ht : t.length < 420) : Seamless m [t] := by
  rw [Seamless, List.flatten_singleton, List.map_singleton, List.flatten_singleton,
    clip_of_fits ht, clip_of_fits ((m.applied_length_le t).trans_lt ht)]

theorem seamless_of_plain {m : TextModes} (hstrip : m.strip = false) (hcensor : m.censor = false)
    (frags : List Text) : Seamless m frags := by
  have hid : m.applied = id := by
    funext t
    rw [TextModes.applied, hstrip, hcensor]
    rfl
  rw [Seamless, hid, List.map_id]
  rfl

/-- Where `strip_formatting` stands behind a text. -/
def stripEnd (st : StripState) (s : Text) : StripState :=
  s.foldl (fun st c => (stripChar st c).1) st

/-- The colour that is open goes on with the text. -/
def Continues (st : StripState) (s : Text) : Prop := ∃ c ∈ s.head?, stripChar st c ≠ stripText c

/-- No colour goes on behind a seam. -/
def ClosedSeams : StripState → List Text → Prop
  | _, [] => True
  | st, f :: frags => ¬ Continues st f ∧ ClosedSeams (stripEnd st f) frags

theorem stripFrom_append (st : StripState) (a b : Text) :
    stripFrom st (a ++ b) = stripFrom st a ++ stripFrom (stripEnd st a) b := by
  induction a generalizing st with
  | nil => rfl
  | cons c a ih =>
    rw [List.cons_append, stripFrom, stripFrom, ih]
    split <;> rfl

/-- A character that an open colour takes is one of the text otherwise. -/
theorem stripChar_cases (st : StripState) (c : Char) :
    stripChar st c = stripText c ∨ (stripChar st c).2 = false ∧ stripText c = (.text, true) := by
  have hplain : ∀ c : Char, (c.isDigit ∨ c = ',') → stripText c = (.text, true) := by
    intro c hc
    have hform : isFormatting c = false ∧ c ≠ '\x03' := by
      rcases hc with hc | rfl
      · refine ⟨Bool.eq_false_iff.mpr fun hmem => ?_, fun h => ?_⟩
        · simp only [isFormatting, List.mem_cons, List.not_mem_nil, or_false,
            decide_eq_true_eq] at hmem
          rcases hmem with rfl | rfl | rfl | rfl | rfl | rfl | rfl <;> exact absurd hc (by decide)
        · exact absurd (h ▸ hc) (by decide)
      · decide
    rw [stripText, if_neg (Bool.eq_false_iff.mp hform.1), if_neg hform.2]
  cases st with
  | text => exact Or.inl rfl
  | fore n =>
    rw [stripChar]
    split
    next h => exact Or.inr ⟨rfl, hplain c (Or.inl h.2)⟩
    next =>
      split
      next h => exact Or.inr ⟨rfl, hplain c (Or.inr h)⟩
      next => exact Or.inl rfl
  | back n =>
    rw [stripChar]
    split
    next h => exact Or.inr ⟨rfl, hplain c (Or.inl h.2)⟩
    next => exact Or.inl rfl

theorem stripFrom_length_le (st : StripState) (s : Text) :
    (stripFrom st s).length ≤ (stripFrom .text s).length := by
  induction s generalizing st with
  | nil => exact le_rfl
  | cons c s ih =>
    have htext : stripChar .text c = stripText c := rfl
    rcases stripChar_cases st c with heq | ⟨hdrop, hkeep⟩
    · rw [stripFrom, stripFrom, heq, htext]
    · rw [stripFrom, hdrop, if_neg (by decide), stripFrom, htext, hkeep, if_pos rfl,
        List.length_cons]
      exact (ih _).trans (Nat.le_succ _)

/-- An open colour takes something from what is behind exactly if it goes on with it. -/
theorem stripFrom_lt_iff (st : StripState) (s : Text) :
    ((stripFrom st s).length < (stripFrom .text s).length ↔ Continues st s) ∧
      (¬ Continues st s → stripFrom st s = stripFrom .text s) := by
  cases s with
  | nil => exact ⟨iff_of_false (lt_irrefl _) fun ⟨c, hc, _⟩ => by simp at hc, fun _ => rfl⟩
  | cons c s =>
    have htext : stripChar .text c = stripText c := rfl
    have hcont : Continues st (c :: s) ↔ stripChar st c ≠ stripText c := by simp [Continues]
    rw [hcont]
    rcases stripChar_cases st c with heq | ⟨hdrop, hkeep⟩
    · have hsame : stripFrom st (c :: s) = stripFrom .text (c :: s) := by
        rw [stripFrom, stripFrom, heq, htext]
      exact ⟨iff_of_false (by rw [hsame]; exact lt_irrefl _) (not_not.mpr heq), fun _ => hsame⟩
    · have hne : stripChar st c ≠ stripText c := by
        intro heq
        rw [heq, hkeep] at hdrop
        exact absurd hdrop (by decide)
      refine ⟨iff_of_true ?_ hne, fun h => absurd hne h⟩
      rw [stripFrom, hdrop, if_neg (by decide), stripFrom, htext, hkeep, if_pos rfl,
        List.length_cons]
      exact Nat.lt_succ_of_le (stripFrom_length_le _ s)

/-- **Stripping the glued line** strips its fragments exactly if no colour goes on behind a seam. -/
theorem stripFrom_flatten_iff (st : StripState) (frags : List Text) :
    stripFrom st frags.flatten = (frags.map (stripFrom .text)).flatten ↔ ClosedSeams st frags := by
  have hle : ∀ (st : StripState) (frags : List Text),
      (stripFrom st frags.flatten).length ≤ (frags.map (stripFrom .text)).flatten.length := by
    intro st frags
    induction frags generalizing st with
    | nil => exact le_rfl
    | cons f frags ih =>
      rw [List.flatten_cons, stripFrom_append, List.map_cons, List.flatten_cons, List.length_append,
        List.length_append]
      exact Nat.add_le_add (stripFrom_length_le st f) (ih _)
  induction frags generalizing st with
  | nil => exact iff_of_true rfl trivial
  | cons f frags ih =>
    rw [List.flatten_cons, stripFrom_append, List.map_cons, List.flatten_cons, ClosedSeams]
    obtain ⟨hlt, hsame⟩ := stripFrom_lt_iff st f
    constructor
    · intro heq
      have hcont : ¬ Continues st f := by
        intro hcont
        have hless := hlt.mpr hcont
        have hrest := hle (stripEnd st f) frags
        have hlen := congrArg List.length heq
        rw [List.length_append, List.length_append] at hlen
        omega
      rw [hsame hcont] at heq
      exact ⟨hcont, (ih _).mp (List.append_cancel_left heq)⟩
    · rintro ⟨hcont, hrest⟩
      rw [hsame hcont, (ih _).mpr hrest]

/-- **Where only +S is set**, the seams of a line that fits do not show exactly if no colour goes on
behind one. -/
theorem seamless_strip_iff {m : TextModes} (hstrip : m.strip = true) (hcensor : m.censor = false)
    {frags : List Text} (hfits : frags.flatten.length < 420)
    (hbare : ∀ c ∈ frags.flatten, c ≠ '\r' ∧ c ≠ '\n') :
    Seamless m frags ↔ ClosedSeams .text frags := by
  have happlied : ∀ t : Text, t.length < 420 → m.applied t = stripFrom .text t := by
    intro t ht
    have hlen := (stripFrom_sublist .text t).length_le
    rw [TextModes.applied, hstrip, hcensor, if_pos rfl, if_neg (by decide), stripFormatting,
      clip_of_fits (by omega)]
  have hfrag : ∀ f ∈ frags, f.length < 420 := fun f hf =>
    (List.sublist_flatten_of_mem hf).length_le.trans_lt hfits
  have hmap : frags.map m.applied = frags.map (stripFrom .text) :=
    List.map_congr_left fun f hf => happlied f (hfrag f hf)
  have hshown : ∀ t : Text, t.Sublist frags.flatten → shownText t = t := by
    intro t ht
    have hfilter : (t.filter fun c => c ≠ '\r' ∧ c ≠ '\n') = t :=
      List.filter_eq_self.mpr fun c hc => decide_eq_true (hbare c (ht.subset hc))
    have hlen := ht.length_le
    rw [shownText, ircEscape, hfilter, List.take_of_length_le (by omega)]
  have hsub : ∀ frags : List Text,
      ((frags.map (stripFrom .text)).flatten).Sublist frags.flatten := by
    intro frags
    induction frags with
    | nil => exact List.Sublist.slnil
    | cons f frags ih => exact (stripFrom_sublist .text f).append ih
  have hglued := hsub frags
  rw [Seamless, hmap, clip_of_fits hfits, clip_of_fits (hglued.length_le.trans_lt hfits),
    happlied _ hfits, hshown _ (stripFrom_sublist .text _), hshown _ hglued, stripFrom_flatten_iff]

/-- Two lines, the second in two fragments. -/
def demoFragments : MlState := ⟨"1".toList, "#chat".toList, "PRIVMSG".toList,
  [(false, "one".toList), (false, "tw".toList), (true, "o".toList)]⟩

theorem demoFragments_ok : demoFragments.Ok 400 :=
  ⟨by decide, by decide, by decide, by decide, by decide, fun _ => ⟨false, rfl⟩⟩

/-- A sender of the channel, with these tags of its own. -/
def demoEnvelope (clientTags : List (Text × Text)) : Envelope where
  source := "alice!al@example.org".toList
  account := "alice".toList
  bot := false
  notice := false
  target := "#chat".toList
  msgid := fun _ => ⟨"0a-1".toList, by decide, by decide⟩
  clientTags := clientTags
  name := "#chat".toList
  time := ⟨"2024-01-01T00:00:00.000Z".toList, by decide, by decide⟩
  liveBatch := ⟨"ml1".toList, by decide, by decide⟩
  pageBatch := ⟨"ch1".toList, by decide, by decide⟩
  replayBatch := ⟨"hml1".toList, by decide, by decide⟩
  source_fits := by decide
  account_fits := by decide
  name_fits := by decide

/-- The batch, where +S is set, and a line with a tag of its sender. -/
theorem replay_iff_demo :
    ReplaysAsLive (demoEnvelope []) ⟨true, false, []⟩ (.batch demoFragments.lines) ∧
      ReplaysAsLive (demoEnvelope [("+draft/reply".toList, "0a-0".toList)]) ⟨true, false, []⟩
        (.line (mlText 400 "\x02hi".toList)) := by
  refine ⟨(replay_iff _ _ (.batch demoFragments_ok (by decide) (by decide) rfl)).mpr
    ⟨by decide, by decide, trivial⟩, (replay_iff _ _ (.line (by decide))).mpr
      ⟨by decide, by decide, fun c => ?_⟩⟩
  rcases c with ⟨_ | _, _ | _, _ | _⟩ <;> exact LineHead.holds_of_size (by decide)

/-- Three tags of a sender whose values are escaped: 400 bytes as they come, 784 as they go. -/
def demoTags : List (Text × Text) :=
  ["+a", "+b", "+c"].map fun key => (key.toList, List.replicate 128 ';')

/-- **A line with a CR in it** is replayed as a batch of two fragments; and a long line behind tags
that are escaped is cut when it is sent, to a client with message-tags, and replayed whole. -/
theorem carriage_return_replayed_as_batch :
    ((SentMessage.line (mlText 400 "a\rb".toList)).Accepted 400 "#chat".toList ∧
      ¬ ReplaysAsLive (demoEnvelope []) ⟨false, false, []⟩ (.line (mlText 400 "a\rb".toList))) ∧
    (SentMessage.line (mlText 400 (List.replicate 400 'a'))).Accepted 400 "#chat".toList ∧
      ¬ ReplaysAsLive (demoEnvelope demoTags) ⟨false, false, []⟩
        (.line (mlText 400 (List.replicate 400 'a'))) := by
  refine ⟨⟨.line (by decide), fun h => absurd (h.2 _ rfl) (by decide)⟩, .line ?_, fun h => ?_⟩
  · exact fun hmem => absurd (List.eq_of_mem_replicate hmem) (by decide)
  · have hall := h.1 ⟨false, false, true⟩
    revert hall
    decide +kernel

end SekurIRCd
