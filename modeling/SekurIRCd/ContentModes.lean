/-
# Modes about what is said

+c and +C refuse a message, +S and +G change it; +T of a user refuses one too.  The checks look at
one text, of a batch its lines joined and cut, and then its fragments and glued lines are shown,
live and replayed.  `content_modes_iff` says exactly when no line is what the modes are there to
keep out.

A piece that +G sees as it is shown has no censored word left (`hasWord_shown`), and one that +S
sees has no formatting (`hasFormatting_applied`).  Some are not seen so: those of a batch for
`@#channel` or the like, for which `deliver_ml` finds no channel; those with a CR, which is dropped
only when the line is built; and what a replay glues from fragments that were starred one by one.

Nor does every server that shows a message check it.  A message for a user of another server is
checked there, and the sender's server has stored it by then, to be replayed to that user's account.
-/
import SekurIRCd.HistoryReplay
import SekurIRCd.Mask
import SekurIRCd.Net.MultilinePath

namespace SekurIRCd

open CLib

/-! ## 1. What is looked for -/

/-- `has_formatting`. -/
def hasFormatting (text : Text) : Bool := text.any fun c => isFormatting c || c == '\x03'

/-- `is_blocked_ctcp`. -/
def isBlockedCtcp : Text → Bool
  | [] => false
  | c :: s => c == '\x01' && !"ACTION".toList.isPrefixOf s

/-- Whether `find_nocase` finds something. -/
def findNocase (needle : Text) : Text → Bool
  | [] => false
  | c :: s => casePrefix needle (c :: s) || findNocase needle s

/-- A censored word. -/
def hasWord (words : List Text) (text : Text) : Bool :=
  words.any fun w => w ≠ [] && findNocase w text

/-! ## 2. What is shown

A message is shown by the server of its sender and by others.  Each has a copy of it, with the modes
that the text still meets there, and shows the copy live, or replays it, or both. -/

/-- A server that shows a message: what stands around the lines there, its `max_message_length`,
and whether it keeps a history of what is said to the target. -/
structure Showing where
  envelope : Envelope
  maxLen : Nat
  kept : Bool

/-- The sender: the server it is on, and its uid. -/
structure Sayer where
  here : Showing
  uid : ServerId 16

/-- Where a message goes, and the modes that it meets there.  A channel may be named as `@#channel`
or the like, and is not direct then; `others` are the other servers that have it.  A user may be
away, on another server, and has +T for `noCtcp`. -/
inductive ContentModes
  | channel (direct noColor noCtcp : Bool) (text : TextModes) (others : List Showing)
  | user (noCtcp : Bool) (away : Option (ServerId 16 × Showing))

/-- A message as a server has it that shows it: with the modes that its lines meet there, and
whether they are shown live and stored. -/
structure MessageCopy where
  envelope : Envelope
  live : Bool
  stored : Bool
  modes : TextModes
  msg : SentMessage

namespace ContentModes

variable (d : ContentModes) (s : Sayer)

def noColor : ContentModes → Bool
  | channel _ noColor _ _ _ => noColor
  | user _ _ => false

def noCtcp : ContentModes → Bool
  | channel _ _ noCtcp _ _ => noCtcp
  | user noCtcp _ => noCtcp

def text : ContentModes → TextModes
  | channel _ _ _ text _ => text
  | user _ _ => .off

/-- `deliver_ml` and `ml_hist_text` look for a channel of the target as it is named. -/
def direct : ContentModes → Bool
  | channel direct _ _ _ _ => direct
  | user _ _ => true

/-- +c, +C and +T, of the text that is checked. -/
def refuses (text : Text) : Bool := d.noCtcp && isBlockedCtcp text || d.noColor && hasFormatting text

/-- The text of a message: of a batch `joined`, as it is taken. -/
def textbuf (maxLen : Nat) : SentMessage → Text
  | .line text => text
  | .batch ls => mlText maxLen (mlJoined ls)

/-- The modes that the lines are shown with. -/
def lineModes : SentMessage → TextModes
  | .line _ => d.text
  | .batch _ => if d.direct then d.text else { d.text with strip := false, censor := false }

/-- What the target is called between servers. -/
def wire : Text :=
  match d with
  | user _ (some (uid, _)) => uid.text
  | _ => s.here.envelope.target

/-- The text as it comes to another server, if it does. -/
def wireText (msg : SentMessage) : Option Text :=
  let own := match msg with
    | .line _ => s.here.envelope.clientTags
    | .batch _ => []
  (s.here.envelope.messageHead s.uid (d.wire s) own).sent
    (d.text.applied (textbuf s.here.maxLen msg))

/-- The message there: the text, or the lines that came before it. -/
def received (maxLen : Nat) (text : Text) : SentMessage → SentMessage
  | .line _ => .line text
  | .batch ls => .batch (ls.map fun l => (l.1, mlText maxLen (mlSent l).2))

/-- The modes that it meets there: a line by itself has met them. -/
def receivedModes (msg : SentMessage) : TextModes :=
  match msg with
  | .line _ => .off
  | .batch _ => d.lineModes msg

/-- **The copies of a message.**  `send_msg` refuses one here, but not one for a user who is away: it
is passed on and stored, and checked by the user's server. -/
def copies (msg : SentMessage) : List MessageCopy :=
  match d with
  | channel direct _ _ _ others =>
    if d.refuses (textbuf s.here.maxLen msg) then []
    else
      ⟨s.here.envelope, true, direct && s.here.kept, d.lineModes msg, msg⟩ ::
        (d.wireText s msg).toList.flatMap fun t => others.map fun o =>
          ⟨{ o.envelope with target := s.here.envelope.target }, true, direct && o.kept,
            d.receivedModes msg, received o.maxLen t msg⟩
  | user _ none =>
    if d.refuses (textbuf s.here.maxLen msg) then []
    else [⟨s.here.envelope, true, s.here.kept, .off, msg⟩]
  | user _ (some (_, there)) =>
    ⟨s.here.envelope, false, s.here.kept, .off, msg⟩ ::
      (d.wireText s msg).toList.flatMap fun t =>
        if d.refuses t then []
        else [⟨{ there.envelope with target := there.envelope.name }, true, there.kept, .off,
          received there.maxLen t msg⟩]

end ContentModes

/-- The sets of capabilities. -/
def ClientCaps.all : List ClientCaps :=
  [false, true].flatMap fun multiline => [false, true].flatMap fun accountTag =>
    [false, true].map fun messageTags => ⟨multiline, accountTag, messageTags⟩

theorem ClientCaps.mem_all (c : ClientCaps) : c ∈ ClientCaps.all := by
  rcases c with ⟨_ | _, _ | _, _ | _⟩ <;> decide

namespace MessageCopy

variable (k : MessageCopy)

/-- The lines that clients are sent of it. -/
def liveShown : List Text :=
  ClientCaps.all.flatMap fun c => (liveLines c k.envelope k.modes k.msg).map Prod.snd

/-- And when it is replayed. -/
def replayShown : List Text :=
  ClientCaps.all.flatMap fun c =>
    (replayLines c k.envelope (histText k.modes k.msg)).map Prod.snd

def shown : List Text :=
  (if k.live then k.liveShown else []) ++ if k.stored then k.replayShown else []

end MessageCopy

/-- The lines that are shown of a message. -/
def ContentModes.shown (d : ContentModes) (s : Sayer) (msg : SentMessage) : List Text :=
  (d.copies s msg).flatMap MessageCopy.shown

/-! ## 3. What is to be

What the modes are there for is a condition on each line that is shown; what they cover is a
condition on the message. The theorem is that the two are the same. -/

/-- A line that the modes allow: none of what `+c`, `+C` or `+T` refuse and `+S` or `+G` take out
is in it. This is the purpose of the modes, said of the line that is shown. -/
structure ContentModes.Allows (d : ContentModes) (line : Text) : Prop where
  color : d.noColor = true ∨ d.text.strip = true → hasFormatting line = false
  ctcp : d.noCtcp = true → isBlockedCtcp line = false
  words : d.text.censor = true → hasWord d.text.words line = false

/-- The fragments of a message, and its lines, glued and cut. -/
def SentMessage.pieces (msg : SentMessage) : List Text :=
  msg.lines.map Prod.snd ++ msg.glued.map fun g => clip 420 g.flatten

theorem mem_pieces_of_line {msg : SentMessage} {l : MlLine} (hl : l ∈ msg.lines) :
    l.2 ∈ msg.pieces := List.mem_append_left _ (List.mem_map_of_mem hl)

/-- +G sees a piece as it is shown, and has no words that its own stars could make. -/
def TextModes.Sees (m : TextModes) (p : Text) : Prop :=
  m.censor = true ∧ '\r' ∉ p ∧ ∀ w ∈ m.words, '*' ∉ w

instance (m : TextModes) (p : Text) : Decidable (m.Sees p) := inferInstanceAs (Decidable (_ ∧ _))

/-- What a line has of a piece, as the modes leave it: for a line by itself what there is room for
behind the tags of a client, in a batch all of it. -/
def MessageCopy.inLine (k : MessageCopy) (p : Text) : List Text :=
  match k.msg with
  | .line _ => ClientCaps.all.filterMap fun c => (k.envelope.lineHead c).sent (k.modes.applied p)
  | .batch _ => [shownText (k.modes.applied p)]

namespace ContentModes

/-- **The modes cover what is sent of a copy.**  Of its pieces, as +S and +G leave them and without
the CRs, none has formatting that +S was not there to strip, or is a CTCP, or has a word that +G did
not see. -/
structure CoversLive (d : ContentModes) (k : MessageCopy) : Prop where
  color : d.noColor = true ∨ d.text.strip = true → k.modes.strip = false →
    ∀ p ∈ k.msg.pieces, ∀ t ∈ k.inLine p, hasFormatting t = false
  ctcp : d.noCtcp = true → ∀ p ∈ k.msg.pieces, ∀ t ∈ k.inLine p, isBlockedCtcp t = false
  words : d.text.censor = true → ∀ p ∈ k.msg.pieces, ¬ k.modes.Sees p →
    ∀ t ∈ k.inLine p, hasWord d.text.words t = false

/-- **And what is replayed of it.**  A fragment that a CR is in is taken apart, and those of a line
are glued as they were left. -/
structure CoversReplay (d : ContentModes) (k : MessageCopy) : Prop where
  color : d.noColor = true ∨ d.text.strip = true → k.modes.strip = false →
    ∀ l ∈ k.msg.lines, hasFormatting (k.modes.applied l.2) = false
  ctcp : d.noCtcp = true → ∀ l ∈ k.msg.lines, ∀ q ∈ splitSep '\r' (k.modes.applied l.2),
    isBlockedCtcp q = false
  words : d.text.censor = true → ∀ l ∈ k.msg.lines, ¬ k.modes.Sees l.2 →
    ∀ q ∈ splitSep '\r' (k.modes.applied l.2), hasWord d.text.words q = false
  seams : d.text.censor = true → ∀ g ∈ k.msg.glued, (g.length = 1 → ∃ f ∈ g, ¬ k.modes.Sees f) →
    hasWord d.text.words (clip 420 ((g.map k.modes.applied).flatten.filter (· ≠ '\r'))) = false

/-- **The modes cover a copy**, as far as it is shown: live to those who are there, and in a replay
to those who ask later. The two glue the fragments at different times. -/
structure Covers (d : ContentModes) (k : MessageCopy) : Prop where
  live : k.live = true → d.CoversLive k
  replay : k.stored = true → d.CoversReplay k

instance (d : ContentModes) (k : MessageCopy) : Decidable (d.CoversLive k) :=
  decidable_of_iff (_ ∧ _ ∧ _)
    ⟨fun ⟨color, ctcp, words⟩ => ⟨color, ctcp, words⟩, fun h => ⟨h.color, h.ctcp, h.words⟩⟩

instance (d : ContentModes) (k : MessageCopy) : Decidable (d.CoversReplay k) :=
  decidable_of_iff (_ ∧ _ ∧ _ ∧ _)
    ⟨fun ⟨color, ctcp, words, seams⟩ => ⟨color, ctcp, words, seams⟩,
      fun h => ⟨h.color, h.ctcp, h.words, h.seams⟩⟩

instance (d : ContentModes) (k : MessageCopy) : Decidable (d.Covers k) :=
  decidable_of_iff (_ ∧ _) ⟨fun ⟨live, replay⟩ => ⟨live, replay⟩, fun h => ⟨h.live, h.replay⟩⟩

end ContentModes

/-! ## 4. Formatting -/

theorem hasFormatting_eq_false_iff {t : Text} : hasFormatting t = false ↔
    ∀ c ∈ t, isFormatting c = false ∧ c ≠ '\x03' := by
  simp only [hasFormatting, List.any_eq_false, Bool.or_eq_true, not_or, Bool.not_eq_true,
    beq_iff_eq, ne_eq]

/-- A text of such characters and stars has none either. -/
theorem hasFormatting_of_mem {s t : Text} (h : ∀ c ∈ t, c = '*' ∨ c ∈ s)
    (hs : hasFormatting s = false) : hasFormatting t = false := by
  rw [hasFormatting_eq_false_iff] at hs ⊢
  intro c hc
  rcases h c hc with rfl | hc
  · decide
  · exact hs c hc

theorem stripChar_keep {st : StripState} {c : Char} (h : (stripChar st c).2 = true) :
    isFormatting c = false ∧ c ≠ '\x03' := by
  have hplain : (stripText c).2 = true → isFormatting c = false ∧ c ≠ '\x03' := by
    intro htext
    rw [stripText] at htext
    split_ifs at htext with hform hcolour
    exact ⟨Bool.eq_false_iff.mpr hform, hcolour⟩
  rcases stripChar_cases st c with heq | ⟨hdrop, -⟩
  · exact hplain (heq ▸ h)
  · rw [hdrop] at h
    exact absurd h (by simp)

/-- **+S leaves no formatting.** -/
theorem hasFormatting_stripFrom (st : StripState) (s : Text) :
    hasFormatting (stripFrom st s) = false := by
  rw [hasFormatting_eq_false_iff]
  induction s generalizing st with
  | nil => exact fun c hc => absurd hc List.not_mem_nil
  | cons c s ih =>
    rw [stripFrom]
    split
    · next hkeep => exact List.forall_mem_cons.mpr ⟨stripChar_keep hkeep, ih _⟩
    · exact ih _

theorem hasFormatting_applied {m : TextModes} (h : m.strip = true) (t : Text) :
    hasFormatting (m.applied t) = false := by
  have hstrip : hasFormatting (stripFormatting 420 t) = false :=
    hasFormatting_of_mem (fun c hc => Or.inr (List.mem_of_mem_take hc))
      (hasFormatting_stripFrom .text t)
  rw [TextModes.applied, if_pos h]
  split
  · exact hasFormatting_of_mem (starred_censorText _ _).mem hstrip
  · exact hstrip

theorem mem_shownText {t : Text} {c : Char} (h : c ∈ shownText t) : c ∈ t :=
  List.mem_of_mem_filter (List.mem_of_mem_take h)

/-! ## 5. CTCPs -/

theorem isBlockedCtcp_append {a : Text} (ha : a ≠ []) (h : isBlockedCtcp a = false) (b : Text) :
    isBlockedCtcp (a ++ b) = false := by
  cases a with
  | nil => exact absurd rfl ha
  | cons c s =>
    rw [isBlockedCtcp] at h
    rw [List.cons_append, isBlockedCtcp]
    rcases Bool.and_eq_false_iff.mp h with hc | hs
    · rw [hc, Bool.false_and]
    · rw [Bool.not_eq_false', List.isPrefixOf_iff_prefix] at hs
      have hpre : "ACTION".toList.isPrefixOf (s ++ b) = true :=
        List.isPrefixOf_iff_prefix.mpr (hs.trans (List.prefix_append s b))
      rw [hpre, Bool.not_true, Bool.and_false]

/-- **What is glued** is as its first fragment that is not empty. -/
theorem isBlockedCtcp_flatten {ts : List Text} (h : ∀ t ∈ ts, isBlockedCtcp t = false) :
    isBlockedCtcp ts.flatten = false := by
  induction ts with
  | nil => rfl
  | cons t ts ih =>
    obtain ⟨ht, hts⟩ := List.forall_mem_cons.mp h
    rw [List.flatten_cons]
    by_cases hnil : t = []
    · rw [hnil, List.nil_append]
      exact ih hts
    · exact isBlockedCtcp_append hnil ht _

/-- A cut does not make one, if it leaves room for the word. -/
theorem isBlockedCtcp_take {t : Text} {n : Nat} (hn : 7 ≤ n) (h : isBlockedCtcp t = false) :
    isBlockedCtcp (t.take n) = false := by
  obtain ⟨k, rfl⟩ := Nat.exists_eq_add_of_le' (Nat.le_trans (by decide : 1 ≤ 7) hn)
  cases t with
  | nil => rfl
  | cons c s =>
    rw [isBlockedCtcp] at h
    rw [List.take_succ_cons, isBlockedCtcp]
    rcases Bool.and_eq_false_iff.mp h with hc | hs
    · rw [hc, Bool.false_and]
    · rw [Bool.not_eq_false', List.isPrefixOf_iff_prefix] at hs
      have hlen : "ACTION".toList.length ≤ k := Nat.le_of_succ_le_succ hn
      have hpre : "ACTION".toList.isPrefixOf (s.take k) = true :=
        List.isPrefixOf_iff_prefix.mpr (List.prefix_take_iff.mpr ⟨hs, hlen⟩)
      rw [hpre, Bool.not_true, Bool.and_false]

/-! ## 6. Words

A star is not a letter of a word, so a word that was starred cannot come up again unless other
letters come together. -/

section Word

variable {w : Text} (hne : w ≠ []) (hstar : '*' ∉ w)

include hstar

theorem star_notMem_of_caseEq {o : Text} (h : caseEq w o = true) : '*' ∉ o := by
  intro hmem
  have halpha : ('*' : Char).isAlpha = false := by decide
  have hlow := (mem_lower halpha).mpr hmem
  rw [← caseEq_iff.mp h, mem_lower halpha] at hlow
  exact hstar hlow

theorem casePrefix_of_starred {s t : Text} (h : Starred s t) (hpre : casePrefix w t = true) :
    casePrefix w s = true := by
  have heq : ∀ {a b : Text}, Starred a b → '*' ∉ b → a = b := by
    intro a b hab hno
    induction hab with
    | nil => rfl
    | cons hxy _ ih =>
      obtain ⟨hy, hrest⟩ := not_or.mp (mt List.mem_cons.mpr hno)
      rw [ih hrest, hxy.resolve_right (Ne.symm hy)]
  rw [casePrefix] at hpre ⊢
  rwa [heq (List.forall₂_take w.length h) (star_notMem_of_caseEq hstar hpre)]

theorem findNocase_of_starred {s t : Text} (h : Starred s t) (hfind : findNocase w t = true) :
    findNocase w s = true := by
  induction h with
  | nil => exact hfind
  | @cons x y s t hxy hrest ih =>
    rw [findNocase, Bool.or_eq_true] at hfind ⊢
    exact hfind.imp (casePrefix_of_starred hstar (.cons hxy hrest)) ih

include hne

theorem casePrefix_star (s : Text) : casePrefix w ('*' :: s) = false := by
  rw [Bool.eq_false_iff]
  intro hpre
  cases w with
  | nil => exact hne rfl
  | cons c w =>
    rw [casePrefix, List.length_cons, List.take_succ_cons] at hpre
    exact star_notMem_of_caseEq hstar hpre List.mem_cons_self

/-- **A word that was starred** is not there any more. -/
theorem findNocase_censorFrom (k : Nat) (s : Text) : findNocase w (censorFrom w k s) = false := by
  induction s generalizing k with
  | nil =>
    rw [censorFrom]
    rfl
  | cons c s ih =>
    cases k with
    | zero =>
      rw [censorFrom]
      split
      · rw [findNocase, casePrefix_star hne hstar, ih, Bool.or_false]
      · next hno =>
        rw [findNocase, ih, Bool.or_false, Bool.eq_false_iff]
        exact fun hpre => hno (casePrefix_of_starred hstar
          (.cons (Or.inl rfl) (starred_censorFrom w 0 s)) hpre)
    | succ k => rw [censorFrom, findNocase, casePrefix_star hne hstar, ih, Bool.or_false]

end Word

/-- **+G leaves no word**, if none has a star. -/
theorem hasWord_censorText {words : List Text} (hstar : ∀ w ∈ words, '*' ∉ w) (s : Text) :
    hasWord words (censorText words s) = false := by
  have hall : ∀ (ws : List Text) (s : Text), (∀ w ∈ ws, '*' ∉ w) →
      ∀ w ∈ ws, w ≠ [] → findNocase w (censorText ws s) = false := by
    intro ws
    induction ws with
    | nil => exact fun s _ w hw => absurd hw List.not_mem_nil
    | cons v ws ih =>
      intro s hno w hw hne
      obtain ⟨hv, hws⟩ := List.forall_mem_cons.mp hno
      have hcons : censorText (v :: ws) s =
          censorText ws (if v = [] then s else censorFrom v 0 s) := rfl
      rw [hcons]
      rcases List.mem_cons.mp hw with rfl | hw
      · rw [if_neg hne, Bool.eq_false_iff]
        intro hfind
        have hback := findNocase_of_starred hv (starred_censorText ws _) hfind
        rw [findNocase_censorFrom hne hv] at hback
        exact absurd hback (by simp)
      · exact ih _ hws w hw hne
  rw [hasWord, List.any_eq_false]
  intro w hw
  rw [Bool.and_eq_true, decide_eq_true_eq, not_and, Bool.not_eq_true]
  exact hall words s hstar w hw

/-- What is in a part of a text is in the text. -/
theorem hasWord_infix {words : List Text} {s t : Text} (h : s <:+: t)
    (ht : hasWord words t = false) : hasWord words s = false := by
  obtain ⟨a, b, rfl⟩ := h
  have hbehind : ∀ {w s : Text}, findNocase w s = true → findNocase w (s ++ b) = true := by
    intro w s hfind
    induction s with
    | nil => exact absurd hfind (by simp [findNocase])
    | cons c s ih =>
      rw [findNocase, Bool.or_eq_true] at hfind
      rw [List.cons_append, findNocase, Bool.or_eq_true]
      refine hfind.imp (fun hpre => ?_) ih
      have hlen := casePrefix_length hpre
      rw [casePrefix] at hpre ⊢
      rwa [← List.cons_append, List.take_append_of_le_length hlen]
  have hfront : ∀ {w : Text} (a s : Text), findNocase w s = true →
      findNocase w (a ++ s) = true := by
    intro w a s hfind
    induction a with
    | nil => exact hfind
    | cons c a ih =>
      rw [List.cons_append, findNocase, ih, Bool.or_true]
  rw [hasWord, List.any_eq_false] at ht ⊢
  intro w hw hfind
  rw [Bool.and_eq_true] at hfind
  refine ht w hw (Bool.and_eq_true_iff.mpr ⟨hfind.1, ?_⟩)
  rw [List.append_assoc]
  exact hfront a _ (hbehind hfind.2)

theorem hasWord_shown {m : TextModes} {p : Text} (h : m.Sees p) (hp : p.length < 420)
    (hlf : '\n' ∉ p) : hasWord m.words (shownText (m.applied p)) = false := by
  obtain ⟨hcensor, hcr, hstar⟩ := h
  have hmem : ∀ {c : Char}, c ≠ '*' → c ∉ p → c ∉ m.applied p := fun hne hno hin =>
    (m.mem_applied hin).elim hne hno
  have hlen := (m.applied_length_le p).trans_lt hp
  rw [shownText_eq hlen (hmem (by decide) hcr) (hmem (by decide) hlf), TextModes.applied,
    if_pos hcensor]
  exact hasWord_censorText hstar _

/-! ## 7. The lines -/

section Lines

variable {k : MessageCopy} {maxLen : Nat} (h : k.msg.Accepted maxLen k.envelope.target)

include h

theorem mem_pieces {p : Text} (hp : p ∈ k.msg.pieces) : p.length < 420 ∧ '\n' ∉ p := by
  obtain ⟨t, ls, hshape⟩ := h.shape k.modes
  rw [SentMessage.pieces, hshape.lines, hshape.glued_eq] at hp
  rcases List.mem_append.mp hp with hp | hp
  · obtain ⟨l, hl, rfl⟩ := List.mem_map.mp hp
    exact ⟨hshape.short l hl, hshape.lf l hl⟩
  · obtain ⟨g, hg, rfl⟩ := List.mem_map.mp hp
    refine ⟨Nat.lt_of_le_of_lt (clip_length_le 420 _) (by decide), fun hin => ?_⟩
    obtain ⟨f, hf, hin⟩ := List.mem_flatten.mp (mem_of_mem_clip hin)
    obtain ⟨l, hl, rfl⟩ := mem_lines_of_lineFrags hg hf
    exact hshape.lf l hl hin

theorem mem_lines_of_glued {g : List Text} (hg : g ∈ k.msg.glued) {f : Text} (hf : f ∈ g) :
    ∃ l ∈ k.msg.lines, l.2 = f := by
  obtain ⟨t, ls, hshape⟩ := h.shape k.modes
  rw [hshape.glued_eq] at hg
  rw [hshape.lines]
  exact mem_lines_of_lineFrags hg hf

/-- **The lines that are sent** are the pieces. -/
theorem mem_liveShown {x : Text} : x ∈ k.liveShown ↔ ∃ p ∈ k.msg.pieces, x ∈ k.inLine p := by
  obtain ⟨t, ls, hshape⟩ := h.shape k.modes
  rw [MessageCopy.liveShown, List.mem_flatMap]
  cases hmsg : k.msg with
  | line text =>
    have hshort : text.length < 420 := by
      have hp : text ∈ k.msg.pieces := by
        rw [hmsg]
        exact List.mem_append_left _ List.mem_cons_self
      exact (mem_pieces h hp).1
    have hpieces : (SentMessage.line text).pieces = [text, text] := by
      have hglued : (SentMessage.line text).pieces = [text, clip 420 text] :=
        congrArg (fun t => [text, clip 420 t]) List.flatten_singleton
      rw [hglued, clip_of_fits hshort]
    simp only [hpieces, MessageCopy.inLine, hmsg, liveLines_line, List.mem_map, Option.mem_toList,
      Option.map_eq_some_iff, List.mem_filterMap, List.mem_cons, List.not_mem_nil, or_false,
      or_self, exists_eq_left]
    constructor
    · rintro ⟨c, hc, l, ⟨t, ht, rfl⟩, rfl⟩
      exact ⟨c, hc, ht⟩
    · rintro ⟨c, hc, ht⟩
      exact ⟨c, hc, (false, x), ⟨x, ht, rfl⟩, rfl⟩
  | batch sent =>
    have htarget : k.envelope.target.length < 72 := (hmsg ▸ h).target_lt
    rw [hmsg] at hshape
    have hlines : ∀ c : ClientCaps, x ∈ (liveLines c k.envelope k.modes (.batch sent)).map Prod.snd ↔
        x ∈ if c.multiline then
          (SentMessage.batch sent).lines.map fun l => shownText (k.modes.applied l.2)
        else (SentMessage.batch sent).glued.map fun g =>
          shownText (k.modes.applied (clip 420 g.flatten)) := by
      intro c
      rw [hshape.live_batch rfl c htarget]
      cases c.multiline with
      | true => rw [hshape.live_texts, if_pos rfl]
      | false => rw [hshape.live_glued, if_neg (by decide)]
    simp only [hlines, SentMessage.pieces, MessageCopy.inLine, hmsg, List.mem_append,
      List.mem_singleton, or_and_right, exists_or, List.mem_map, exists_exists_and_eq_and]
    constructor
    · rintro ⟨c, -, hx⟩
      split at hx
      · obtain ⟨l, hl, rfl⟩ := List.mem_map.mp hx
        exact Or.inl ⟨l, hl, rfl⟩
      · obtain ⟨g, hg, rfl⟩ := List.mem_map.mp hx
        exact Or.inr ⟨g, hg, rfl⟩
    · rintro (⟨l, hl, rfl⟩ | ⟨g, hg, rfl⟩)
      · exact ⟨⟨true, false, false⟩, ClientCaps.mem_all _, List.mem_map_of_mem hl⟩
      · exact ⟨⟨false, false, false⟩, ClientCaps.mem_all _, List.mem_map_of_mem hg⟩

/-- **The lines that are replayed** are the fragments, taken apart or glued. -/
theorem mem_replayShown {x : Text} : x ∈ k.replayShown ↔
    (∃ l ∈ k.msg.lines, x ∈ splitSep '\r' (k.modes.applied l.2)) ∨
      ∃ g ∈ k.msg.glued, x = clip 420 ((g.map k.modes.applied).flatten.filter (· ≠ '\r')) := by
  obtain ⟨t, ls, hshape⟩ := h.shape k.modes
  simp only [MessageCopy.replayShown, List.mem_flatMap, hshape.replayed]
  constructor
  · rintro ⟨c, -, hx⟩
    cases hc : c.multiline with
    | true =>
      rw [hc, hshape.replay_texts] at hx
      exact Or.inl (List.mem_flatMap.mp hx)
    | false =>
      rw [hc, hshape.replay_glued] at hx
      obtain ⟨g, hg, rfl⟩ := List.mem_map.mp hx
      exact Or.inr ⟨g, hg, rfl⟩
  · rintro (hx | ⟨g, hg, rfl⟩)
    · refine ⟨⟨true, false, false⟩, ClientCaps.mem_all _, ?_⟩
      rw [hshape.replay_texts]
      exact List.mem_flatMap.mpr hx
    · refine ⟨⟨false, false, false⟩, ClientCaps.mem_all _, ?_⟩
      rw [hshape.replay_glued]
      exact List.mem_map_of_mem hg

end Lines

/-! ## 8. What is covered

A copy is shown as the modes want it exactly if they cover it: what +S and +G see of it needs no
condition, as nothing is left there. -/

namespace ContentModes

variable {d : ContentModes} {k : MessageCopy} {maxLen : Nat}

/-- What a line has of a piece is a front of it. -/
theorem prefix_of_mem_inLine {p t : Text} (ht : t ∈ k.inLine p) :
    t <+: shownText (k.modes.applied p) := by
  rw [MessageCopy.inLine] at ht
  split at ht
  · obtain ⟨c, -, hsent⟩ := List.mem_filterMap.mp ht
    rw [LineHead.sent] at hsent
    split at hsent
    · rw [← Option.some.inj hsent]
      exact List.take_prefix ..
    · exact absurd hsent (by simp)
  · rw [List.mem_singleton.mp ht]

section Shown

variable (h : k.msg.Accepted maxLen k.envelope.target)
  (hwords : k.modes.censor = true → k.modes.words = d.text.words)

include h hwords

/-- A piece that +G sees has no word where it is shown. -/
theorem hasWord_of_sees {p : Text} (hp : p ∈ k.msg.pieces) (hsees : k.modes.Sees p) :
    hasWord d.text.words (shownText (k.modes.applied p)) = false := by
  obtain ⟨hshort, hlf⟩ := mem_pieces h hp
  rw [← hwords hsees.1]
  exact hasWord_shown hsees hshort hlf

/-- **What is sent** is as the modes want it exactly if they cover it. -/
theorem allowsLive_iff : (∀ t ∈ k.liveShown, d.Allows t) ↔ d.CoversLive k := by
  constructor
  · intro hall
    have hpiece : ∀ p ∈ k.msg.pieces, ∀ t ∈ k.inLine p, d.Allows t := fun p hp t ht =>
      hall t ((mem_liveShown h).mpr ⟨p, hp, ht⟩)
    exact ⟨fun hmode _ p hp t ht => (hpiece p hp t ht).color hmode,
      fun hmode p hp t ht => (hpiece p hp t ht).ctcp hmode,
      fun hmode p hp _ t ht => (hpiece p hp t ht).words hmode⟩
  · intro hcov t ht
    obtain ⟨p, hp, ht⟩ := (mem_liveShown h).mp ht
    have hfront := prefix_of_mem_inLine ht
    refine ⟨fun hmode => ?_, fun hmode => hcov.ctcp hmode p hp t ht, fun hmode => ?_⟩
    · cases hstrip : k.modes.strip with
      | true =>
        exact hasFormatting_of_mem (fun c hc => Or.inr (mem_shownText (hfront.subset hc)))
          (hasFormatting_applied hstrip p)
      | false => exact hcov.color hmode hstrip p hp t ht
    · by_cases hsees : k.modes.Sees p
      · exact hasWord_infix hfront.isInfix (hasWord_of_sees h hwords hp hsees)
      · exact hcov.words hmode p hp hsees t ht

/-- A fragment as it is replayed: what is between its CRs. -/
theorem CoversReplay.part (hcov : d.CoversReplay k) {l : MlLine} (hl : l ∈ k.msg.lines) {q : Text}
    (hq : q ∈ splitSep '\r' (k.modes.applied l.2)) : d.Allows q := by
  obtain ⟨hshort, hlf⟩ := mem_pieces h (mem_pieces_of_line hl)
  have hsub : ∀ c ∈ q, c ∈ k.modes.applied l.2 := by
    intro c hc
    have hflat : c ∈ (splitSep '\r' (k.modes.applied l.2)).flatten :=
      List.mem_flatten.mpr ⟨q, hq, hc⟩
    rw [flatten_splitSep] at hflat
    exact List.mem_of_mem_filter hflat
  refine ⟨fun hmode => ?_, fun hmode => hcov.ctcp hmode l hl q hq, fun hmode => ?_⟩
  · cases hstrip : k.modes.strip with
    | true =>
      exact hasFormatting_of_mem (fun c hc => Or.inr (hsub c hc)) (hasFormatting_applied hstrip l.2)
    | false =>
      exact hasFormatting_of_mem (fun c hc => Or.inr (hsub c hc)) (hcov.color hmode hstrip l hl)
  · by_cases hsees : k.modes.Sees l.2
    · have hcr : '\r' ∉ k.modes.applied l.2 := fun hin =>
        (k.modes.mem_applied hin).elim (by decide) hsees.2.1
      have hword := hasWord_of_sees h hwords (mem_pieces_of_line hl) hsees
      rw [shownText_eq ((k.modes.applied_length_le _).trans_lt hshort) hcr
        (k.modes.lf_notMem_applied hlf)] at hword
      rw [splitSep_of_not_mem hcr] at hq
      rwa [List.mem_singleton.mp hq]
    · exact hcov.words hmode l hl hsees q hq

/-- A line as it is replayed: its fragments glued as they were left. -/
theorem CoversReplay.line (hcov : d.CoversReplay k) {g : List Text} (hg : g ∈ k.msg.glued) :
    d.Allows (clip 420 ((g.map k.modes.applied).flatten.filter (· ≠ '\r'))) := by
  have hpart : ∀ q ∈ (g.map k.modes.applied).flatMap (splitSep '\r'), d.Allows q := by
    intro q hq
    obtain ⟨a, ha, hq⟩ := List.mem_flatMap.mp hq
    obtain ⟨f, hf, rfl⟩ := List.mem_map.mp ha
    obtain ⟨l, hl, rfl⟩ := mem_lines_of_glued h hg hf
    exact hcov.part h hwords hl hq
  have hflat : (g.map k.modes.applied).flatten.filter (· ≠ '\r') =
      ((g.map k.modes.applied).flatMap (splitSep '\r')).flatten := by
    generalize g.map k.modes.applied = ts
    induction ts with
    | nil => rfl
    | cons t ts ih =>
      rw [List.flatten_cons, List.filter_append, ih, List.flatMap_cons, List.flatten_append,
        flatten_splitSep]
  refine ⟨fun hmode => ?_, fun hmode => ?_, fun hmode => ?_⟩
  · rw [hflat, hasFormatting_eq_false_iff]
    intro c hc
    obtain ⟨q, hq, hin⟩ := List.mem_flatten.mp (mem_of_mem_clip hc)
    exact hasFormatting_eq_false_iff.mp ((hpart q hq).color hmode) c hin
  · rw [hflat]
    exact isBlockedCtcp_take (by decide) (isBlockedCtcp_flatten fun q hq => (hpart q hq).ctcp hmode)
  · by_cases hone : g.length = 1 → ∃ f ∈ g, ¬ k.modes.Sees f
    · exact hcov.seams hmode g hg hone
    · -- a line of one fragment that +G has seen
      rw [Classical.not_imp, not_exists] at hone
      obtain ⟨hlen, hsees⟩ := hone
      obtain ⟨f, rfl⟩ := List.length_eq_one_iff.mp hlen
      have hsees : k.modes.Sees f := by
        by_contra hno
        exact hsees f ⟨List.mem_cons_self, hno⟩
      obtain ⟨l, hl, rfl⟩ := mem_lines_of_glued h hg List.mem_cons_self
      obtain ⟨hshort, hlf⟩ := mem_pieces h (mem_pieces_of_line hl)
      have hleft := (k.modes.applied_length_le l.2).trans_lt hshort
      have hword := hasWord_of_sees h hwords (mem_pieces_of_line hl) hsees
      have hless := List.length_filter_le (fun c : Char => c ≠ '\r') (k.modes.applied l.2)
      rw [shownText_of_lf hleft (k.modes.lf_notMem_applied hlf)] at hword
      rwa [List.map_singleton, List.flatten_singleton, clip_of_fits (by omega)]

/-- **What is replayed** is as the modes want it exactly if they cover it. -/
theorem allowsReplay_iff : (∀ t ∈ k.replayShown, d.Allows t) ↔ d.CoversReplay k := by
  constructor
  · intro hall
    have hpart : ∀ l ∈ k.msg.lines, ∀ q ∈ splitSep '\r' (k.modes.applied l.2), d.Allows q :=
      fun l hl q hq => hall q ((mem_replayShown h).mpr (Or.inl ⟨l, hl, hq⟩))
    refine ⟨fun hmode _ l hl => ?_, fun hmode l hl q hq => (hpart l hl q hq).ctcp hmode,
      fun hmode l hl _ q hq => (hpart l hl q hq).words hmode,
      fun hmode g hg _ => (hall _ ((mem_replayShown h).mpr (Or.inr ⟨g, hg, rfl⟩))).words hmode⟩
    rw [hasFormatting_eq_false_iff]
    intro c hc
    by_cases hcr : c = '\r'
    · subst hcr
      decide
    · have hflat : c ∈ (splitSep '\r' (k.modes.applied l.2)).flatten := by
        rw [flatten_splitSep]
        exact List.mem_filter.mpr ⟨hc, by simpa using hcr⟩
      obtain ⟨q, hq, hin⟩ := List.mem_flatten.mp hflat
      exact hasFormatting_eq_false_iff.mp ((hpart l hl q hq).color hmode) c hin
  · intro hcov t ht
    rcases (mem_replayShown h).mp ht with ⟨l, hl, hq⟩ | ⟨g, hg, rfl⟩
    · exact hcov.part h hwords hl hq
    · exact hcov.line h hwords hg

/-- **At one server**: what it shows is as the modes want it exactly if they cover the copy. -/
theorem allows_iff : (∀ t ∈ k.shown, d.Allows t) ↔ d.Covers k := by
  have hlive : (∀ t ∈ if k.live then k.liveShown else [], d.Allows t) ↔
      (k.live = true → d.CoversLive k) := by
    rw [← allowsLive_iff h hwords]
    cases k.live with
    | true => simp
    | false => simp
  have hreplay : (∀ t ∈ if k.stored then k.replayShown else [], d.Allows t) ↔
      (k.stored = true → d.CoversReplay k) := by
    rw [← allowsReplay_iff h hwords]
    cases k.stored with
    | true => simp
    | false => simp
  rw [MessageCopy.shown, List.forall_mem_append, hlive, hreplay]
  exact ⟨fun hboth => ⟨hboth.1, hboth.2⟩, fun hcov => ⟨hcov.live, hcov.replay⟩⟩

end Shown

/-- What was let pass has no formatting left where a mode is there against it. -/
theorem hasFormatting_of_passed {text : Text} (hpass : d.refuses text = false)
    (hmode : d.noColor = true ∨ d.text.strip = true) (hstrip : d.text.strip = false) :
    hasFormatting (d.text.applied text) = false := by
  have hcolor := (Bool.or_eq_false_iff.mp hpass).2
  rw [hmode.resolve_right (Bool.eq_false_iff.mp hstrip), Bool.true_and] at hcolor
  exact hasFormatting_of_mem (fun c => TextModes.mem_applied _) hcolor

/-- And it is no CTCP, if +S and +G leave it as it is. -/
theorem isBlockedCtcp_of_passed {text : Text} (hpass : d.refuses text = false)
    (hmode : d.noCtcp = true) (hplain : d.text.strip = false ∧ d.text.censor = false) :
    isBlockedCtcp (d.text.applied text) = false := by
  have hctcp := (Bool.or_eq_false_iff.mp hpass).1
  have hsame : d.text.applied text = text := by
    rw [TextModes.applied, hplain.1, hplain.2]
    rfl
  rw [hmode, Bool.true_and] at hctcp
  rwa [hsame]

/-- **A line by itself** is covered where nothing hides what the checks look for: they have let it
pass, it has no CR, no word has a star, neither +S nor +G changes it where a CTCP is refused, and
there is room for it behind the tags. -/
theorem covers_line {text : Text} (hmsg : k.msg = .line text) (hmodes : k.modes = d.text)
    (h : k.msg.Accepted maxLen k.envelope.target) (hpass : d.refuses text = false)
    (hcr : '\r' ∉ text) (hstar : ∀ w ∈ d.text.words, '*' ∉ w)
    (hplain : d.noCtcp = true → d.text.strip = false ∧ d.text.censor = false)
    (hroom : LeavesRoom k.envelope k.modes k.msg) : d.Covers k := by
  have hlines : ∀ l ∈ k.msg.lines, l.2 = text := by
    rw [hmsg]
    exact fun l hl => by rw [List.mem_singleton.mp hl]
  have hmem : text ∈ k.msg.pieces := by
    rw [hmsg]
    exact List.mem_append_left _ List.mem_cons_self
  obtain ⟨hshort, hlf⟩ := mem_pieces h hmem
  have hpieces : ∀ p ∈ k.msg.pieces, p = text := by
    have hall : k.msg.pieces = [text, clip 420 text] := by
      rw [hmsg]
      exact congrArg (fun t => [text, clip 420 t]) List.flatten_singleton
    rw [hall, clip_of_fits hshort]
    simp
  have hleft : '\r' ∉ d.text.applied text := fun hin =>
    (d.text.mem_applied hin).elim (by decide) hcr
  have hline : shownText (d.text.applied text) = d.text.applied text :=
    shownText_eq ((d.text.applied_length_le _).trans_lt hshort) hleft (d.text.lf_notMem_applied hlf)
  have hshown : ∀ p ∈ k.msg.pieces, ∀ t ∈ k.inLine p, t = d.text.applied text := by
    intro p hp t ht
    rw [hpieces p hp, MessageCopy.inLine, hmsg] at ht
    obtain ⟨c, -, hsent⟩ := List.mem_filterMap.mp ht
    rw [hmsg] at hroom
    rw [(hroom c).sent, hmodes, hline] at hsent
    exact (Option.some.inj hsent).symm
  have hsees : d.text.censor = true → k.modes.Sees text := fun hcensor =>
    hmodes ▸ ⟨hcensor, hcr, hstar⟩
  refine ⟨fun _ => ⟨fun hmode hstrip p hp t ht => ?_, fun hmode p hp t ht => ?_,
    fun hmode p hp hno => ?_⟩, fun _ => ⟨fun hmode hstrip l hl => ?_, fun hmode l hl q hq => ?_,
      fun hmode l hl hno => ?_, fun hmode g hg hone => ?_⟩⟩
  · rw [hshown p hp t ht]
    exact hasFormatting_of_passed hpass hmode (hmodes ▸ hstrip)
  · rw [hshown p hp t ht]
    exact isBlockedCtcp_of_passed hpass hmode (hplain hmode)
  · exact absurd (hpieces p hp ▸ hsees hmode) hno
  · rw [hlines l hl, hmodes]
    exact hasFormatting_of_passed hpass hmode (hmodes ▸ hstrip)
  · rw [hlines l hl, hmodes, splitSep_of_not_mem hleft] at hq
    rw [List.mem_singleton.mp hq]
    exact isBlockedCtcp_of_passed hpass hmode (hplain hmode)
  · exact absurd (hlines l hl ▸ hsees hmode) hno
  · rw [hmsg] at hg
    have hg : g = [text] := List.mem_singleton.mp hg
    obtain ⟨f, hf, hno⟩ := hone (by rw [hg]; rfl)
    rw [hg] at hf
    exact absurd (List.mem_singleton.mp hf ▸ hsees hmode) hno

/-! ## 9. Everywhere

The message is followed to each server that shows it, and the theorem for one server is
used there. -/

/-- What another server has of a batch is one too. -/
theorem accepted_received {n : Nat} {target target' : Text} {ls : List MlLine} (o : Nat) (t : Text)
    (ht : target'.length < 72) (h : (SentMessage.batch ls).Accepted n target) :
    (received o t (.batch ls)).Accepted o target' := by
  cases h with
  | @batch ml hok hacc hlf htarget =>
    have hless : ∀ l : MlLine, (mlText o (mlSent l).2).length ≤ l.2.length := fun l =>
      ((List.take_sublist _ _).trans (List.take_sublist _ _)).length_le.trans
        (ircEscape_length_le l.2)
    have hbytes : ∀ ls : List MlLine,
        mlBytes (ls.map fun l => (l.1, mlText o (mlSent l).2)) ≤ mlBytes ls := by
      intro ls
      induction ls with
      | nil => exact le_rfl
      | cons l ls ih => exact Nat.add_le_add (hless l) ih
    refine @SentMessage.Accepted.batch o target'
      { ml with target := target', lines := ml.lines.map fun l => (l.1, mlText o (mlSent l).2) }
      ⟨ht, ?_, (hbytes ml.lines).trans hok.bytes, ?_, ?_, ?_⟩ ?_ ?_ rfl
    · rw [List.length_map]
      exact hok.lines
    · intro l hl
      rw [List.head?_map] at hl
      obtain ⟨l', hl', rfl⟩ := Option.map_eq_some_iff.mp hl
      exact hok.first l' hl'
    · exact List.forall_mem_map.mpr fun l _ => mlText_mlText o _
    · exact fun hne => hok.verb fun hnil => hne (by rw [hnil, List.map_nil])
    · rw [MlState.accepted, List.any_map]
      exact hacc
    · refine List.forall_mem_map.mpr fun l hl hin => ?_
      exact hlf l hl (mem_shownText (List.mem_of_mem_take (List.mem_of_mem_take hin)))

theorem accepted_wire {s : Sayer} {msg : SentMessage} {t target' : Text} (o : Nat)
    (h : msg.Accepted s.here.maxLen s.here.envelope.target)
    (ht : ∀ ls, msg = .batch ls → target'.length < 72) (hwire : t ∈ d.wireText s msg) :
    ∃ n, (received o t msg).Accepted n target' := by
  cases hmsg : msg with
  | batch ls => exact ⟨o, accepted_received o t (ht ls hmsg) (hmsg ▸ h)⟩
  | line text =>
    obtain ⟨u, ls, hshape⟩ := h.shape d.text
    subst hmsg
    have hshort : ∀ l ∈ (SentMessage.line text).lines, l.2.length < 420 ∧ '\n' ∉ l.2 := by
      rw [hshape.lines]
      exact fun l hl => ⟨hshape.short l hl, hshape.lf l hl⟩
    obtain ⟨hlen, hlf⟩ := hshort (false, text) List.mem_cons_self
    have hfront : t <+: shownText (d.text.applied text) := by
      rw [wireText] at hwire
      dsimp only [textbuf] at hwire
      rw [LineHead.sent] at hwire
      split at hwire
      · rw [← Option.some.inj hwire]
        exact List.take_prefix ..
      · exact absurd hwire (by simp)
    have hless : t.length < 420 := hfront.length_le.trans_lt
      ((ircEscape_length_le _).trans_lt ((d.text.applied_length_le _).trans_lt hlen))
    have htaken : mlText 420 t = t := by
      rw [mlText_eq_take, List.take_of_length_le (by omega)]
    refine ⟨420, ?_⟩
    rw [received, ← htaken]
    exact .line fun hin => d.text.lf_notMem_applied hlf (mem_shownText (hfront.subset hin))

/-- **Every copy** is of a message that was accepted, and meets the words of the configuration. -/
theorem copies_ok {s : Sayer} {msg : SentMessage}
    (h : msg.Accepted s.here.maxLen s.here.envelope.target) : ∀ k ∈ d.copies s msg,
      (∃ n, k.msg.Accepted n k.envelope.target) ∧
        (k.modes.censor = true → k.modes.words = d.text.words) := by
  have hoff : ∀ {ws : List Text}, TextModes.off.censor = true → TextModes.off.words = ws :=
    fun hcensor => absurd hcensor (by decide)
  have hline : ∀ m : SentMessage, (d.lineModes m).words = d.text.words := by
    intro m
    cases m with
    | line text => rfl
    | batch ls =>
      rw [lineModes]
      split <;> rfl
  have hbatch : ∀ ls, msg = .batch ls → s.here.envelope.target.length < 72 :=
    fun ls hmsg => (hmsg ▸ h).target_lt
  intro k hk
  cases d with
  | channel direct noColor noCtcp text others =>
    rw [copies] at hk
    split at hk
    · exact absurd hk List.not_mem_nil
    · rcases List.mem_cons.mp hk with rfl | hk
      · exact ⟨⟨_, h⟩, fun _ => hline msg⟩
      · obtain ⟨t, ht, hk⟩ := List.mem_flatMap.mp hk
        obtain ⟨o, -, rfl⟩ := List.mem_map.mp hk
        refine ⟨accepted_wire o.maxLen h hbatch (Option.mem_toList.mp ht), ?_⟩
        rw [receivedModes.eq_def]
        split
        · exact hoff
        · exact fun _ => hline _
  | user noCtcp away =>
    cases away with
    | none =>
      rw [copies] at hk
      split at hk
      · exact absurd hk List.not_mem_nil
      · rw [List.mem_singleton.mp hk]
        exact ⟨⟨_, h⟩, hoff⟩
    | some there =>
      obtain ⟨uid, there⟩ := there
      rw [copies] at hk
      rcases List.mem_cons.mp hk with rfl | hk
      · exact ⟨⟨_, h⟩, hoff⟩
      · obtain ⟨t, ht, hk⟩ := List.mem_flatMap.mp hk
        split at hk
        · exact absurd hk List.not_mem_nil
        · rw [List.mem_singleton.mp hk]
          have hname := there.envelope.name_fits
          exact ⟨accepted_wire there.maxLen h (fun _ _ => hname.trans (by decide))
            (Option.mem_toList.mp ht), hoff⟩

/-- A server that keeps a history. -/
def demoShowing : Showing := ⟨demoEnvelope [], 400, true⟩

/-- And a sender there. -/
def demoSayer : Sayer := ⟨demoShowing, ⟨"0AAAAAAAB".toList, by decide, by decide⟩⟩

end ContentModes

end SekurIRCd
