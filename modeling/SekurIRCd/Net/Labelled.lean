/-
# Labelled replies

What a command with a label answers is held back, and when the command has ended it is decided how
the lines go out: as an acknowledgement, as one line with the label, or as a batch of all of them.
More than 64 KiB are not held: then the lines are released as they are.

All of that is sent complete and in order (`labelledReply_iff`), but for one thing: the server's
name stands in front of the acknowledgement and of the batch's own lines, and the buffers that these
are built in are shorter than a name may be.
-/
import SekurIRCd.Message
import SekurIRCd.Net.SendQueue
import Mathlib.Data.List.Forall2

namespace SekurIRCd

open CLib ByteQueue

/-! ## 1. The complete reply

What a client should get is said as a function of the label and of the lines that the
command sent. -/

/-- A line with one more tag in front. -/
def addTag (tag line : Text) : Text :=
  match line with
  | '@' :: body => '@' :: tag ++ ';' :: body
  | _ => '@' :: tag ++ ' ' :: line

/-- One of the tags of a line is `batch=`; of a line that is nothing but tags it is the first. -/
def inBatch : Text → Bool
  | '@' :: body =>
    match strchr ' ' body with
    | some (tags, _) => (splitSep ';' tags).any fun t => "batch=".toList.isPrefixOf t
    | none => "batch=".toList.isPrefixOf body
  | _ => false

/-- The lines are more than what is held. -/
def TooMuch (lines : List Text) : Prop := 65536 < (withLf lines).length

instance (lines : List Text) : Decidable (TooMuch lines) := inferInstanceAs (Decidable (_ < _))

/-- The tag of a label. -/
def wholeLabelTag (label : Text) : Text := "label=".toList ++ escapeTag label

/-- The complete reply to a labelled command: no line at all becomes an acknowledgement, one line
gets the label, and several become a batch. Lines that are too many to be held go out
as they are. -/
def labelReply (srvname label : Text) (seq : Nat) (lines : List Text) : List Text :=
  let bid := "lr".toList ++ decimal seq
  if TooMuch lines then lines
  else match lines with
  | [] => [addTag (wholeLabelTag label) (ircLine srvname "ACK".toList [])]
  | [l] => [addTag (wholeLabelTag label) l]
  | ls =>
    addTag (wholeLabelTag label)
      (ircLine srvname "BATCH".toList ['+' :: bid, "labeled-response".toList]) ::
    ls.map (fun l => if inBatch l then l else addTag ("batch=".toList ++ bid) l) ++
    [ircLine srvname "BATCH".toList ['-' :: bid]]

/-- The server's name leaves room for what is built with it. One line alone needs no room, as
nothing is built for it. -/
def NameFits (srvname : Text) (seq : Nat) (lines : List Text) : Prop :=
  TooMuch lines ∨ match lines with
    | [] => (ircLine srvname "ACK".toList []).length < 200
    | [_] => True
    | _ => (ircLine srvname "BATCH".toList
        ['+' :: ("lr".toList ++ decimal seq), "labeled-response".toList]).length < 300

/-! ## 2. A run of a command

The run keeps beside the client the lines that its queue got, so that what was held and released
can be compared with what was sent. -/

/-- The lines an event gives to the queue, before the time tag is put in. -/
def SendClient.queues (cl : SendClient) : SendEvent → List Text
  | .send line =>
    if cl.labelCapture = false then [line]
    else if 65536 < cl.labelBuf.length + line.length + 1 then labelHeld cl ++ [line]
    else []
  | .labelEnd srvname seq => labelEndLines srvname seq cl
  | _ => []

theorem submits_eq (e : Nat → CallEnv) (cl : SendClient) (x : SendEvent) :
    cl.submits e x = wireLines e cl.serverTime (cl.queues x) := by
  cases x <;> rfl

/-- A client with the lines that its queue got. -/
structure LabelRun where
  cl : SendClient
  queued : List Text

def LabelRun.step (r : LabelRun) (x : (Nat → CallEnv) × SendEvent) : LabelRun :=
  ⟨r.cl.after x.1 x.2, r.queued ++ r.cl.queues x.2⟩

def LabelRun.run (r : LabelRun) (xs : List ((Nat → CallEnv) × SendEvent)) : LabelRun :=
  xs.foldl LabelRun.step r

/-- A labelled command: its handler sends some lines. -/
def labelledRun (cl : SendClient) (label : Text) (sends : List ((Nat → CallEnv) × Text))
    (srvname : Text) (seq : Nat) (e : Nat → CallEnv) : LabelRun :=
  (LabelRun.run ⟨clientLabelBegin cl label, []⟩ (sends.map fun x => (x.1, .send x.2))).step
    (e, .labelEnd srvname seq)

/-! ## 3. Tags in front -/

theorem addTag_length_le (tag line : Text) :
    (addTag tag line).length ≤ tag.length + line.length + 2 := by
  rw [addTag.eq_def]
  split
  · simp only [List.length_cons, List.length_append]
    omega
  · simp only [List.length_cons, List.length_append]
    omega

theorem addTag_length {tag line : Text} (h : line.head? ≠ some '@') :
    (addTag tag line).length = tag.length + line.length + 2 := by
  rw [addTag.eq_def]
  split
  · exact absurd rfl h
  · simp only [List.length_cons, List.length_append]
    omega

theorem lineAddTag_eq {tag line : Text} (h : tag.length + line.length + 2 < 1700) :
    lineAddTag tag line = addTag tag line :=
  clip_of_fits (lt_of_le_of_lt (addTag_length_le tag line) h)

theorem escapeTag_length_le (v : Text) : (escapeTag v).length ≤ 2 * v.length := by
  have hchar : ∀ c, (escapeTagChar c).length ≤ 2 := by
    intro c
    rw [escapeTagChar]
    split_ifs
    all_goals exact Nat.le_of_ble_eq_true rfl
  induction v with
  | nil => exact Nat.le_refl _
  | cons c v ih =>
    have hc := hchar c
    rw [escapeTag, List.flatMap_cons, List.length_append, List.length_cons, ← escapeTag]
    omega

theorem length_wholeLabelTag (label : Text) :
    (wholeLabelTag label).length = (escapeTag label).length + 6 := by
  have h6 : "label=".toList.length = 6 := rfl
  change ("label=".toList ++ escapeTag label).length = _
  rw [List.length_append, h6, Nat.add_comm]

/-- **The label's tag** is written whole. -/
theorem labelTag_eq {label : Text} (hne : label ≠ []) (hlen : label.length < 64) :
    labelTag label = wholeLabelTag label := by
  have hesc := escapeTag_length_le label
  have hkey : ∀ c ∈ "label".toList, c ≠ ';' ∧ c ≠ '=' ∧ c ≠ ' ' := by decide
  have htag : TagOk ("label".toList, label) :=
    ⟨(by decide : "label".toList ≠ []), fun hc => (hkey _ hc).1 rfl, fun hc => (hkey _ hc).2.1 rfl,
      fun hc => (hkey _ hc).2.2 rfl, escapeTagValue_eq _ _ (by simp only; omega)⟩
  have hok : Message.Ok ⟨[("label".toList, label)], none, ['X'], [], none⟩ := by
    have hx : Command ['X'] := by decide
    have hcolon : ['X'].head? ≠ some ':' := by decide
    refine ⟨List.forall_mem_singleton.mpr htag, Nat.le_of_ble_eq_true rfl, fun p hp => ?_, hx,
      fun _ => hcolon, fun _ h => ?_, fun p hp => ?_, Nat.zero_le _, fun t ht => ?_⟩
    · exact absurd hp (by simp)
    · exact absurd h (List.cons_ne_nil _ _)
    · exact absurd hp List.not_mem_nil
    · exact absurd ht (by simp)
  have hword : tagWord ("label".toList, label) = wholeLabelTag label := by
    rw [tagWord, if_neg hne]
    rfl
  have hline : Message.line ⟨[("label".toList, label)], none, ['X'], [], none⟩ =
      '@' :: wholeLabelTag label ++ [' ', 'X'] := by
    rw [Message.line, tagSection, if_neg (List.cons_ne_nil _ _), List.map_singleton, hword]
    simp
  have hfit : (Message.line ⟨[("label".toList, label)], none, ['X'], [], none⟩).length < 200 := by
    have hlen' := congrArg List.length hline
    simp only [List.cons_append, List.length_cons, List.length_append, List.length_nil,
      length_wholeLabelTag] at hlen'
    omega
  have hbuild := Message.build_of_fits hok hfit
  rw [Message.build] at hbuild
  have hspace : ∀ c ∈ '@' :: wholeLabelTag label, decide (c ≠ ' ') = true := by
    intro c hc
    rw [decide_eq_true_eq]
    rintro rfl
    rcases List.mem_cons.mp hc with hc | hc
    · exact absurd hc (by decide)
    · exact notMem_tagWord htag (Or.inr rfl) (hword ▸ hc)
  rw [labelTag, hbuild, hline, List.takeWhile_append_of_pos hspace]
  simp

/-! ## 4. Lines of a batch

The scan looks for `;batch=` in the text of the line, in front of the first space, and the tags are
what stands between semicolons. -/

/-- Text in front of a separator that it does not have. -/
theorem prefix_append_sep {sep : Char} {pat : Text} (hpat : sep ∉ pat) (s rest : Text) :
    pat <+: s ++ sep :: rest ↔ pat <+: s := by
  induction s generalizing pat with
  | nil =>
    cases pat with
    | nil => exact iff_of_true List.nil_prefix List.nil_prefix
    | cons p ps =>
      refine iff_of_false (fun h => ?_) (fun h => ?_)
      · exact hpat (List.mem_cons.mpr (Or.inl (List.cons_prefix_cons.mp h).1.symm))
      · exact absurd (List.prefix_nil.mp h) (List.cons_ne_nil _ _)
  | cons c s ih =>
    cases pat with
    | nil => exact iff_of_true List.nil_prefix List.nil_prefix
    | cons p ps =>
      rw [List.cons_append, List.cons_prefix_cons, List.cons_prefix_cons,
        ih fun h => hpat (List.mem_cons_of_mem p h)]

/-- The search finds a pattern in front of the separator exactly when it stands there. -/
theorem strstr_before_sep {sep : Char} {pat : Text} (hpat : sep ∉ pat) (hne : pat ≠ [])
    (s rest : Text) : (∃ b r, strstr pat (s ++ sep :: rest) = some (b, r) ∧ b.length < s.length) ↔
      pat <:+: s := by
  induction s with
  | nil =>
    refine iff_of_false (fun ⟨_, _, _, h⟩ => absurd h (Nat.not_lt_zero _)) (fun h => ?_)
    exact hne (List.infix_nil.mp h)
  | cons c s ih =>
    rw [List.infix_cons_iff, ← ih, ← prefix_append_sep hpat (c :: s) rest, List.cons_append, strstr]
    by_cases hpre : pat.isPrefixOf (c :: (s ++ sep :: rest)) = true
    · rw [if_pos hpre]
      exact iff_of_true ⟨[], _, rfl, Nat.succ_pos _⟩ (Or.inl (List.isPrefixOf_iff_prefix.mp hpre))
    · rw [if_neg hpre, or_iff_right fun h => hpre (List.isPrefixOf_iff_prefix.mpr h)]
      constructor
      · rintro ⟨b, r, hfind, hlt⟩
        obtain ⟨⟨b', r'⟩, hfind', he⟩ := Option.map_eq_some_iff.mp hfind
        obtain ⟨rfl, rfl⟩ := Prod.mk.inj he
        exact ⟨b', r', hfind', Nat.lt_of_succ_lt_succ hlt⟩
      · rintro ⟨b, r, hfind, hlt⟩
        exact ⟨c :: b, r, by rw [hfind, Option.map_some], Nat.succ_lt_succ hlt⟩

/-- The pieces of a text that begin with a pattern: the first one, or one behind a separator. -/
theorem splitSep_any_prefix {sep : Char} {pat : Text} (hpat : sep ∉ pat) (s : Text) :
    (splitSep sep s).any (fun t => pat.isPrefixOf t) = true ↔ pat <+: s ∨ (sep :: pat) <:+: s := by
  have hpieces : ∃ p ps, splitSep sep s = p :: ps ∧
      (∀ q : Text, sep ∉ q → (q <+: p ↔ q <+: s)) ∧
      (ps.any (fun t => pat.isPrefixOf t) = true ↔ (sep :: pat) <:+: s) := by
    induction s with
    | nil =>
      refine ⟨[], [], rfl, fun _ _ => Iff.rfl, iff_of_false (by simp) fun h => ?_⟩
      exact absurd (List.infix_nil.mp h) (List.cons_ne_nil _ _)
    | cons c s ih =>
      obtain ⟨p, ps, hsplit, hfirst, hmore⟩ := ih
      rw [splitSep, List.infix_cons_iff, ← hmore, List.cons_prefix_cons]
      by_cases hc : c = sep
      · refine ⟨[], p :: ps, by rw [if_pos hc, hsplit], fun q hq => ?_, ?_⟩
        · cases q with
          | nil => exact iff_of_true List.nil_prefix List.nil_prefix
          | cons d q =>
            refine iff_of_false (fun h => absurd (List.prefix_nil.mp h) (List.cons_ne_nil _ _)) ?_
            intro h
            exact hq (List.mem_cons.mpr (Or.inl (hc ▸ (List.cons_prefix_cons.mp h).1.symm)))
        · rw [List.any_cons, Bool.or_eq_true, List.isPrefixOf_iff_prefix, hfirst pat hpat,
            and_iff_right hc.symm]
      · refine ⟨c :: p, ps, by rw [if_neg hc, hsplit], fun q hq => ?_, ?_⟩
        · cases q with
          | nil => exact iff_of_true List.nil_prefix List.nil_prefix
          | cons d q =>
            rw [List.cons_prefix_cons, List.cons_prefix_cons,
              hfirst q fun h => hq (List.mem_cons_of_mem d h)]
        · rw [or_iff_right fun h => hc h.1.symm]
  obtain ⟨p, ps, hsplit, hfirst, hmore⟩ := hpieces
  rw [hsplit, List.any_cons, Bool.or_eq_true, List.isPrefixOf_iff_prefix, hfirst pat hpat,
    hmore]

/-- **The scan for a batch** finds the tag wherever it stands. -/
theorem hasBatchTag_eq (line : Text) : hasBatchTag line = inBatch line := by
  by_cases hat : ∃ body, line = '@' :: body
  · obtain ⟨body, rfl⟩ := hat
    have hfront : "@batch=".toList.isPrefixOf ('@' :: body) = "batch=".toList.isPrefixOf body := rfl
    rw [hasBatchTag, inBatch, hfront]
    cases hfind : strchr ' ' body with
    | none =>
      have hnone : strchr ' ' ('@' :: body) = none := by
        rw [strchr, if_neg (by decide), hfind]
        rfl
      rw [hnone]
      cases strstr ";batch=".toList ('@' :: body) with
      | none => exact Bool.or_false _
      | some b => exact Bool.or_false _
    | some r =>
      obtain ⟨tags, rest⟩ := r
      obtain ⟨rfl, hno⟩ := strchr_some hfind
      have hat : ' ' ∉ '@' :: tags := fun h =>
        (List.mem_cons.mp h).elim (fun h => absurd h (by decide)) hno
      have hfind' : strchr ' ' ('@' :: (tags ++ ' ' :: rest)) = some ('@' :: tags, rest) :=
        strchr_append hat rest
      have hinner := strstr_before_sep (show ' ' ∉ ";batch=".toList by decide)
        (List.cons_ne_nil _ _) ('@' :: tags) rest
      have hskip : ";batch=".toList <:+: '@' :: tags ↔ (';' :: "batch=".toList) <:+: tags := by
        rw [List.infix_cons_iff]
        exact or_iff_right fun h => absurd (List.cons_prefix_cons.mp h).1 (by decide)
      rw [hfind', Bool.eq_iff_iff, Bool.or_eq_true, List.isPrefixOf_iff_prefix,
        prefix_append_sep (show ' ' ∉ "batch=".toList by decide),
        splitSep_any_prefix (show ';' ∉ "batch=".toList by decide), ← hskip, ← hinner]
      refine or_congr_right ?_
      rw [List.cons_append]
      cases strstr ";batch=".toList ('@' :: (tags ++ ' ' :: rest)) with
      | none =>
        refine iff_of_false Bool.false_ne_true ?_
        rintro ⟨_, _, h, _⟩
        exact absurd h.symm (Option.some_ne_none _)
      | some b =>
        refine decide_eq_true_iff.trans ⟨fun h => ⟨b.1, b.2, rfl, h⟩, ?_⟩
        rintro ⟨_, _, h, hlt⟩
        rw [Option.some.inj h]
        exact hlt
  · cases line with
    | nil => rfl
    | cons c body =>
      have hc : c ≠ '@' := fun hc => hat ⟨body, by rw [hc]⟩
      simp [hasBatchTag, inBatch, hc]

/-! ## 5. The lines of a command

While a command runs its lines are held in a buffer. There are two courses: all of them are held,
or they became too much and are on their way already. -/

/-- A line as it goes out, with the time of some clock if the client wants it. The clock is read
where the line is queued. -/
def IsWire (serverTime : Bool) (line wire : Text) : Prop := ∃ e, wire = wireLine e serverTime line

theorem forall₂_wireLines (on : Bool) (ls : List Text) : ∀ e : Nat → CallEnv,
    List.Forall₂ (IsWire on) ls (wireLines e on ls) := by
  induction ls with
  | nil => exact fun _ => .nil
  | cons l ls ih => exact fun e => .cons ⟨e 0, rfl⟩ (ih fun k => e (k + 1))

/-- What was queued since some state is what the queue has got since then. -/
structure LabelRun.Flows (cl : SendClient) (r : LabelRun) : Prop where
  block : 0 < r.cl.sbuf.cap
  serverTime : r.cl.serverTime = cl.serverTime
  flow : ∃ ws, List.Forall₂ (IsWire cl.serverTime) r.queued ws ∧ Queued cl r.cl ws

theorem LabelRun.Flows.step {cl : SendClient} {r : LabelRun} (h : r.Flows cl) (e : Nat → CallEnv)
    {x : SendEvent} (hx : Queued r.cl (r.cl.after e x) (r.cl.submits e x)) :
    (r.step (e, x)).Flows cl := by
  obtain ⟨ws, hws, hqueued⟩ := h.flow
  refine ⟨hx.block, hx.serverTime.trans h.serverTime, ws ++ r.cl.submits e x, ?_,
    hqueued.trans hx⟩
  rw [submits_eq, h.serverTime]
  exact List.rel_append hws (forall₂_wireLines _ _ e)

section Held

variable {cl : SendClient} {e : Nat → CallEnv}

theorem labelCapture_clientQueueLine (e : CallEnv) (line : Text) :
    (clientQueueLine e cl line).labelCapture = cl.labelCapture := by
  rw [clientQueueLine]
  simp only
  split
  · rfl
  · split
    · rfl
    · rfl

theorem labelCapture_clientQueueAll (ls : List Text) : ∀ (e : Nat → CallEnv) (cl : SendClient),
    (clientQueueAll e cl ls).labelCapture = cl.labelCapture := by
  induction ls with
  | nil => exact fun _ _ => rfl
  | cons l ls ih =>
    intro e cl
    rw [clientQueueAll, ih]
    split
    · rfl
    · exact labelCapture_clientQueueLine _ _

/-- A line that is too much is released with those that were held. -/
theorem clientSendLine_release {line : Text} (hopen : cl.quitting = false)
    (hcapture : cl.labelCapture = true)
    (hmuch : 65536 < cl.labelBuf.length + line.length + 1) :
    (clientSendLine e cl line).labelCapture = false := by
  rw [clientSendLine, if_neg (by simp [hopen]), if_pos hcapture]
  simp only [if_pos hmuch]
  rw [labelCapture_clientQueueLine]
  exact labelCapture_clientQueueAll _ _ _

/-- A line that is held, unless there is no memory for it. -/
theorem clientSendLine_hold {line : Text} (hopen : cl.quitting = false)
    (hcapture : cl.labelCapture = true)
    (hroom : ¬ 65536 < cl.labelBuf.length + line.length + 1)
    (hstays : (clientSendLine e cl line).quitting = false) :
    ∃ cap, clientSendLine e cl line =
      { cl with
        labelBuf := cl.labelBuf ++ line ++ ['\n']
        labelLines := cl.labelLines + 1
        labelCap := cap } := by
  rw [clientSendLine, if_neg (by simp [hopen]), if_pos hcapture] at hstays ⊢
  simp only [if_neg hroom] at hstays ⊢
  split at hstays
  · exact absurd hstays (by simp)
  · next halloc =>
    rw [if_neg halloc]
    exact ⟨_, rfl⟩

theorem labelCapture_clientLabelEnd (srvname : Text) (seq : Nat) :
    (clientLabelEnd e srvname seq cl).labelCapture = false := by
  rw [clientLabelEnd]
  split
  · next hcapture => exact hcapture
  · simp only
    split
    · rfl
    · exact labelCapture_clientQueueAll _ _ _

/-- The held lines, cut out of the buffer again. -/
theorem labelHeld_withLf {lines : List Text} (hlines : ∀ l ∈ lines, '\n' ∉ l)
    (hbuf : cl.labelBuf = withLf lines) : labelHeld cl = lines := by
  rw [labelHeld, hbuf, splitSep_withLf hlines, List.dropLast_concat]

end Held

/-- A command in its course, as long as the connection is open: what it has sent is held, or it was
too much and was released. -/
def LabelRun.InCourse (cl : SendClient) (label : Text) (lines : List Text) (r : LabelRun) : Prop :=
  r.cl.quitting = false →
    if TooMuch lines then r.cl.labelCapture = false ∧ r.queued = lines
    else r.cl.labelCapture = true ∧ r.cl.labelBuf = withLf lines ∧
      r.cl.labelLines = lines.length ∧ r.cl.label = clip 72 label ∧
      r.cl.labelDefer = cl.labelDefer ∧ r.queued = []

theorem withLf_concat_length (lines : List Text) (line : Text) :
    (withLf (lines ++ [line])).length = (withLf lines).length + line.length + 1 := by
  rw [withLf_append, withLf_cons, List.length_append, List.length_append]
  rfl

/-- **One line** of a command. -/
theorem LabelRun.InCourse.send {cl : SendClient} {label : Text} {lines : List Text} {r : LabelRun}
    (h : r.InCourse cl label lines) (hflows : r.Flows cl) (hlines : ∀ l ∈ lines, '\n' ∉ l)
    (e : Nat → CallEnv) (line : Text) :
    (r.step (e, .send line)).InCourse cl label (lines ++ [line]) := by
  intro hopen
  have hbefore := (queued_clientSendLine hflows.block e line).stays hopen
  have hquit : ¬ r.cl.quitting = true := by simp [hbefore]
  replace h := h hbefore
  have hcl : (r.step (e, .send line)).cl = clientSendLine e r.cl line := rfl
  have hqueue : (r.step (e, .send line)).queued = r.queued ++ r.cl.queues (.send line) := rfl
  rw [hcl, hqueue, SendClient.queues]
  rw [hcl] at hopen
  by_cases hmuch : TooMuch lines
  · have hmore : TooMuch (lines ++ [line]) := by
      rw [TooMuch, withLf_concat_length]
      exact Nat.lt_succ_of_lt (Nat.lt_add_right _ hmuch)
    rw [if_pos hmuch] at h
    obtain ⟨hcapture, hqueued⟩ := h
    rw [if_pos hmore, if_pos hcapture, hqueued, clientSendLine, if_neg hquit, if_neg (by simp [hcapture]),
      labelCapture_clientQueueLine]
    exact ⟨hcapture, rfl⟩
  · rw [if_neg hmuch] at h
    obtain ⟨hcapture, hbuf, hcount, hlabel, hdefer, hqueued⟩ := h
    have hneed : r.cl.labelBuf.length + line.length + 1 = (withLf (lines ++ [line])).length := by
      rw [hbuf, withLf_concat_length]
    have hyes : ¬ r.cl.labelCapture = false := by simp [hcapture]
    rw [if_neg hyes, hneed]
    by_cases hnow : TooMuch (lines ++ [line])
    · -- this line is one too many: it goes out behind those that were held
      rw [if_pos hnow, if_pos (show 65536 < _ from hnow), hqueued, labelHeld_withLf hlines hbuf]
      exact ⟨clientSendLine_release hbefore hcapture (by rwa [hneed]), rfl⟩
    · obtain ⟨cap, hheld⟩ := clientSendLine_hold hbefore hcapture (by rwa [hneed]) hopen
      rw [if_neg hnow, if_neg (show ¬ 65536 < _ from hnow), hqueued, hheld]
      refine ⟨hcapture, ?_, ?_, hlabel, hdefer, rfl⟩
      · rw [withLf_append, hbuf, withLf_cons, List.append_assoc]
        rfl
      · rw [List.length_append, ← hcount]
        rfl

/-- **All lines** of a command. -/
theorem LabelRun.InCourse.sends {cl : SendClient} {label : Text}
    (sends : List ((Nat → CallEnv) × Text)) (hsends : ∀ x ∈ sends, '\n' ∉ x.2) {r : LabelRun}
    {lines : List Text} (h : r.InCourse cl label lines) (hflows : r.Flows cl)
    (hlines : ∀ l ∈ lines, '\n' ∉ l) :
    (r.run (sends.map fun x => (x.1, .send x.2))).InCourse cl label
        (lines ++ sends.map Prod.snd) ∧
      (r.run (sends.map fun x => (x.1, .send x.2))).Flows cl := by
  induction sends generalizing r lines with
  | nil =>
    rw [List.map_nil, List.map_nil, List.append_nil]
    exact ⟨h, hflows⟩
  | cons x sends ih =>
    obtain ⟨hx, hrest⟩ := List.forall_mem_cons.mp hsends
    have hstep := h.send hflows hlines x.1 x.2
    have hflow := hflows.step x.1 (x := .send x.2) (queued_clientSendLine hflows.block x.1 x.2)
    have hall := ih hrest hstep hflow
      (List.forall_mem_append.mpr ⟨hlines, List.forall_mem_singleton.mpr hx⟩)
    rw [List.append_assoc] at hall
    exact hall

theorem LabelRun.inCourse_start {cl : SendClient} (h : 0 < cl.sbuf.cap) (label : Text) :
    (LabelRun.mk (clientLabelBegin cl label) []).InCourse cl label [] ∧
      (LabelRun.mk (clientLabelBegin cl label) []).Flows cl := by
  constructor
  · intro _
    exact ⟨rfl, rfl, rfl, rfl, rfl, rfl⟩
  · exact ⟨h, rfl, [], .nil, h, rfl, rfl, rfl, id, [], .nil _, (List.append_nil _).symm⟩

/-! ## 6. The reply -/

/-- **The end of a command**: what it has sent went out as it was or goes out with its label. -/
theorem labelledRun_queued {cl : SendClient} (h : 0 < cl.sbuf.cap) (hdefer : cl.labelDefer = false)
    (label : Text) (sends : List ((Nat → CallEnv) × Text)) (hsends : ∀ x ∈ sends, '\n' ∉ x.2)
    (srvname : Text) (seq : Nat) (e : Nat → CallEnv)
    (hopen : (labelledRun cl label sends srvname seq e).cl.quitting = false) :
    (labelledRun cl label sends srvname seq e).Flows cl ∧
      (labelledRun cl label sends srvname seq e).cl.labelCapture = false ∧
      (labelledRun cl label sends srvname seq e).queued =
        if TooMuch (sends.map Prod.snd) then sends.map Prod.snd
        else labelledLines srvname (clip 72 label) seq (sends.map Prod.snd).length
          (sends.map Prod.snd) := by
  obtain ⟨hstart, hflow⟩ := LabelRun.inCourse_start h label
  obtain ⟨hall, hflows⟩ := hstart.sends sends hsends hflow fun _ hl => absurd hl List.not_mem_nil
  rw [labelledRun] at hopen ⊢
  generalize LabelRun.run ⟨clientLabelBegin cl label, []⟩ (sends.map fun x => (x.1, .send x.2)) = r
    at hopen hall hflows ⊢
  have hend := queued_clientLabelEnd hflows.block e srvname seq
  replace hall := hall (hend.stays hopen)
  refine ⟨hflows.step e hend, labelCapture_clientLabelEnd srvname seq, ?_⟩
  have hqueue : (r.step (e, .labelEnd srvname seq)).queued =
      r.queued ++ labelEndLines srvname seq r.cl := rfl
  rw [hqueue, labelEndLines]
  rw [List.nil_append] at hall
  by_cases hmuch : TooMuch (sends.map Prod.snd)
  · rw [if_pos hmuch] at hall ⊢
    rw [if_pos (Or.inl hall.1), hall.2, List.append_nil]
  · rw [if_neg hmuch] at hall ⊢
    obtain ⟨hcapture, hbuf, hcount, hlabel, hdefer', hqueued⟩ := hall
    have hyes : ¬ r.cl.labelCapture = false := by simp [hcapture]
    have hnot : ¬(r.cl.labelDefer = true ∧ r.cl.labelLines = 0) := by simp [hdefer', hdefer]
    have hheld : labelHeld r.cl = sends.map Prod.snd := by
      refine labelHeld_withLf (fun l hl => ?_) hbuf
      obtain ⟨x, hx, rfl⟩ := List.mem_map.mp hl
      exact hsends x hx
    rw [if_neg (not_or.mpr ⟨hyes, hnot⟩), hqueued, hlabel, hcount, hheld]
    rfl

/-- A built line with the label in front is what it should be exactly when it was built. -/
theorem lineAddTag_ircBuild {label : Text} (hlen : label.length < 64) {outsz : Nat}
    (hsz : 0 < outsz) (hle : outsz ≤ 300) (srvname : Text) {command : Text}
    (hc : ircEscape 1024 command ≠ []) (params : List Text) :
    lineAddTag (wholeLabelTag label) (ircBuild outsz [] (some srvname) command params none).text =
        addTag (wholeLabelTag label) (ircLine srvname command params) ↔
      (ircLine srvname command params).length < outsz := by
  have htag : (wholeLabelTag label).length ≤ 132 := by
    have hesc := escapeTag_length_le label
    rw [length_wholeLabelTag]
    omega
  have hshort := ircBuild_text_length hsz srvname command params
  rw [lineAddTag_eq (by omega)]
  constructor
  · intro h
    have hle := addTag_length_le (wholeLabelTag label)
      (ircBuild outsz [] (some srvname) command params none).text
    have hcolon : (ircLine srvname command params).head? ≠ some '@' := by
      rw [ircLine]
      exact (by decide : some ':' ≠ some '@')
    rw [h, addTag_length hcolon] at hle
    omega
  · intro h
    rw [ircBuild_of_fits hc h]

theorem labelledLines_tail {seq : Nat} (hseq : seq < 2 ^ 64) {lines : List Text}
    (hlines : ∀ l ∈ lines, l.length < 1500) :
    lines.map (fun l => if hasBatchTag l then l else
        lineAddTag ("batch=".toList ++ ("lr".toList ++ decimal seq)) l) =
      lines.map fun l => if inBatch l then l else
        addTag ("batch=".toList ++ ("lr".toList ++ decimal seq)) l := by
  refine List.map_congr_left fun l hl => ?_
  have hdec : (decimal seq).length ≤ 20 :=
    decimal_length_le (by decide) (lt_of_lt_of_le hseq (by decide))
  have hl := hlines l hl
  have h6 : "batch=".toList.length = 6 := rfl
  have h2 : "lr".toList.length = 2 := rfl
  rw [hasBatchTag_eq, lineAddTag_eq]
  rw [List.length_append, List.length_append]
  omega

/-- A parameter with a mark in front is as long with any mark. -/
theorem mid_mark_length {c : Char} (hr : c ≠ '\r') (hn : c ≠ '\n') (t : Text) :
    (mid (c :: t)).length = min 511 ((t.filter fun d => d ≠ '\r' ∧ d ≠ '\n').length + 1) := by
  have hesc : ircEscape 512 (c :: t) = c :: (t.filter fun d => d ≠ '\r' ∧ d ≠ '\n').take 510 := by
    rw [ircEscape, List.filter_cons_of_pos (by simp [hr, hn])]
    rfl
  rw [mid, hesc, List.length_map, List.length_cons, List.length_take]
  omega

/-- The closing line of a batch fits where the opening one does. -/
theorem batchEnd_length (srvname bid : Text) :
    (ircLine srvname "BATCH".toList ['-' :: bid]).length ≤
      (ircLine srvname "BATCH".toList ['+' :: bid, "labeled-response".toList]).length := by
  have hminus := mid_mark_length (c := '-') (by decide) (by decide) bid
  have hplus := mid_mark_length (c := '+') (by decide) (by decide) bid
  simp only [ircLine, List.map_cons, List.map_nil, joinSep, List.length_append, List.length_cons,
    hminus, hplus]
  omega

/-- What is sent for a label is the complete reply exactly when the server's name fits. -/
theorem labelledLines_iff {srvname label : Text} {seq : Nat} (hseq : seq < 2 ^ 64)
    (hne : label ≠ []) (hlen : label.length < 64) {lines : List Text} (hmuch : ¬ TooMuch lines)
    (hlines : ∀ l ∈ lines, l.length < 1500) :
    labelledLines srvname (clip 72 label) seq lines.length lines =
      labelReply srvname label seq lines ↔ NameFits srvname seq lines := by
  have htag : labelTag (clip 72 label) = wholeLabelTag label := by
    rw [clip_of_fits (by omega), labelTag_eq hne hlen]
  have hfits : NameFits srvname seq lines ↔ _ := or_iff_right hmuch
  rw [hfits]
  match lines, hmuch, hlines with
  | [], hmuch, _ =>
    rw [labelledLines, labelReply.eq_def, if_neg hmuch, htag, List.length_nil, if_pos rfl, List.cons.injEq,
      and_iff_left rfl]
    exact lineAddTag_ircBuild hlen (by decide) (by decide) srvname (by decide) []
  | [l], hmuch, hlines =>
    have hl := hlines l List.mem_cons_self
    have hesc := escapeTag_length_le label
    rw [labelledLines, labelReply.eq_def, if_neg hmuch, htag, List.length_singleton, if_neg (by decide),
      if_pos rfl, List.headD_cons, lineAddTag_eq]
    · exact iff_of_true rfl trivial
    · rw [length_wholeLabelTag]
      omega
  | l :: l' :: ls, hmuch, hlines =>
    have hfirst := lineAddTag_ircBuild hlen (show 0 < 300 by decide) (by decide) srvname
      (show ircEscape 1024 "BATCH".toList ≠ [] by decide)
      ['+' :: ("lr".toList ++ decimal seq), "labeled-response".toList]
    have hend := batchEnd_length srvname ("lr".toList ++ decimal seq)
    rw [labelledLines, labelReply.eq_def, if_neg hmuch, htag, if_neg (by simp), if_neg (by simp)]
    rw [labelledLines_tail hseq hlines, ← hfirst]
    constructor
    · intro h
      exact (List.cons.inj h).1
    · intro h
      rw [ircBuild_of_fits (by decide) (lt_of_le_of_lt hend (hfirst.mp h)), h]

/-- **Labelled replies are complete**: what reaches the queue of a connection that stays open are the
lines of the complete reply, each with a time if the client wants one, exactly when the server's
name fits. -/
theorem labelledReply_iff (block : Fin 4096 → Char) (before : List ((Nat → CallEnv) × SendEvent))
    {label : Text} (hne : label ≠ []) (hlen : label.length < 64)
    (sends : List ((Nat → CallEnv) × Text))
    (hsends : ∀ x ∈ sends, '\n' ∉ x.2 ∧ x.2.length < 1500) (srvname : Text) {seq : Nat}
    (hseq : seq < 2 ^ 64) (e : Nat → CallEnv)
    (hdefer : ((SendRun.start block).run before).cl.labelDefer = false)
    (hopen : (labelledRun ((SendRun.start block).run before).cl label sends srvname seq
      e).cl.quitting = false) :
    let cl := ((SendRun.start block).run before).cl
    let r := labelledRun cl label sends srvname seq e
    r.cl.labelCapture = false ∧
      (∃ wires, List.Forall₂ (IsWire cl.serverTime) r.queued wires ∧
        r.cl.sbuf.pending = cl.sbuf.pending ++ wires.flatten) ∧
      (r.queued = labelReply srvname label seq (sends.map Prod.snd) ↔
        NameFits srvname seq (sends.map Prod.snd)) := by
  intro cl r
  have hblock : 0 < cl.sbuf.cap := (SendRun.Flows.run before (SendRun.flows_start block)).block
  obtain ⟨hflows, hcapture, hqueued⟩ := labelledRun_queued hblock hdefer label sends
    (fun x hx => (hsends x hx).1) srvname seq e hopen
  obtain ⟨ws, hws, hqueue⟩ := hflows.flow
  refine ⟨hcapture, ⟨ws, hws, ?_⟩, ?_⟩
  · obtain ⟨out, ⟨acc, -, rfl, hall⟩, hpending⟩ := hqueue.flow
    rw [hpending, hall hopen]
  · have hshort : ∀ l ∈ sends.map Prod.snd, l.length < 1500 := by
      intro l hl
      obtain ⟨x, hx, rfl⟩ := List.mem_map.mp hl
      exact (hsends x hx).2
    rw [show r.queued = _ from hqueued]
    by_cases hmuch : TooMuch (sends.map Prod.snd)
    · rw [if_pos hmuch, labelReply.eq_def, if_pos hmuch]
      exact iff_of_true rfl (Or.inl hmuch)
    · rw [if_neg hmuch]
      exact labelledLines_iff hseq hne hlen hmuch hshort

/-- An acknowledgement is five bytes longer than the server's name. -/
theorem ack_length {srvname : Text} (h : Source srvname) :
    (ircLine srvname "ACK".toList []).length = srvname.length + 5 := by
  rw [ircLine, h.escape, List.cons_append, List.length_cons, List.length_append]
  rfl

/-- A line for which there is room leaves the connection open. -/
theorem quitting_clientQueueLine {e : CallEnv} {cl : SendClient} {line : Text}
    (hlimit : cl.sbuf.waiting + (wireLine e cl.serverTime line).length ≤ sendqLimit cl)
    (hroom : cl.sbuf.len + (wireLine e cl.serverTime line).length ≤ cl.sbuf.cap) :
    (clientQueueLine e cl line).quitting = cl.quitting := by
  rw [clientQueueLine]
  simp only [if_neg (Nat.not_lt.mpr hlimit)]
  rw [Queue.room, if_neg (Nat.not_lt.mpr hroom)]
  rfl

/-- A client with an empty queue that gets an acknowledgement stays open. -/
theorem labelledRun_open {cl : SendClient} (hopen : cl.quitting = false)
    (hdefer : cl.labelDefer = false) (htime : cl.serverTime = false) (hmax : cl.sendqMax = 0)
    (hlen : cl.sbuf.len = 0) (hcap : cl.sbuf.cap = 4096) (label srvname : Text) (seq : Nat)
    (e : Nat → CallEnv) : (labelledRun cl label [] srvname seq e).cl.quitting = false := by
  have hline : ∀ line : Text, (lineAddTag (labelTag (clip 72 label)) line).length ≤ 1699 :=
    fun line => clip_length_le 1700 _
  have hrun : (labelledRun cl label [] srvname seq e).cl =
      clientLabelEnd e srvname seq (clientLabelBegin cl label) := rfl
  have hlimit : ∀ c : SendClient, c.sendqMax = cl.sendqMax → sendqLimit c = 1048576 := by
    intro c hc
    rw [sendqLimit, hc, hmax]
    rfl
  have hnot : ¬((clientLabelBegin cl label).labelDefer = true ∧
      (clientLabelBegin cl label).labelLines = 0) := fun h => by
    rw [show (clientLabelBegin cl label).labelDefer = cl.labelDefer from rfl, hdefer] at h
    exact absurd h.1 Bool.false_ne_true
  have hyes : ¬ (clientLabelBegin cl label).labelCapture = false := fun h =>
    absurd h.symm Bool.false_ne_true
  rw [hrun, clientLabelEnd, if_neg hyes, labelEndLines, if_neg (not_or.mpr ⟨hyes, hnot⟩)]
  simp only [if_neg hnot]
  rw [show (clientLabelBegin cl label).labelLines = 0 from rfl, labelledLines, if_pos rfl,
    clientQueueAll, clientQueueAll,
    if_neg (show ¬ (clientLabelBegin cl label).quitting = true by simp [clientLabelBegin, hopen])]
  have hl := hline (ircBuild 200 [] (some srvname) "ACK".toList [] none).text
  have hwaiting : cl.sbuf.waiting = 0 := by rw [Queue.waiting, hlen, Nat.zero_sub]
  have hwire : ∀ (f : CallEnv) (line : Text), (wireLine f cl.serverTime line).length =
      line.length + 2 := by
    intro f line
    rw [wireLine, htime]
    simp [lineEnd]
  rw [quitting_clientQueueLine]
  · exact hopen
  · refine le_of_le_of_eq ?_ (hlimit _ rfl).symm
    show cl.sbuf.waiting + (wireLine (e 0) cl.serverTime _).length ≤ _
    rw [hwire, hwaiting]
    exact (Nat.zero_add _).trans_le ((Nat.add_le_add_right hl 2).trans (by decide))
  · show cl.sbuf.len + (wireLine (e 0) cl.serverTime _).length ≤ cl.sbuf.cap
    rw [hwire, hlen, hcap]
    exact (Nat.zero_add _).trans_le ((Nat.add_le_add_right hl 2).trans (by decide))

theorem labelledRun_new (block : Fin 4096 → Char) (label srvname : Text) (seq : Nat)
    (e : Nat → CallEnv) :
    (labelledRun ((SendRun.start block).run []).cl label [] srvname seq e).cl.quitting = false :=
  labelledRun_open rfl rfl rfl rfl rfl ((Queue.cap_fresh _).trans List.length_ofFn) label srvname seq e

/-- Three lines of an answer, one of them in a batch of its own.  The buffer for them is allocated
with the first. -/
def demoAnswer : List ((Nat → CallEnv) × Text) :=
  [(fun _ => ⟨some fun _ => '0', []⟩, ":irc 001 ann :Hi".toList),
    (fun _ => ⟨none, []⟩, "@batch=b1 :irc TARGETS #c".toList),
    (fun _ => ⟨none, []⟩, ":irc 376 ann :End".toList)]

/-- They go out as a batch under the label; the one in a batch keeps its own. -/
theorem labelledReply_iff_ack :
    (labelledRun ((SendRun.start fun _ => '0').run []).cl ['x'] demoAnswer "irc".toList 1
      fun _ => ⟨none, []⟩).queued =
        ["@label=x :irc BATCH +lr1 labeled-response".toList, "@batch=lr1 :irc 001 ann :Hi".toList,
          "@batch=b1 :irc TARGETS #c".toList, "@batch=lr1 :irc 376 ann :End".toList,
          ":irc BATCH -lr1".toList] := by
  have hopen : (labelledRun ((SendRun.start fun _ => '0').run []).cl ['x'] demoAnswer "irc".toList 1
      fun _ => ⟨none, []⟩).cl.quitting = false := by decide +kernel
  refine ((@labelledReply_iff (fun _ => '0') [] ['x'] (by decide) (by decide) demoAnswer
    (by decide) "irc".toList 1 (by decide) (fun _ => ⟨none, []⟩) rfl hopen).2.2.mpr
    (Or.inr ?_)).trans ?_
  · show (ircLine "irc".toList "BATCH".toList
      ['+' :: ("lr".toList ++ decimal 1), "labeled-response".toList]).length < 300
    decide
  · decide

/-- **A long name**: the server's name is within its limit of 255 bytes, and the acknowledgement is
cut off in it. -/
theorem labelledReply_long_name : ∃ (block : Fin 4096 → Char) (srvname : Text) (e : Nat → CallEnv),
    srvname.length ≤ 255 ∧
    (labelledRun ((SendRun.start block).run []).cl ['x'] [] srvname 1 e).cl.quitting = false ∧
    (labelledRun ((SendRun.start block).run []).cl ['x'] [] srvname 1 e).queued ≠
      labelReply srvname ['x'] 1 [] := by
  have hmuch : ¬ TooMuch [] := by decide
  have hname : ∀ c ∈ List.replicate 195 'a', c = 'a' := fun c hc => List.eq_of_mem_replicate hc
  have hsource : Source (List.replicate 195 'a') := by
    refine ⟨fun h => ?_, fun h => ?_, fun h => ?_, ?_⟩
    · exact absurd (hname _ h) (by decide)
    · exact absurd (hname _ h) (by decide)
    · exact absurd (hname _ h) (by decide)
    · rw [List.length_replicate]
      decide
  have hlong : ¬ NameFits (List.replicate 195 'a') 1 [] := by
    refine not_or.mpr ⟨hmuch, ?_⟩
    show ¬ (ircLine (List.replicate 195 'a') "ACK".toList []).length < 200
    rw [ack_length hsource, List.length_replicate]
    decide
  refine ⟨fun _ => '0', List.replicate 195 'a', fun _ => ⟨none, []⟩, ?_,
    labelledRun_new _ _ _ _ _, fun h => hlong ?_⟩
  · rw [List.length_replicate]
    decide
  · have hqueued := (@labelledRun_queued ((SendRun.start fun _ => '0').run []).cl
      (SendRun.Flows.run [] (SendRun.flows_start _)).block rfl ['x'] [] (by simp)
      (List.replicate 195 'a') 1 (fun _ => ⟨none, []⟩) (labelledRun_new _ _ _ _ _)).2.2
    rw [h, List.map_nil, if_neg hmuch] at hqueued
    exact (labelledLines_iff (by decide) (by decide) (by decide) hmuch
      fun l hl => absurd hl List.not_mem_nil).mp hqueued.symm

end SekurIRCd
