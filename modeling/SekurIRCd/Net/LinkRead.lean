/-
# Lines on a server link

A link is read up to 4096 bytes at a time.  What was read is put behind the unfinished line that is
left, the finished lines are handed to `link_process_line`, and the rest waits for the next read.

Three checks look for lines that are too long: the buffer's capacity before anything is parsed, each
finished line, and the unfinished one.  Where the reads end should not matter, but the first and the
last check see where they do: an unfinished line of 4096 bytes and a full read close a link whose
lines are all short enough, and so does a line of the longest length that is cut between its CR and
its LF (`linkFraming_iff`).
-/
import SekurIRCd.Lib.CString
import Mathlib.Data.List.DropRight

namespace SekurIRCd

open CLib

/-! ## 1. Reading

A link differs from a client in what is checked, and when: here lengths are compared also at the
end of a read. -/

/-- `LINK_BUF`. -/
def linkBuf : Nat := 8192

/-- What `read` returns at a time: something, and no more than it was given room for. -/
abbrev LinkChunk := {r : Text // r ≠ [] ∧ r.length ≤ 4096}

/-- A link, as far as reading from it goes: the unfinished line, the lines that were handed over,
and whether it is closing, and why. -/
structure LinkInput where
  rbuf : Text
  /-- The lines that `link_process_line` was called with. -/
  handed : List Text
  closing : Bool
  /-- It was closed because of a line that is too long. -/
  tooLong : Bool
deriving DecidableEq, Repr

namespace LinkInput

def start : LinkInput := ⟨[], [], false, false⟩

variable (s : LinkInput)

/-- The unfinished line that is left in the buffer. -/
def keepLine (line : Text) : LinkInput := { s with rbuf := line }

/-- `link_process_line` is called. -/
def hand (line : Text) : LinkInput := { s with handed := s.handed ++ [line] }

/-- `link_close`. -/
def close : LinkInput := { s with closing := true }

/-- `link_close`, behind the warning about a line that is too long. -/
def closeTooLong : LinkInput := { s with closing := true, tooLong := true }

end LinkInput

/-- A line without the CR in front of its LF. -/
def chopCr (line : Text) : Text := if line.getLast? = some '\r' then line.dropLast else line

/-- What `link_process_line` gets of a line. -/
def handedLine (line : Text) : Text := cString (chopCr line)

section Read

variable (maxLen : Nat) (keeps : List Text → Bool)

/-- The loop over the buffer; `line` is what the current line has so far.  `keeps` tells from the
lines that were handed over whether the last one leaves the link open. -/
def linkScan (s : LinkInput) (line : Text) : Text → LinkInput
  | [] => if maxLen ≤ line.length then (s.keepLine line).closeTooLong else s.keepLine line
  | c :: r =>
    if c = '\n' then
      if maxLen ≤ (chopCr line).length then s.closeTooLong
      else if keeps (s.hand (handedLine line)).handed then linkScan (s.hand (handedLine line)) [] r
      else (s.hand (handedLine line)).close
    else linkScan s (line ++ [c]) r

/-- `link_handle_readable_once`, with what was read; a link that is closing is not read. -/
def linkHandleReadable (s : LinkInput) (tmp : LinkChunk) : LinkInput :=
  if s.closing then s
  else if linkBuf ≤ s.rbuf.length + tmp.1.length then s.closeTooLong
  else linkScan maxLen keeps s [] (s.rbuf ++ tmp.1)

def linkReadAll (reads : List LinkChunk) : LinkInput :=
  reads.foldl (linkHandleReadable maxLen keeps) .start

end Read

/-! ## 2. What is sent

What a peer means to send are lines, and what it sends are bytes. How the bytes come to be cut into
reads is nobody's choice. -/

/-- A line as a peer sends it: behind it is CRLF, or just LF. A line that ends in a CR of its own
and has only LF behind it cannot be told from one with CRLF, and is left out. -/
structure LinkLine where
  text : Text
  crlf : Bool
  no_lf : '\n' ∉ text
  no_cr : crlf = false → text.getLast? ≠ some '\r'
deriving DecidableEq

/-- The line without its LF. -/
def LinkLine.body (l : LinkLine) : Text := if l.crlf then l.text ++ ['\r'] else l.text

/-- The line on the wire. -/
def LinkLine.wire (l : LinkLine) : Text := l.body ++ ['\n']

/-- The bytes of an unfinished line at the end. -/
def unfinished (s : Text) : Text := s.rtakeWhile (· ≠ '\n')

/-- The lines that are handed over, if one of them can end it. -/
def handedUntil (keeps : List Text → Bool) (handed : List Text) : List Text → List Text
  | [] => handed
  | l :: ls =>
    if keeps (handed ++ [l]) then handedUntil keeps (handed ++ [l]) ls else handed ++ [l]

/-- **The lines are framed**: whatever becomes of them, they are handed over in order, up to the one
that closes the link, and the link is not closed for length. -/
def Framed (maxLen : Nat) (lines : List LinkLine) (reads : List LinkChunk) : Prop :=
  ∀ keeps, (linkReadAll maxLen keeps reads).handed =
      handedUntil keeps [] (lines.map LinkLine.text) ∧
    (linkReadAll maxLen keeps reads).tooLong = false

/-- At each read there is room behind the unfinished line, and the one behind it is not too long.
This is about the reads, and about the lines only as far as they are cut by them. -/
def ReadsFit (maxLen : Nat) : Text → List LinkChunk → Prop
  | _, [] => True
  | before, r :: rs => (unfinished before).length + r.1.length < linkBuf ∧
      (unfinished (before ++ r.1)).length < maxLen ∧ ReadsFit maxLen (before ++ r.1) rs

/-! ## 3. Lines and what is left

A stream is its finished lines and a rest. Two streams of which one begins the other have their
first lines in common. -/

theorem unfinished_of_notMem {t : Text} (h : '\n' ∉ t) : unfinished t = t := by
  refine List.rtakeWhile_eq_self_iff.mpr fun c hc => ?_
  rw [decide_eq_true_eq]
  rintro rfl
  exact h hc

theorem unfinished_withLf (bs : List Text) {t : Text} (h : '\n' ∉ t) :
    unfinished (withLf bs ++ t) = t := by
  have hrev : ∀ c ∈ t.reverse, decide (c ≠ '\n') = true := by
    intro c hc
    rw [decide_eq_true_eq]
    rintro rfl
    exact h (List.mem_reverse.mp hc)
  rcases List.eq_nil_or_concat bs with rfl | ⟨init, b, rfl⟩
  · exact unfinished_of_notMem h
  · have hlast : withLf (init ++ [b]) = withLf init ++ b ++ ['\n'] := by
      rw [withLf_append, withLf_cons, withLf, withLf, List.flatMap_nil, List.append_assoc]
    rw [List.concat_eq_append, hlast, unfinished, List.rtakeWhile, List.reverse_append,
      List.reverse_append, List.takeWhile_append_of_pos hrev]
    simp

/-- Bytes are finished lines and an unfinished one. -/
theorem exists_withLf (s : Text) :
    ∃ bs t, s = withLf bs ++ t ∧ (∀ b ∈ bs, '\n' ∉ b) ∧ '\n' ∉ t := by
  induction s with
  | nil => exact ⟨[], [], rfl, fun b hb => absurd hb List.not_mem_nil, List.not_mem_nil⟩
  | cons c s ih =>
    obtain ⟨bs, t, rfl, hbs, ht⟩ := ih
    by_cases hc : c = '\n'
    · subst hc
      exact ⟨[] :: bs, t, by rw [withLf_cons]; rfl,
        List.forall_mem_cons.mpr ⟨List.not_mem_nil, hbs⟩, ht⟩
    · cases bs with
      | nil =>
        refine ⟨[], c :: t, rfl, hbs, ?_⟩
        rw [List.mem_cons, not_or]
        exact ⟨Ne.symm hc, ht⟩
      | cons b bs =>
        obtain ⟨hb, hbs⟩ := List.forall_mem_cons.mp hbs
        refine ⟨(c :: b) :: bs, t, by rw [withLf_cons, withLf_cons]; rfl, ?_, ht⟩
        refine List.forall_mem_cons.mpr ⟨?_, hbs⟩
        rw [List.mem_cons, not_or]
        exact ⟨Ne.symm hc, hb⟩

/-- Lines at the front of a text are the first of its lines. -/
theorem prefix_of_withLf {cs : List Text} (hcs : ∀ c ∈ cs, '\n' ∉ c) {bs : List Text}
    (hbs : ∀ b ∈ bs, '\n' ∉ b) {t rest : Text} (ht : '\n' ∉ t)
    (h : withLf bs ++ t = withLf cs ++ rest) : ∃ more, bs = cs ++ more ∧ rest = withLf more ++ t := by
  induction cs generalizing bs with
  | nil => exact ⟨bs, rfl, h.symm⟩
  | cons c cs ih =>
    obtain ⟨hc, hcs'⟩ := List.forall_mem_cons.mp hcs
    rw [withLf_cons, List.append_assoc] at h
    cases bs with
    | nil =>
      refine absurd ?_ ht
      have hmem : '\n' ∈ withLf [] ++ t := h ▸ List.mem_append_right _ List.mem_cons_self
      exact hmem
    | cons b bs =>
      obtain ⟨hb, hbs'⟩ := List.forall_mem_cons.mp hbs
      rw [withLf_cons, List.append_assoc] at h
      have hsame := congrArg (strchr '\n') h
      rw [List.cons_append, List.cons_append, strchr_append hb, strchr_append hc] at hsame
      obtain ⟨rfl, hrest⟩ := Prod.mk.inj (Option.some.inj hsame)
      obtain ⟨more, rfl, hmore⟩ := ih hcs' hbs' hrest
      exact ⟨more, rfl, hmore⟩

/-! ## 4. One read -/

section Read

variable {maxLen : Nat} {keeps : List Text → Bool}

/-- What becomes of finished lines. -/
def handLines (maxLen : Nat) (keeps : List Text → Bool) (s : LinkInput) : List Text → LinkInput
  | [] => s
  | b :: bs =>
    if maxLen ≤ (chopCr b).length then s.closeTooLong
    else if keeps (s.hand (handedLine b)).handed then
      handLines maxLen keeps (s.hand (handedLine b)) bs
    else (s.hand (handedLine b)).close

theorem linkScan_append {b : Text} (h : '\n' ∉ b) (s : LinkInput) (line r : Text) :
    linkScan maxLen keeps s line (b ++ r) = linkScan maxLen keeps s (line ++ b) r := by
  induction b generalizing line with
  | nil => rw [List.append_nil, List.nil_append]
  | cons c b ih =>
    obtain ⟨hc, hb⟩ := not_or.mp (mt List.mem_cons.mpr h)
    rw [List.cons_append, linkScan, if_neg (Ne.symm hc), ih hb, List.append_assoc,
      List.singleton_append]

/-- The end of a read: what is left of the buffer is an unfinished line. -/
def endRead (maxLen : Nat) (s : LinkInput) (t : Text) : LinkInput :=
  if s.closing = true then s
  else if maxLen ≤ t.length then (s.keepLine t).closeTooLong else s.keepLine t

/-- **The loop** hands over the finished lines and keeps the rest, if that is not too long. -/
theorem linkScan_withLf {bs : List Text} (hbs : ∀ b ∈ bs, '\n' ∉ b) {t : Text} (ht : '\n' ∉ t)
    {s : LinkInput} (hs : s.closing = false) : linkScan maxLen keeps s [] (withLf bs ++ t) =
      endRead maxLen (handLines maxLen keeps s bs) t := by
  induction bs generalizing s with
  | nil =>
    have hscan : linkScan maxLen keeps s [] (t ++ []) = linkScan maxLen keeps s t [] :=
      linkScan_append ht s [] []
    have hopen : ¬ s.closing = true := by
      rw [hs]
      exact Bool.false_ne_true
    rw [List.append_nil] at hscan
    rw [withLf, List.flatMap_nil, List.nil_append, hscan, linkScan, handLines, endRead,
      if_neg hopen]
  | cons b bs ih =>
    obtain ⟨hb, hrest⟩ := List.forall_mem_cons.mp hbs
    rw [withLf_cons, List.append_assoc, List.cons_append, linkScan_append hb, List.nil_append,
      linkScan, if_pos rfl, handLines]
    by_cases hlong : maxLen ≤ (chopCr b).length
    · rw [if_pos hlong, if_pos hlong]
      exact (if_pos rfl).symm
    · rw [if_neg hlong, if_neg hlong]
      by_cases hkeeps : keeps (s.hand (handedLine b)).handed = true
      · rw [if_pos hkeeps, if_pos hkeeps]
        exact ih hrest hs
      · rw [if_neg hkeeps, if_neg hkeeps]
        exact (if_pos rfl).symm

/-- Short lines are handed over, up to the one that closes the link. -/
theorem handLines_spec {bs : List Text} (hshort : ∀ b ∈ bs, (chopCr b).length < maxLen)
    (s : LinkInput) (hs : s.closing = false) (more : List Text) :
    (handLines maxLen keeps s bs).tooLong = s.tooLong ∧
      handedUntil keeps s.handed (bs.map handedLine ++ more) =
        if (handLines maxLen keeps s bs).closing = true then (handLines maxLen keeps s bs).handed
        else handedUntil keeps (handLines maxLen keeps s bs).handed more := by
  induction bs generalizing s with
  | nil =>
    refine ⟨rfl, (if_neg ?_).symm⟩
    rw [handLines, hs]
    exact Bool.false_ne_true
  | cons b bs ih =>
    obtain ⟨hb, hrest⟩ := List.forall_mem_cons.mp hshort
    rw [handLines, if_neg (Nat.not_le.mpr hb), List.map_cons, List.cons_append, handedUntil]
    have hhand : (s.hand (handedLine b)).handed = s.handed ++ [handedLine b] := rfl
    rw [hhand]
    by_cases hkeeps : keeps (s.handed ++ [handedLine b]) = true
    · rw [if_pos hkeeps, if_pos hkeeps]
      exact ih hrest (s.hand (handedLine b)) hs
    · rw [if_neg hkeeps, if_neg hkeeps]
      exact ⟨rfl, (if_pos rfl).symm⟩

/-- If the link stays open, all lines were short and were handed over. -/
theorem handLines_open {bs : List Text} {s : LinkInput}
    (h : (handLines maxLen keeps s bs).closing = false) :
    (∀ b ∈ bs, (chopCr b).length < maxLen) ∧
      (handLines maxLen keeps s bs).handed = s.handed ++ bs.map handedLine := by
  induction bs generalizing s with
  | nil => exact ⟨fun b hb => absurd hb List.not_mem_nil, (List.append_nil _).symm⟩
  | cons b bs ih =>
    rw [handLines] at h ⊢
    by_cases hlong : maxLen ≤ (chopCr b).length
    · rw [if_pos hlong] at h
      exact absurd h.symm Bool.false_ne_true
    · rw [if_neg hlong] at h ⊢
      by_cases hkeeps : keeps (s.hand (handedLine b)).handed = true
      · rw [if_pos hkeeps] at h ⊢
        obtain ⟨hshort, hhanded⟩ := ih h
        refine ⟨List.forall_mem_cons.mpr ⟨Nat.lt_of_not_le hlong, hshort⟩, ?_⟩
        rw [hhanded, LinkInput.hand, List.map_cons, List.append_assoc, List.singleton_append]
      · rw [if_neg hkeeps] at h
        exact absurd h.symm Bool.false_ne_true

/-! ## 5. All reads -/

/-- The bytes of some reads. -/
def readBytes (reads : List LinkChunk) : Text := (reads.map Subtype.val).flatten

theorem readBytes_cons (r : LinkChunk) (rs : List LinkChunk) :
    readBytes (r :: rs) = r.1 ++ readBytes rs := by
  rw [readBytes, List.map_cons, List.flatten_cons]
  rfl

theorem foldl_of_closing {s : LinkInput} (h : s.closing = true) (reads : List LinkChunk) :
    reads.foldl (linkHandleReadable maxLen keeps) s = s := by
  induction reads with
  | nil => rfl
  | cons r rs ih => rw [List.foldl_cons, linkHandleReadable, if_pos h, ih]

/-- One read of a link that is open, with its lines. -/
theorem linkHandleReadable_eq {s : LinkInput} (hs : s.closing = false) {r : LinkChunk}
    {bs : List Text} {t : Text} (hlines : s.rbuf ++ r.1 = withLf bs ++ t)
    (hbs : ∀ b ∈ bs, '\n' ∉ b) (ht : '\n' ∉ t) : linkHandleReadable maxLen keeps s r =
      if linkBuf ≤ s.rbuf.length + r.1.length then s.closeTooLong
      else endRead maxLen (handLines maxLen keeps s bs) t := by
  have hopen : ¬ s.closing = true := by
    rw [hs]
    exact Bool.false_ne_true
  rw [linkHandleReadable, if_neg hopen, hlines, linkScan_withLf hbs ht hs]

/-- **Reads that fit** hand over all lines, up to the one that closes the link. -/
theorem reads_framed {reads : List LinkChunk} {s : LinkInput} (hs : s.closing = false)
    (hlong : s.tooLong = false) {d bs : List Text} (hbs : ∀ b ∈ bs, '\n' ∉ b)
    (hshort : ∀ b ∈ bs, (chopCr b).length < maxLen) (hno : '\n' ∉ s.rbuf)
    (hlines : s.rbuf ++ readBytes reads = withLf bs)
    (hfit : ReadsFit maxLen (withLf d ++ s.rbuf) reads) :
    (reads.foldl (linkHandleReadable maxLen keeps) s).handed =
        handedUntil keeps s.handed (bs.map handedLine) ∧
      (reads.foldl (linkHandleReadable maxLen keeps) s).tooLong = false := by
  induction reads generalizing s d bs with
  | nil =>
    have hnil : bs = [] := by
      cases bs with
      | nil => rfl
      | cons b bs =>
        rw [readBytes, List.map_nil, List.flatten_nil, List.append_nil, withLf_cons] at hlines
        exact absurd (hlines ▸ List.mem_append_right b List.mem_cons_self) hno
    subst hnil
    exact ⟨rfl, hlong⟩
  | cons r rs ih =>
    obtain ⟨hroom, hleft, hfit⟩ := hfit
    obtain ⟨cs, t, hread, hcs, ht⟩ := exists_withLf (s.rbuf ++ r.1)
    rw [unfinished_withLf d hno] at hroom
    rw [List.append_assoc, hread, ← List.append_assoc, ← withLf_append] at hleft hfit
    rw [unfinished_withLf _ ht] at hleft
    have hwhole : withLf bs ++ [] = withLf cs ++ (t ++ readBytes rs) := by
      rw [List.append_nil, ← hlines, readBytes_cons, ← List.append_assoc, hread, List.append_assoc]
    obtain ⟨more, rfl, hmore⟩ := prefix_of_withLf hcs hbs List.not_mem_nil hwhole
    obtain ⟨hcshort, hmoreshort⟩ := List.forall_mem_append.mp hshort
    obtain ⟨hsame, hhanded⟩ := @handLines_spec maxLen keeps cs hcshort s hs (more.map handedLine)
    rw [List.foldl_cons, linkHandleReadable_eq hs hread hcs ht, if_neg (Nat.not_le.mpr hroom),
      List.map_append, hhanded, endRead]
    by_cases hclosing : (handLines maxLen keeps s cs).closing = true
    · rw [if_pos hclosing, if_pos hclosing, foldl_of_closing hclosing, hsame]
      exact ⟨rfl, hlong⟩
    · rw [if_neg hclosing, if_neg hclosing, if_neg (Nat.not_le.mpr hleft)]
      refine ih (s := (handLines maxLen keeps s cs).keepLine t) (d := d ++ cs)
        (Bool.eq_false_iff.mpr hclosing) (hsame.trans hlong)
        (List.forall_mem_append.mp hbs).2 hmoreshort ht ?_ hfit
      exact hmore.trans (List.append_nil _)

/-- **A link that stays open** had reads that fit, and all lines were short. -/
theorem reads_open {reads : List LinkChunk} {s : LinkInput} (hs : s.closing = false)
    {d : List Text} (hno : '\n' ∉ s.rbuf)
    (hopen : (reads.foldl (linkHandleReadable maxLen keeps) s).closing = false) :
    ReadsFit maxLen (withLf d ++ s.rbuf) reads ∧ ∃ bs t,
      s.rbuf ++ readBytes reads = withLf bs ++ t ∧ '\n' ∉ t ∧
      (∀ b ∈ bs, '\n' ∉ b ∧ (chopCr b).length < maxLen) ∧
      (reads.foldl (linkHandleReadable maxLen keeps) s).handed =
        s.handed ++ bs.map handedLine := by
  induction reads generalizing s d with
  | nil =>
    refine ⟨trivial, [], s.rbuf, List.append_nil _, hno, fun b hb => absurd hb List.not_mem_nil, ?_⟩
    exact (List.append_nil _).symm
  | cons r rs ih =>
    obtain ⟨cs, t, hread, hcs, ht⟩ := exists_withLf (s.rbuf ++ r.1)
    rw [List.foldl_cons, linkHandleReadable_eq hs hread hcs ht] at hopen ⊢
    by_cases hroom : linkBuf ≤ s.rbuf.length + r.1.length
    · rw [if_pos hroom, foldl_of_closing rfl] at hopen
      exact absurd hopen.symm Bool.false_ne_true
    · rw [if_neg hroom, endRead] at hopen ⊢
      by_cases hclosing : (handLines maxLen keeps s cs).closing = true
      · rw [if_pos hclosing, foldl_of_closing hclosing, hclosing] at hopen
        exact absurd hopen.symm Bool.false_ne_true
      · rw [if_neg hclosing] at hopen ⊢
        by_cases hleft : maxLen ≤ t.length
        · rw [if_pos hleft, foldl_of_closing rfl] at hopen
          exact absurd hopen.symm Bool.false_ne_true
        · rw [if_neg hleft] at hopen ⊢
          have hstill : (handLines maxLen keeps s cs).closing = false :=
            Bool.eq_false_iff.mpr hclosing
          obtain ⟨hshort, hhanded⟩ := handLines_open hstill
          obtain ⟨hfit, bs, t', hbytes, ht', hbs, hall⟩ :=
            ih (s := (handLines maxLen keeps s cs).keepLine t) (d := d ++ cs) hstill ht hopen
          refine ⟨⟨?_, ?_, ?_⟩, cs ++ bs, t', ?_, ht', ?_, ?_⟩
          · rw [unfinished_withLf d hno]
            exact Nat.lt_of_not_le hroom
          · rw [List.append_assoc, hread, ← List.append_assoc, ← withLf_append,
              unfinished_withLf _ ht]
            exact Nat.lt_of_not_le hleft
          · rw [List.append_assoc, hread, ← List.append_assoc, ← withLf_append]
            exact hfit
          · rw [readBytes_cons, ← List.append_assoc, hread, List.append_assoc, withLf_append,
              List.append_assoc]
            exact congrArg (withLf cs ++ ·) hbytes
          · exact List.forall_mem_append.mpr ⟨fun b hb => ⟨hcs b hb, hshort b hb⟩, hbs⟩
          · rw [hall, List.map_append, ← List.append_assoc]
            exact congrArg (· ++ bs.map handedLine) hhanded

/-- When no line ends the link, only a line that is too long does. -/
theorem closing_eq_tooLong (reads : List LinkChunk) {s : LinkInput} (h : s.closing = s.tooLong) :
    (reads.foldl (linkHandleReadable maxLen fun _ => true) s).closing =
      (reads.foldl (linkHandleReadable maxLen fun _ => true) s).tooLong := by
  have hscan : ∀ (rest line : Text) (s : LinkInput), s.closing = s.tooLong →
      (linkScan maxLen (fun _ => true) s line rest).closing =
        (linkScan maxLen (fun _ => true) s line rest).tooLong := by
    intro rest
    induction rest with
    | nil =>
      intro line s hs
      rw [linkScan]
      split
      · rfl
      · exact hs
    | cons c rest ih =>
      intro line s hs
      rw [linkScan]
      split
      · split
        · rfl
        · rw [if_pos rfl]
          exact ih [] (s.hand (handedLine line)) hs
      · exact ih (line ++ [c]) s hs
  induction reads generalizing s with
  | nil => exact h
  | cons r rs ih =>
    rw [List.foldl_cons]
    refine ih ?_
    rw [linkHandleReadable]
    split
    · exact h
    · split
      · rfl
      · exact hscan _ _ s h

theorem handedUntil_true (handed ls : List Text) :
    handedUntil (fun _ => true) handed ls = handed ++ ls := by
  induction ls generalizing handed with
  | nil => exact (List.append_nil handed).symm
  | cons l ls ih => rw [handedUntil, if_pos rfl, ih, List.append_assoc, List.singleton_append]

end Read

/-! ## 6. Lines of a peer

The lines of a peer have a CR or not, which matters only where a line is nearly too long. -/

theorem LinkLine.notMem_body (l : LinkLine) : '\n' ∉ l.body := by
  rw [LinkLine.body]
  split
  · intro h
    rcases List.mem_append.mp h with h | h
    · exact l.no_lf h
    · exact absurd (List.mem_singleton.mp h) (by decide)
  · exact l.no_lf

/-- The CR in front of the LF is no part of the line. -/
theorem LinkLine.chopCr_body (l : LinkLine) : chopCr l.body = l.text := by
  rw [LinkLine.body, chopCr]
  cases hcrlf : l.crlf with
  | true => rw [if_pos rfl, if_pos (List.getLast?_concat ..), List.dropLast_concat]
  | false => rw [if_neg Bool.false_ne_true, if_neg (l.no_cr hcrlf)]

theorem flatMap_wire (lines : List LinkLine) :
    lines.flatMap LinkLine.wire = withLf (lines.map LinkLine.body) := by
  rw [withLf, List.flatMap_map]
  rfl

theorem notMem_bodies (lines : List LinkLine) : ∀ b ∈ lines.map LinkLine.body, '\n' ∉ b := by
  intro b hb
  obtain ⟨l, -, rfl⟩ := List.mem_map.mp hb
  exact l.notMem_body

theorem chopCr_bodies (lines : List LinkLine) :
    (lines.map LinkLine.body).map handedLine = lines.map fun l => cString l.text := by
  rw [List.map_map]
  refine List.map_congr_left fun l _ => ?_
  exact congrArg cString l.chopCr_body

theorem map_cString_eq {lines : List LinkLine} :
    (lines.map fun l => cString l.text) = lines.map LinkLine.text ↔
      ∀ l ∈ lines, '\x00' ∉ l.text :=
  List.map_inj_left.trans (forall₂_congr fun _ _ => cString_eq_self)

/-- What was read of some lines is the first of them, and a part of the next one. -/
theorem lines_of_prefix {bs : List Text} (hbs : ∀ b ∈ bs, '\n' ∉ b) {read rest : Text}
    (h : read ++ rest = withLf bs) : ∃ cs t more, read = withLf cs ++ t ∧ '\n' ∉ t ∧
      bs = cs ++ more ∧ t ++ rest = withLf more := by
  obtain ⟨cs, t, rfl, hcs, ht⟩ := exists_withLf read
  have hwhole : withLf bs ++ [] = withLf cs ++ (t ++ rest) := by
    rw [List.append_nil, ← h, List.append_assoc]
  obtain ⟨more, hmore, hrest⟩ := prefix_of_withLf hcs hbs List.not_mem_nil hwhole
  exact ⟨cs, t, more, rfl, ht, hmore, hrest.trans (List.append_nil _)⟩

/-- An unfinished line is no longer than the line will be. -/
theorem unfinished_length_lt {maxLen : Nat} (hpos : 1 ≤ maxLen) {bs : List Text}
    (hbs : ∀ b ∈ bs, '\n' ∉ b) (hshort : ∀ b ∈ bs, b.length < maxLen) {read rest : Text}
    (h : read ++ rest = withLf bs) : (unfinished read).length < maxLen := by
  obtain ⟨cs, t, more, rfl, ht, rfl, hmore⟩ := lines_of_prefix hbs h
  rw [unfinished_withLf cs ht]
  cases more with
  | nil =>
    rw [(List.append_eq_nil_iff.mp hmore).1]
    exact hpos
  | cons b more =>
    have hb : '\n' ∉ b := hbs b (List.mem_append_right cs List.mem_cons_self)
    have hlen : t.length ≤ b.length := by
      by_contra hlt
      rw [withLf_cons] at hmore
      have hget := congrArg (·[b.length]?) hmore
      rw [List.getElem?_append_left (Nat.lt_of_not_le hlt), List.getElem?_append_right le_rfl,
        Nat.sub_self] at hget
      exact ht (List.mem_of_getElem? hget)
    exact lt_of_le_of_lt hlen (hshort b (List.mem_append_right cs List.mem_cons_self))

/-- **Small limits**: where no line reaches the limit even with its CR, and the limit is no more
than one read, any reads fit. -/
theorem readsFit_of_small {maxLen : Nat} (hpos : 1 ≤ maxLen) (hmax : maxLen ≤ 4096)
    {bs : List Text} (hbs : ∀ b ∈ bs, '\n' ∉ b) (hshort : ∀ b ∈ bs, b.length < maxLen)
    (reads : List LinkChunk) {before : Text} (h : before ++ readBytes reads = withLf bs) :
    ReadsFit maxLen before reads := by
  induction reads generalizing before with
  | nil => exact trivial
  | cons r rs ih =>
    have hbefore : (unfinished before).length < maxLen := unfinished_length_lt hpos hbs hshort h
    rw [readBytes_cons, ← List.append_assoc] at h
    refine ⟨?_, unfinished_length_lt hpos hbs hshort h, ih h⟩
    have hr := r.2.2
    rw [linkBuf]
    omega

/-! ## 7. Where the reads end -/

section Framing

variable {maxLen : Nat} {lines : List LinkLine} {reads : List LinkChunk}

/-- A link that no line ends, and that is not closed for length, has handed over all lines. -/
theorem handed_of_open (hreads : readBytes reads = lines.flatMap LinkLine.wire)
    (hopen : (linkReadAll maxLen (fun _ => true) reads).closing = false) :
    ReadsFit maxLen [] reads ∧ (linkReadAll maxLen (fun _ => true) reads).handed =
      lines.map fun l => cString l.text := by
  obtain ⟨hfit, bs, t, hbytes, ht, hbs, hhanded⟩ :=
    reads_open (s := .start) (d := []) rfl List.not_mem_nil hopen
  refine ⟨hfit, ?_⟩
  have hwhole : withLf bs ++ t ++ [] = withLf (lines.map LinkLine.body) := by
    rw [List.append_nil, ← hbytes, ← flatMap_wire, ← hreads]
    rfl
  rw [List.append_assoc] at hwhole
  obtain ⟨more, hmore, hrest⟩ := prefix_of_withLf (fun b hb => (hbs b hb).1)
    (notMem_bodies lines) List.not_mem_nil ((List.append_nil _).trans hwhole.symm)
  have hnil : more = [] := by
    cases more with
    | nil => rfl
    | cons b more =>
      rw [List.append_nil, List.append_nil, withLf_cons] at hrest
      exact absurd (hrest ▸ List.mem_append_right b List.mem_cons_self) ht
  rw [hnil, List.append_nil] at hmore
  rw [← chopCr_bodies, hmore]
  exact hhanded

theorem readsFit_of_framed (hreads : readBytes reads = lines.flatMap LinkLine.wire)
    (h : Framed maxLen lines reads) :
    ReadsFit maxLen [] reads ∧ ∀ l ∈ lines, '\x00' ∉ l.text := by
  obtain ⟨hhanded, hlong⟩ := h fun _ => true
  have hopen : (linkReadAll maxLen (fun _ => true) reads).closing = false :=
    (closing_eq_tooLong reads rfl).trans hlong
  obtain ⟨hfit, hall⟩ := handed_of_open hreads hopen
  rw [handedUntil_true, List.nil_append] at hhanded
  exact ⟨hfit, map_cString_eq.mp (hall.symm.trans hhanded)⟩

/-- **Framing**: lines that are short enough are framed exactly when the reads fit and no line has
a NUL; a line that is not short enough always closes the link. Whether the reads fit depends on
where the stream is cut, since a piece of a line is held until its end comes. -/
theorem linkFraming_iff (maxLen : Nat) (keeps : List Text → Bool) :
    (∀ (lines : List LinkLine) (reads : List LinkChunk), (∀ l ∈ lines, l.text.length < maxLen) →
      readBytes reads = lines.flatMap LinkLine.wire →
      (Framed maxLen lines reads ↔
        ReadsFit maxLen [] reads ∧ ∀ l ∈ lines, '\x00' ∉ l.text)) ∧
    ∀ (lines : List LinkLine) (rest : Text) (reads : List LinkChunk),
      (∃ l ∈ lines, maxLen ≤ l.text.length) →
      readBytes reads = lines.flatMap LinkLine.wire ++ rest →
      (linkReadAll maxLen keeps reads).closing = true := by
  constructor
  · intro lines reads hshort hreads
    refine ⟨readsFit_of_framed hreads, fun h keeps => ?_⟩
    have hbodies : ∀ b ∈ lines.map LinkLine.body, (chopCr b).length < maxLen := by
      intro b hb
      obtain ⟨l, hl, rfl⟩ := List.mem_map.mp hb
      rw [l.chopCr_body]
      exact hshort l hl
    have hbytes : LinkInput.start.rbuf ++ readBytes reads = withLf (lines.map LinkLine.body) :=
      hreads.trans (flatMap_wire lines)
    have hall := @reads_framed maxLen keeps reads .start rfl rfl [] _
      (notMem_bodies lines) hbodies List.not_mem_nil hbytes h.1
    rw [chopCr_bodies, map_cString_eq.mpr h.2] at hall
    exact hall
  · rintro lines rest reads ⟨l, hl, hlong⟩ hreads
    by_contra hclosing
    obtain ⟨-, bs, t, hbytes, ht, hbs, -⟩ := reads_open (s := .start) (d := [])
      rfl List.not_mem_nil (Bool.eq_false_iff.mpr hclosing)
    have hwhole : withLf bs ++ t = withLf (lines.map LinkLine.body) ++ rest := by
      rw [← hbytes, ← flatMap_wire, ← hreads]
      rfl
    obtain ⟨more, rfl, -⟩ := prefix_of_withLf (notMem_bodies lines) (fun b hb => (hbs b hb).1) ht
      hwhole
    have hmem : l.body ∈ lines.map LinkLine.body ++ more :=
      List.mem_append_left more (List.mem_map_of_mem hl)
    have hshort := (hbs l.body hmem).2
    rw [l.chopCr_body] at hshort
    exact absurd hlong (Nat.not_le.mpr hshort)

/-- Two lines in four reads: the first is cut in its text and before its LF, the second, which ends
in a LF alone, in its text.  Where four bytes are the limit, the first closes the link. -/
theorem linkFraming_iff_ping :
    Framed 8 [⟨['P', 'I', 'N', 'G'], true, by decide, by decide⟩,
        ⟨['S', 'I', 'D'], false, by decide, by decide⟩]
      [⟨['P', 'I'], by decide⟩, ⟨['N', 'G', '\r'], by decide⟩, ⟨['\n', 'S', 'I'], by decide⟩,
        ⟨['D', '\n'], by decide⟩] ∧
    (linkReadAll 4 (fun _ => true) [⟨['P', 'I'], by decide⟩, ⟨['N', 'G', '\r'], by decide⟩,
      ⟨['\n', 'S', 'I'], by decide⟩]).closing = true := by
  constructor
  · refine ((linkFraming_iff 8 fun _ => true).1 _ _ (by decide) (by decide)).mpr ⟨?_, by decide⟩
    exact ⟨by decide, by decide, by decide, by decide, by decide, by decide, by decide, by decide,
      trivial⟩
  · exact (linkFraming_iff 4 fun _ => true).2
      [⟨['P', 'I', 'N', 'G'], true, by decide, by decide⟩] ['S', 'I'] _ (by decide) (by decide)

/-- **Two full reads**: a line of half the buffer and more is closed on when it is cut in the
middle, since the second read has no room. -/
theorem fullReads_not_framed {a b : Text} (ha : '\n' ∉ a) (hb : '\n' ∉ b)
    (hfirst : a ≠ [] ∧ a.length ≤ 4096)
    (hsecond : b ++ ['\r', '\n'] ≠ [] ∧ (b ++ ['\r', '\n']).length ≤ 4096)
    (hfull : linkBuf ≤ a.length + (b ++ ['\r', '\n']).length) :
    ∃ (lines : List LinkLine) (reads : List LinkChunk), lines.map LinkLine.text = [a ++ b] ∧
      readBytes reads = lines.flatMap LinkLine.wire ∧ ¬ Framed linkBuf lines reads := by
  have hno : '\n' ∉ a ++ b := fun h => (List.mem_append.mp h).elim ha hb
  refine ⟨[⟨a ++ b, true, hno, fun h => absurd h.symm Bool.false_ne_true⟩], [⟨a, hfirst⟩,
    ⟨b ++ ['\r', '\n'], hsecond⟩], rfl, ?_⟩
  have hreads : readBytes [⟨a, hfirst⟩, ⟨b ++ ['\r', '\n'], hsecond⟩] = [(⟨a ++ b, true, hno,
      fun h => absurd h.symm Bool.false_ne_true⟩ : LinkLine)].flatMap LinkLine.wire := by
    rw [List.flatMap_singleton, LinkLine.wire, LinkLine.body, if_pos rfl, readBytes]
    simp
  refine ⟨hreads, fun h => ?_⟩
  obtain ⟨⟨-, -, hroom, -⟩, -⟩ := readsFit_of_framed hreads h
  rw [List.nil_append, unfinished_of_notMem ha] at hroom
  exact absurd hfull (Nat.not_le.mpr hroom)

/-- A line of 8190 bytes, under the limit of 8192, read in two halves. -/
theorem fullReads_longest : ∃ (lines : List LinkLine) (reads : List LinkChunk),
    (∀ l ∈ lines, l.text.length < linkBuf) ∧ readBytes reads = lines.flatMap LinkLine.wire ∧
    ¬ Framed linkBuf lines reads := by
  have hno : ∀ n, '\n' ∉ List.replicate n 'a' := fun n h =>
    absurd (List.eq_of_mem_replicate h) (by decide)
  have hlen : (List.replicate 4094 'a' ++ ['\r', '\n']).length = 4096 := by
    rw [List.length_append, List.length_replicate]
    rfl
  obtain ⟨lines, reads, htext, hreads, hframed⟩ := fullReads_not_framed (hno 4096) (hno 4094)
    ⟨List.cons_ne_nil _ _, List.length_replicate.le⟩
    ⟨List.append_ne_nil_of_right_ne_nil _ (List.cons_ne_nil _ _), hlen.le⟩
    (by rw [hlen, List.length_replicate, linkBuf])
  refine ⟨lines, reads, fun l hl => ?_, hreads, hframed⟩
  have hmem := List.mem_map_of_mem (f := LinkLine.text) hl
  rw [htext] at hmem
  rw [List.mem_singleton.mp hmem, List.length_append, List.length_replicate,
    List.length_replicate, linkBuf]
  decide

end Framing

end SekurIRCd
