/-
# Lines of a client

`read_client_once` reads up to 4096 bytes, puts them behind the unfinished line that is left and
hands the finished lines to flood accounting and dispatch.  The buffer doubles as it needs to, up to
64 KiB, and goes back to 1 KiB when it is empty.  Two limits are looked at when a line is finished:
the tag section has one of its own, and `max_line_length` is for the rest.  A line over its limit is
answered and dropped, and the connection goes on.

Unlike on a link (`Net/LinkRead.lean`) nothing depends on where the reads end: as long as no line is
60000 bytes long, what becomes of each is decided by the line alone (`client_framing`).
-/
import SekurIRCd.Lib.ByteQueue
import SekurIRCd.Net.LinkRead

namespace SekurIRCd

open CLib

/-! ## 1. Reading

A line is finished when its LF comes, and its fate is decided then. What follows it in the same
read is looked at only if the connection is still open. -/

/-- `RBUF_START`. -/
def rbufStart : Nat := 1024

/-- `RECVQ_MAX`. -/
def recvqMax : Nat := 65536

/-- `security.max_line_length` of a configuration that loads. -/
abbrev LineLimit := {m : Nat // 1 ≤ m ∧ m ≤ 8192}

/-- `maxlen`: the limit counts the CRLF. -/
def LineLimit.maxlen (limit : LineLimit) : Nat := if limit.1 > 2 then limit.1 - 2 else 0

/-- What becomes of a finished line. There is no third possibility: none is dropped without a word,
and none is handed on in part. -/
inductive LineFate
  /-- It goes to `net_flood_charge`, and from there to `irc_parse_line` and `cmd_dispatch`. -/
  | handed (line : Text)
  /-- "Input line was too long". -/
  | refused
deriving DecidableEq, Repr

/-- `tagsec`: what a line has up to its first space, if it begins with tags. -/
def tagsec (line : Text) : Nat :=
  if line.head? = some '@' then
    if ' ' ∈ line then (line.takeWhile (· ≠ ' ')).length + 1 else line.length
  else 0

/-- The two checks of a finished line: the tags and the rest have a budget each. -/
def OverLimit (limit : LineLimit) (line : Text) : Prop :=
  8191 + 1 < tagsec line ∨ limit.maxlen < line.length - tagsec line

instance (limit : LineLimit) (line : Text) : Decidable (OverLimit limit line) :=
  inferInstanceAs (Decidable (_ ∨ _))

/-- The fate of a line without its CR. -/
def lineFate (limit : LineLimit) (line : Text) : LineFate :=
  if OverLimit limit line then .refused else .handed (cString line)

/-- A client, as far as reading from it goes: its buffer and the size of that, what became of its
lines, and whether it is being disconnected. -/
structure ClientInput where
  rbuf : Text
  cap : Nat
  /-- What became of the finished lines. -/
  fates : List LineFate
  quitting : Bool
  /-- It was closed with "Input line too long". -/
  tooLong : Bool
deriving DecidableEq, Repr

def ClientInput.start : ClientInput := ⟨[], rbufStart, [], false, false⟩

/-- `client_buf_shrink` on the receive buffer, which has `len` bytes in it. -/
def rbufShrink (len cap : Nat) : Nat := if 0 < len ∨ cap ≤ rbufStart then cap else rbufStart

section Read

variable (limit : LineLimit) (keeps : List LineFate → Bool)

/-- One finished line.  `keeps` tells from what became of the lines so far whether the last one left
the connection open. -/
def ClientInput.finish (s : ClientInput) (line : Text) : ClientInput :=
  if s.quitting then s
  else
    let fates := s.fates ++ [lineFate limit line]
    { s with fates := fates, quitting := !keeps fates }

/-- The loop over the buffer; `line` is what the current line has so far. -/
def clientScan (s : ClientInput) (line : Text) : Text → ClientInput
  | [] => { s with rbuf := line }
  | c :: r =>
    if c = '\n' then clientScan (s.finish limit keeps (chopCr line)) [] r
    else clientScan s (line ++ [c]) r

/-- `read_client_once`, with what was read, on a connection that expects no PROXY header. One that
is quitting is not read. The buffer grows before the bytes are copied into it, and a line too long
for any buffer ends the connection. -/
def readClientOnce (s : ClientInput) (tmp : LinkChunk) : ClientInput :=
  if s.quitting then s
  else
    let newcap := ByteQueue.doubled (s.rbuf.length + tmp.1.length + 1) s.cap
    if recvqMax < newcap then { s with quitting := true, tooLong := true }
    else
      let s := clientScan limit keeps { s with cap := newcap } [] (s.rbuf ++ tmp.1)
      { s with cap := rbufShrink s.rbuf.length s.cap }

def readClientAll (reads : List LinkChunk) : ClientInput :=
  reads.foldl (readClientOnce limit keeps) .start

end Read

/-! ## 2. The buffer

The buffer has one of seven sizes. It is never full, so a line that has no LF yet can go on. -/

/-- The sizes the buffer can have. -/
def BufSize (cap : Nat) : Prop := ∃ k ≤ 6, cap = rbufStart * 2 ^ k

theorem bufSize_start : BufSize rbufStart := ⟨0, Nat.zero_le _, rfl⟩

theorem BufSize.le {cap : Nat} (h : BufSize cap) : cap ≤ recvqMax := by
  obtain ⟨k, hk, rfl⟩ := h
  exact (Nat.mul_le_mul_left rbufStart (Nat.pow_le_pow_right (by decide) hk)).trans (by decide)

theorem doubledFuel_bufSize {need : Nat} (hneed : need ≤ recvqMax) : ∀ (fuel : Nat) {cap : Nat},
    BufSize cap → BufSize (ByteQueue.doubledFuel need fuel cap)
  | 0, _, h => h
  | fuel + 1, cap, h => by
    rw [ByteQueue.doubledFuel]
    split
    · refine doubledFuel_bufSize hneed fuel ?_
      obtain ⟨k, hk, rfl⟩ := h
      refine ⟨k + 1, ?_, by rw [Nat.pow_succ, Nat.mul_assoc]⟩
      have hne : k ≠ 6 := by
        rintro rfl
        have : rbufStart * 2 ^ 6 = recvqMax := by decide
        omega
      omega
    · exact h

/-- As long as what is needed is within the cap, doubling stays within it. -/
theorem doubled_bufSize {cap need : Nat} (h : BufSize cap) (hneed : need ≤ recvqMax) :
    BufSize (ByteQueue.doubled need cap) :=
  doubledFuel_bufSize hneed need h

theorem rbufShrink_bufSize {cap : Nat} (h : BufSize cap) (len : Nat) :
    BufSize (rbufShrink len cap) := by
  unfold rbufShrink
  split
  · exact h
  · exact bufSize_start

/-- The unfinished line that is left still has room in the buffer. -/
theorem lt_rbufShrink {cap len : Nat} (h : len < cap) : len < rbufShrink len cap := by
  unfold rbufShrink
  split
  · exact h
  · rename_i hno
    have : rbufStart = 1024 := rfl
    omega

/-! ## 3. One read -/

section Read

variable {limit : LineLimit} {keeps : List LineFate → Bool}

/-- What becomes of finished lines. -/
def ClientInput.finishAll (limit : LineLimit) (keeps : List LineFate → Bool) (s : ClientInput)
    (bs : List Text) : ClientInput := bs.foldl (fun s b => s.finish limit keeps (chopCr b)) s

/-- Another buffer. -/
def ClientInput.withBuf (s : ClientInput) (rbuf : Text) (cap : Nat) : ClientInput :=
  ⟨rbuf, cap, s.fates, s.quitting, s.tooLong⟩

/-- What becomes of lines, if one of them can end the connection. -/
def fatesUntil (keeps : List LineFate → Bool) (before : List LineFate) :
    List LineFate → List LineFate
  | [] => before
  | f :: fs => if keeps (before ++ [f]) then fatesUntil keeps (before ++ [f]) fs else before ++ [f]

theorem clientScan_append {b : Text} (h : '\n' ∉ b) (s : ClientInput) (line r : Text) :
    clientScan limit keeps s line (b ++ r) = clientScan limit keeps s (line ++ b) r := by
  induction b generalizing line with
  | nil => rw [List.append_nil, List.nil_append]
  | cons c b ih =>
    obtain ⟨hc, hb⟩ := not_or.mp (mt List.mem_cons.mpr h)
    rw [List.cons_append, clientScan, if_neg (Ne.symm hc), ih hb, List.append_assoc,
      List.singleton_append]

/-- **The loop** finishes the lines and keeps the rest. -/
theorem clientScan_withLf {bs : List Text} (hbs : ∀ b ∈ bs, '\n' ∉ b) {t : Text} (ht : '\n' ∉ t)
    (s : ClientInput) : clientScan limit keeps s [] (withLf bs ++ t) =
      (s.finishAll limit keeps bs).withBuf t (s.finishAll limit keeps bs).cap := by
  induction bs generalizing s with
  | nil =>
    have hscan : clientScan limit keeps s [] (t ++ []) = clientScan limit keeps s t [] :=
      clientScan_append ht s [] []
    rw [List.append_nil] at hscan
    rw [withLf, List.flatMap_nil, List.nil_append, hscan]
    rfl
  | cons b bs ih =>
    obtain ⟨hb, hrest⟩ := List.forall_mem_cons.mp hbs
    rw [withLf_cons, List.append_assoc, List.cons_append, clientScan_append hb, List.nil_append,
      clientScan, if_pos rfl, ih hrest]
    rfl

theorem finish_of_quitting {s : ClientInput} (h : s.quitting = true) (line : Text) :
    s.finish limit keeps line = s := if_pos h

theorem finishAll_of_quitting {s : ClientInput} (h : s.quitting = true) (bs : List Text) :
    s.finishAll limit keeps bs = s := by
  induction bs with
  | nil => rfl
  | cons b bs ih => rw [ClientInput.finishAll, List.foldl_cons, finish_of_quitting h]; exact ih

/-- The buffer does not matter to what becomes of the lines. -/
theorem finishAll_withBuf (bs : List Text) (s : ClientInput) (rbuf : Text) (cap : Nat) :
    (s.withBuf rbuf cap).finishAll limit keeps bs =
      (s.finishAll limit keeps bs).withBuf rbuf cap := by
  induction bs generalizing s with
  | nil => rfl
  | cons b bs ih =>
    have hone : (s.withBuf rbuf cap).finish limit keeps (chopCr b) =
        (s.finish limit keeps (chopCr b)).withBuf rbuf cap := by
      by_cases h : s.quitting = true
      · have h' : (s.withBuf rbuf cap).quitting = true := h
        rw [finish_of_quitting h, finish_of_quitting h']
      · rw [ClientInput.finish, ClientInput.finish, if_neg h,
          if_neg (show ¬ (s.withBuf rbuf cap).quitting = true from h)]
        rfl
    rw [ClientInput.finishAll, ClientInput.finishAll, List.foldl_cons, List.foldl_cons, hone]
    exact ih (s.finish limit keeps (chopCr b))

/-- No finished line closes the connection for length. -/
theorem finishAll_tooLong (bs : List Text) (s : ClientInput) :
    (s.finishAll limit keeps bs).tooLong = s.tooLong := by
  induction bs generalizing s with
  | nil => rfl
  | cons b bs ih =>
    refine (ih (s.finish limit keeps (chopCr b))).trans ?_
    unfold ClientInput.finish
    split <;> rfl

/-- The lines of one read meet their fates, up to the one that ends the connection. -/
theorem finishAll_spec (bs : List Text) {s : ClientInput} (hs : s.quitting = false)
    (more : List LineFate) :
    fatesUntil keeps s.fates (bs.map (fun b => lineFate limit (chopCr b)) ++ more) =
      if (s.finishAll limit keeps bs).quitting = true then (s.finishAll limit keeps bs).fates
      else fatesUntil keeps (s.finishAll limit keeps bs).fates more := by
  induction bs generalizing s with
  | nil =>
    refine (if_neg ?_).symm
    rw [ClientInput.finishAll, List.foldl_nil, hs]
    exact Bool.false_ne_true
  | cons b bs ih =>
    have hfinish : s.finish limit keeps (chopCr b) =
        { s with fates := s.fates ++ [lineFate limit (chopCr b)]
                 quitting := !keeps (s.fates ++ [lineFate limit (chopCr b)]) } :=
      if_neg (by rw [hs]; exact Bool.false_ne_true)
    rw [ClientInput.finishAll, List.foldl_cons, hfinish, List.map_cons, List.cons_append,
      fatesUntil]
    cases hkeeps : keeps (s.fates ++ [lineFate limit (chopCr b)]) with
    | true => exact ih (s := { s with fates := _, quitting := !true }) rfl
    | false =>
      have hquit := @finishAll_of_quitting limit keeps
        { s with fates := s.fates ++ [lineFate limit (chopCr b)], quitting := !false } rfl bs
      rw [ClientInput.finishAll] at hquit
      rw [hquit]
      rfl

/-! ## 4. All reads -/

theorem foldl_of_quitting {s : ClientInput} (h : s.quitting = true) (reads : List LinkChunk) :
    reads.foldl (readClientOnce limit keeps) s = s := by
  induction reads with
  | nil => rfl
  | cons r rs ih => rw [List.foldl_cons, readClientOnce, if_pos h, ih]

/-- A read of a connection that is open, with its lines, while it has room. -/
theorem readClientOnce_eq {s : ClientInput} (hs : s.quitting = false) (hcap : BufSize s.cap)
    {r : LinkChunk} (hroom : s.rbuf.length + r.1.length + 1 ≤ recvqMax) {bs : List Text} {t : Text}
    (hlines : s.rbuf ++ r.1 = withLf bs ++ t) (hbs : ∀ b ∈ bs, '\n' ∉ b) (ht : '\n' ∉ t) :
    ∃ cap, BufSize cap ∧
      readClientOnce limit keeps s r = (s.finishAll limit keeps bs).withBuf t cap := by
  have hnew := doubled_bufSize hcap hroom
  have hopen : ¬ s.quitting = true := by
    rw [hs]
    exact Bool.false_ne_true
  have hscan := @clientScan_withLf limit keeps bs hbs t ht
    (s.withBuf s.rbuf (ByteQueue.doubled (s.rbuf.length + r.1.length + 1) s.cap))
  rw [finishAll_withBuf] at hscan
  refine ⟨_, rbufShrink_bufSize hnew t.length, ?_⟩
  rw [readClientOnce, if_neg hopen]
  simp only [if_neg (Nat.not_lt.mpr hnew.le), hlines]
  rw [ClientInput.withBuf] at hscan
  rw [hscan]
  rfl

theorem clientScan_frame (r : Text) (s : ClientInput) (line : Text) :
    (clientScan limit keeps s line r).cap = s.cap ∧
      (clientScan limit keeps s line r).rbuf.length ≤ line.length + r.length := by
  induction r generalizing s line with
  | nil => exact ⟨rfl, le_refl _⟩
  | cons c r ih =>
    rw [clientScan]
    split
    · obtain ⟨hcap, hlen⟩ := ih (s.finish limit keeps (chopCr line)) []
      have hsame : (s.finish limit keeps (chopCr line)).cap = s.cap := by
        unfold ClientInput.finish
        split <;> rfl
      rw [List.length_nil] at hlen
      exact ⟨hcap.trans hsame, by rw [List.length_cons]; omega⟩
    · obtain ⟨hcap, hlen⟩ := ih s (line ++ [c])
      rw [List.length_append, List.length_singleton] at hlen
      exact ⟨hcap, by rw [List.length_cons]; omega⟩

/-- **The buffer holds what is in it**, with a byte to spare, whatever was sent. -/
theorem readClientAll_fits (reads : List LinkChunk) {s : ClientInput} (h : s.rbuf.length < s.cap) :
    (reads.foldl (readClientOnce limit keeps) s).rbuf.length <
      (reads.foldl (readClientOnce limit keeps) s).cap := by
  induction reads generalizing s with
  | nil => exact h
  | cons r rs ih =>
    rw [List.foldl_cons]
    refine ih ?_
    rw [readClientOnce]
    split
    · exact h
    · simp only
      split
      · exact h
      · have hroom := @ByteQueue.le_doubled (s.rbuf.length + r.1.length + 1) s.cap
          (Nat.zero_lt_of_lt h)
        obtain ⟨hcap, hlen⟩ := @clientScan_frame limit keeps (s.rbuf ++ r.1)
          { s with cap := ByteQueue.doubled (s.rbuf.length + r.1.length + 1) s.cap } []
        rw [List.length_nil, List.length_append] at hlen
        refine lt_rbufShrink ?_
        rw [hcap]
        exact Nat.lt_of_succ_le ((Nat.succ_le_succ hlen).trans (by simpa using hroom))

/-- **All reads.**  While no line is too long for the buffer, each meets its fate, up to the one
that ends the connection. -/
theorem reads_fates {reads : List LinkChunk} {s : ClientInput} (hs : s.quitting = false)
    (hlong : s.tooLong = false) (hcap : BufSize s.cap) {bs : List Text} (hbs : ∀ b ∈ bs, '\n' ∉ b)
    (hshort : ∀ b ∈ bs, b.length + 1 < 60000) (hno : '\n' ∉ s.rbuf)
    (hlines : s.rbuf ++ readBytes reads = withLf bs) :
    (reads.foldl (readClientOnce limit keeps) s).fates =
        fatesUntil keeps s.fates (bs.map fun b => lineFate limit (chopCr b)) ∧
      (reads.foldl (readClientOnce limit keeps) s).tooLong = false := by
  induction reads generalizing s bs with
  | nil =>
    have hnil : bs = [] := by
      cases bs with
      | nil => rfl
      | cons b bs =>
        rw [readBytes, List.map_nil, List.flatten_nil, List.append_nil, withLf_cons] at hlines
        exact absurd (hlines ▸ List.mem_append_right b List.mem_cons_self) hno
    subst hnil
    exact ⟨rfl, hlong⟩
  | cons r rs ih =>
    have hrest : s.rbuf.length < 60000 := by
      have := unfinished_length_lt (by decide) hbs
        (fun b hb => Nat.lt_of_succ_lt (hshort b hb)) hlines
      rwa [unfinished_of_notMem hno] at this
    have hroom : s.rbuf.length + r.1.length + 1 ≤ recvqMax := by
      have := r.2.2
      have : recvqMax = 65536 := rfl
      omega
    rw [readBytes_cons, ← List.append_assoc] at hlines
    obtain ⟨cs, t, more, hread, ht, rfl, hmore⟩ := lines_of_prefix hbs hlines
    obtain ⟨hcs, hmorelf⟩ := List.forall_mem_append.mp hbs
    obtain ⟨cap, hcap', hstep⟩ := readClientOnce_eq hs hcap hroom hread hcs ht
    rw [List.foldl_cons, hstep, List.map_append,
      finishAll_spec cs hs (more.map fun b => lineFate limit (chopCr b))]
    have hsame := @finishAll_tooLong limit keeps cs s
    by_cases hquit : (s.finishAll limit keeps cs).quitting = true
    · have hquit' : ((s.finishAll limit keeps cs).withBuf t cap).quitting = true := hquit
      rw [if_pos hquit, foldl_of_quitting hquit']
      exact ⟨rfl, hsame.trans hlong⟩
    · rw [if_neg hquit]
      exact ih (s := (s.finishAll limit keeps cs).withBuf t cap)
        (Bool.eq_false_iff.mpr hquit) (hsame.trans hlong) hcap' hmorelf
        (fun b hb => hshort b (List.mem_append_right cs hb)) ht hmore

end Read

/-! ## 5. Lines -/

/-- A line within its limit: a tag section of at most 8191 bytes, and with the rest and a CRLF no
more than `max_line_length`. -/
def WithinLimit (limit : LineLimit) (line : Text) : Prop :=
  tagsec line ≤ 8191 ∧ line.length - tagsec line + 2 ≤ limit.1

theorem WithinLimit.not_over {limit : LineLimit} {line : Text} (h : WithinLimit limit line) :
    ¬ OverLimit limit line := by
  obtain ⟨htags, hrest⟩ := h
  rintro (hover | hover)
  · omega
  · unfold LineLimit.maxlen at hover
    split at hover <;> omega

/-- However lines are cut into reads, each meets its fate. -/
theorem readClientAll_fates {limit : LineLimit} {keeps : List LineFate → Bool}
    {lines : List LinkLine} {reads : List LinkChunk} (hnul : ∀ l ∈ lines, '\x00' ∉ l.text)
    (hshort : ∀ l ∈ lines, l.wire.length < 60000)
    (hreads : readBytes reads = lines.flatMap LinkLine.wire) :
    (readClientAll limit keeps reads).fates = fatesUntil keeps [] (lines.map fun l =>
        if OverLimit limit l.text then .refused else .handed l.text) ∧
      (readClientAll limit keeps reads).tooLong = false := by
  have hfates : (lines.map LinkLine.body).map (fun b => lineFate limit (chopCr b)) =
      lines.map fun l => if OverLimit limit l.text then .refused else .handed l.text := by
    rw [List.map_map]
    refine List.map_congr_left fun l hl => ?_
    simp only [Function.comp_apply, l.chopCr_body, lineFate, cString_eq_self.mpr (hnul l hl)]
  have hbodies : ∀ b ∈ lines.map LinkLine.body, b.length + 1 < 60000 := by
    intro b hb
    obtain ⟨l, hl, rfl⟩ := List.mem_map.mp hb
    have := hshort l hl
    rwa [LinkLine.wire, List.length_append] at this
  have hlines : ClientInput.start.rbuf ++ readBytes reads = withLf (lines.map LinkLine.body) :=
    hreads.trans (flatMap_wire lines)
  have hall := @reads_fates limit keeps reads .start rfl rfl bufSize_start _
    (notMem_bodies lines) hbodies List.not_mem_nil hlines
  rwa [hfates] at hall

/-! ## 6. The budget the comment names

`read_client_once` says of the "@tags " section that it has a budget of 8191 bytes of its own, and
tests for more than 8191 + 1 of what it counts the space into.  A section of 8192 bytes is over the
budget and gets through; the section is the only thing in which the code and its comment differ, and
the lines at which they do so are the marginal ones. -/

/-- The two limits as the comment states them: 8191 bytes for the tag section, and `maxlen` for the
rest. -/
def OverBudget (limit : LineLimit) (line : Text) : Prop :=
  8191 < tagsec line ∨ limit.maxlen < line.length - tagsec line

instance (limit : LineLimit) (line : Text) : Decidable (OverBudget limit line) :=
  inferInstanceAs (Decidable (_ ∨ _))

/-- The fate a line is to meet. -/
def budgetFate (limit : LineLimit) (line : Text) : LineFate :=
  if OverBudget limit line then .refused else .handed line

/-- A tag section of one byte more than the budget, before a rest that is short enough. The check
allows for a space that the section has already counted. -/
def Marginal (limit : LineLimit) (line : Text) : Prop :=
  tagsec line = 8192 ∧ line.length - tagsec line ≤ limit.maxlen

instance (limit : LineLimit) (line : Text) : Decidable (Marginal limit line) :=
  inferInstanceAs (Decidable (_ ∧ _))

theorem WithinLimit.not_overBudget {limit : LineLimit} {line : Text} (h : WithinLimit limit line) :
    ¬ OverBudget limit line := by
  obtain ⟨htags, hrest⟩ := h
  rintro (hover | hover)
  · omega
  · unfold LineLimit.maxlen at hover
    split at hover <;> omega

/-- The code gives a line another fate than its comment exactly if the line is marginal. -/
theorem codeFate_eq_iff (limit : LineLimit) (line : Text) :
    (if OverLimit limit line then .refused else .handed line) = budgetFate limit line ↔
      ¬ Marginal limit line := by
  by_cases hcode : OverLimit limit line
  · have hwant : OverBudget limit line := hcode.imp (fun h => by omega) id
    rw [budgetFate, if_pos hcode, if_pos hwant]
    refine iff_of_true rfl fun hmarg => ?_
    obtain ⟨htags, hrest⟩ := hmarg
    exact hcode.elim (fun h => by omega) (Nat.not_lt.mpr hrest)
  · obtain ⟨htags, hrest⟩ := not_or.mp hcode
    rw [budgetFate, if_neg hcode]
    split
    · rename_i hwant
      have hmore : 8191 < tagsec line := hwant.resolve_right hrest
      exact iff_of_false LineFate.noConfusion
        (not_not_intro ⟨by omega, Nat.not_lt.mp hrest⟩)
    · rename_i hwant
      exact iff_of_true rfl fun hmarg => hwant (Or.inl (by rw [hmarg.1]; decide))

section Until

variable {keeps : List LineFate → Bool} {ls : List LinkLine} {f g : LinkLine → LineFate}

/-- The lines at which the connection is still open, `f` saying what becomes of each: all of them up
to the one that ends it. -/
def metLines (keeps : List LineFate → Bool) (f : LinkLine → LineFate) (before : List LineFate) :
    List LinkLine → List LinkLine
  | [] => []
  | l :: ls =>
    if keeps (before ++ [f l]) then l :: metLines keeps f (before ++ [f l]) ls else [l]

theorem before_isPrefix (before fs : List LineFate) : before <+: fatesUntil keeps before fs := by
  induction fs generalizing before with
  | nil => exact List.prefix_rfl
  | cons f fs ih =>
    have hone : before <+: before ++ [f] := List.prefix_append _ _
    rw [fatesUntil]
    split
    · exact hone.trans (ih _)
    · exact hone

/-- After fates that differ, the whole lists differ. -/
theorem ne_of_prefix_snoc {before r r' : List LineFate} {a b : LineFate} (hab : a ≠ b)
    (hr : before ++ [a] <+: r) (hr' : before ++ [b] <+: r') : r ≠ r' := by
  obtain ⟨t, rfl⟩ := hr
  obtain ⟨t', rfl⟩ := hr'
  intro h
  rw [List.append_assoc, List.append_assoc] at h
  exact hab (List.cons.inj (List.append_cancel_left h)).1

/-- Two ways of deciding about lines come to the same up to the end of the connection exactly if
they do on each line it is still open at. -/
theorem fatesUntil_map_iff (before : List LineFate) :
    fatesUntil keeps before (ls.map f) = fatesUntil keeps before (ls.map g) ↔
      ∀ l ∈ metLines keeps g before ls, f l = g l := by
  induction ls generalizing before with
  | nil => exact iff_of_true rfl fun l hl => absurd hl List.not_mem_nil
  | cons l ls ih =>
    rw [List.map_cons, List.map_cons, metLines]
    by_cases hsame : f l = g l
    · rw [fatesUntil, fatesUntil, hsame]
      split
      · rw [ih, List.forall_mem_cons]
        exact (and_iff_right hsame).symm
      · exact iff_of_true rfl fun x hx => List.mem_singleton.mp hx ▸ hsame
    · refine iff_of_false ?_ fun h => hsame (h l ?_)
      · have hhead : ∀ (a : LineFate) fs, before ++ [a] <+: fatesUntil keeps before (a :: fs) := by
          intro a fs
          rw [fatesUntil]
          split
          · exact before_isPrefix _ _
          · exact List.prefix_rfl
        exact ne_of_prefix_snoc hsame (hhead _ _) (hhead _ _)
      · split <;> exact List.mem_cons_self

end Until

/-- **Client framing.**  However the lines are cut into reads, each of them meets its own fate, in
order, up to the one that ends the connection: it is handed over whole, or refused if it is over the
limit that the code tests for.  The connection is never closed for length, and a line within its
limit is not over it.

So the fates are those that the two budgets give exactly if no line that the connection is still
open at is marginal: the reads have no part in it. -/
theorem client_framing (limit : LineLimit) (keeps : List LineFate → Bool) (lines : List LinkLine)
    (reads : List LinkChunk) (hnul : ∀ l ∈ lines, '\x00' ∉ l.text)
    (hshort : ∀ l ∈ lines, l.wire.length < 60000)
    (hreads : readBytes reads = lines.flatMap LinkLine.wire) :
    (readClientAll limit keeps reads).fates = fatesUntil keeps [] (lines.map fun l =>
        if OverLimit limit l.text then .refused else .handed l.text) ∧
      (readClientAll limit keeps reads).tooLong = false ∧
      (∀ l ∈ lines, WithinLimit limit l.text →
        ¬ OverLimit limit l.text ∧ ¬ OverBudget limit l.text) ∧
      ((readClientAll limit keeps reads).fates =
          fatesUntil keeps [] (lines.map fun l => budgetFate limit l.text) ↔
        ∀ l ∈ metLines keeps (fun l => budgetFate limit l.text) [] lines,
          ¬ Marginal limit l.text) := by
  obtain ⟨hall, hlong⟩ := @readClientAll_fates limit keeps _ _ hnul hshort hreads
  refine ⟨hall, hlong, fun l _ hl => ⟨hl.not_over, hl.not_overBudget⟩, ?_⟩
  rw [hall, fatesUntil_map_iff]
  exact forall₂_congr fun l _ => codeFate_eq_iff limit l.text

/-- A line that is cut behind its CR, one of three bytes where one is allowed, and one with a tag:
the fates are those of the budgets. -/
theorem client_framing_cut :
    (readClientAll ⟨3, by decide⟩ (fun _ => true)
      [⟨['a', '\r'], by decide⟩, ⟨['\n', 'a', 'b', 'c', '\n', '@', 't'], by decide⟩,
        ⟨[' ', 'a', '\n'], by decide⟩]).fates =
      [.handed ['a'], .refused, .handed ['@', 't', ' ', 'a']] :=
  (client_framing ⟨3, by decide⟩ (fun _ => true)
    [⟨['a'], true, by decide, by decide⟩, ⟨['a', 'b', 'c'], false, by decide, by decide⟩,
      ⟨['@', 't', ' ', 'a'], false, by decide, by decide⟩]
    [⟨['a', '\r'], by decide⟩, ⟨['\n', 'a', 'b', 'c', '\n', '@', 't'], by decide⟩,
      ⟨[' ', 'a', '\n'], by decide⟩] (by decide) (by decide) (by decide)).2.2.2.mpr (by decide)

theorem exists_reads (bytes : Text) : ∃ reads, readBytes reads = bytes := by
  refine ⟨bytes.map fun c => ⟨[c], List.cons_ne_nil _ _, by rw [List.length_singleton]; decide⟩, ?_⟩
  induction bytes with
  | nil => rfl
  | cons c bytes ih => rw [List.map_cons, readBytes_cons, ih]; rfl

/-- A line that is all tags and has no space is looked at as a whole. -/
theorem tagsec_open {t : Text} (h : ' ' ∉ t) : tagsec ('@' :: t) = t.length + 1 := by
  have hno : ' ' ∉ '@' :: t := fun hmem => (List.mem_cons.mp hmem).elim (by decide) h
  rw [tagsec, List.head?_cons, if_pos rfl, if_neg hno, List.length_cons]

/-- **One byte more.**  A tag section of 8192 bytes is over its budget, and is not refused. -/
theorem long_tags_handed : ∃ (line : LinkLine) (reads : List LinkChunk),
    line.wire.length < 60000 ∧ '\x00' ∉ line.text ∧ readBytes reads = line.wire ∧
    tagsec line.text = 8192 ∧
    budgetFate ⟨512, by decide⟩ line.text = .refused ∧
    (readClientAll ⟨512, by decide⟩ (fun _ => true) reads).fates = [.handed line.text] := by
  obtain ⟨n, hn⟩ : ∃ n, n = 8191 := ⟨_, rfl⟩
  have hno : ∀ c, c ≠ '@' → c ≠ 'a' → c ∉ '@' :: List.replicate n 'a' := by
    intro c h1 h2 hmem
    rcases List.mem_cons.mp hmem with h | h
    · exact h1 h
    · exact h2 (List.eq_of_mem_replicate h)
  have hlen : ('@' :: List.replicate n 'a').length = n + 1 := by
    rw [List.length_cons, List.length_replicate]
  have htags : tagsec ('@' :: List.replicate n 'a') = n + 1 := by
    rw [tagsec_open fun h => hno ' ' (by decide) (by decide) (.tail _ h), List.length_replicate]
  have hover : ¬ OverLimit ⟨512, by decide⟩ ('@' :: List.replicate n 'a') := by
    rw [OverLimit, htags, hlen, Nat.sub_self]
    omega
  let line : LinkLine := ⟨'@' :: List.replicate n 'a', true, hno '\n' (by decide) (by decide),
    fun h => absurd h.symm Bool.false_ne_true⟩
  obtain ⟨reads, hreads⟩ := exists_reads line.wire
  have hwire : line.wire.length = n + 3 := by
    simp only [line, LinkLine.wire, LinkLine.body, if_true, List.length_append, hlen,
      List.length_singleton]
  have hnul : '\x00' ∉ line.text := hno '\x00' (by decide) (by decide)
  have hall := (@readClientAll_fates ⟨512, by decide⟩ (fun _ => true) [line] reads
    (fun l hl => List.mem_singleton.mp hl ▸ hnul)
    (fun l hl => List.mem_singleton.mp hl ▸ by omega)
    (hreads.trans (List.flatMap_singleton ..).symm)).1
  have hsec : tagsec line.text = 8192 := htags.trans (by omega)
  refine ⟨line, reads, by omega, hnul, hreads, hsec, if_pos (Or.inl ?_), ?_⟩
  · rw [hsec]
    decide
  rw [hall, List.map_singleton, if_neg hover, fatesUntil, if_pos rfl]
  rfl

end SekurIRCd
