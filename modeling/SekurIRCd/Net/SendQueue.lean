/-
# What is queued is what is sent

`client_send` and `link_forward_line` put lines into a send queue (`Lib.ByteQueue`), and the event
loop writes from its front whatever the socket takes.  Lines of a labelled command are held back
first and reach the queue when the command ends, or earlier if there is too much of them.

All bytes that left a queue, and those that wait in it, are the accepted lines in order, each
followed by CRLF: nothing is lost, doubled or moved (`sendq_fifo`).  While the connection is open
every line is accepted; a line that does not fit closes it.  What leaves the queue of a WebSocket
client goes out in frames, so there the socket itself sees other bytes (`framed_differs`).
-/
import SekurIRCd.Lib.ByteQueue
import SekurIRCd.Proto
import SekurIRCd.Ws.Read

namespace SekurIRCd

open CLib ByteQueue

def lineEnd : Text := ['\r', '\n']

/-- A byte of a text on the wire. -/
def byteOf (c : Char) : Byte := BitVec.ofNat 8 c.toNat

/-- What one call gets from outside: the block that `realloc` hands out, and the clock's text. What
is in a new block is anything. -/
structure CallEnv where
  alloc : Option (Nat → Char)
  now : Text

/-- What the socket makes of a write. -/
inductive SocketTook
  | bytes (n : Nat)
  | again
  | failed
deriving DecidableEq

/-! ## 1. A client's queue

A call either queues a line, holds it back, or closes the connection. What it depends on beside the
client comes in from outside, as an environment for each call. -/

/-- A connection with a socket of its own, as far as sending is concerned. -/
structure SendClient where
  quitting : Bool
  serverTime : Bool
  sendqMax : Nat
  sbuf : Queue Char
  labelCapture : Bool
  labelDefer : Bool
  label : Text
  labelBuf : Text
  labelCap : Nat
  labelLines : Nat
  ws : Nat
  wsOut : Bytes

/-- The tags of a line hold a `time` already. -/
def hasTimeTag (tags : Text) : Bool :=
  (splitSep ';' tags).any fun t => t == "time".toList || "time=".toList.isPrefixOf t

/-- `irc_time_tag_insert`: the text to insert, and where. -/
def ircTimeTagInsert (now line : Text) : Text × Nat :=
  match line with
  | '@' :: body =>
    match strchr ' ' body with
    | none => ([], 0)
    | some (tags, _) =>
      if hasTimeTag tags then ([], 0) else (";time=".toList ++ now, tags.length + 1)
  | _ => ("@time=".toList ++ now ++ [' '], 0)

/-- The bytes of a line in the queue. -/
def wireLine (e : CallEnv) (serverTime : Bool) (line : Text) : Text :=
  let t := if serverTime then ircTimeTagInsert e.now line else ([], 0)
  line.take t.2 ++ t.1 ++ line.drop t.2 ++ lineEnd

/-- `sendq_max`, or the limit of all. -/
def sendqLimit (cl : SendClient) : Nat := if cl.sendqMax ≠ 0 then cl.sendqMax else sendqMax

/-- `client_send`, from where the line is known to be queued. -/
def clientQueueLine (e : CallEnv) (cl : SendClient) (line : Text) : SendClient :=
  let bytes := wireLine e cl.serverTime line
  if sendqLimit cl < cl.sbuf.waiting + bytes.length then
    { cl with quitting := true }
  else
    let r := cl.sbuf.room (· * 2) bytes.length e.alloc
    if r.2 then { cl with sbuf := r.1.store bytes } else { cl with sbuf := r.1, quitting := true }

/-- `client_send` of a line after another, when nothing is held back. -/
def clientQueueAll (e : Nat → CallEnv) (cl : SendClient) : List Text → SendClient
  | [] => cl
  | l :: ls =>
    clientQueueAll (fun k => e (k + 1)) (if cl.quitting then cl else clientQueueLine (e 0) cl l) ls

/-- The lines in `label_buf`. -/
def labelHeld (cl : SendClient) : List Text := (splitSep '\n' cl.labelBuf).dropLast

/-- `client_buf_shrink(label_buf, 0, &label_cap, 8192, 0)`. -/
def labelCapShrunk (cap : Nat) : Nat := if cap ≤ 8192 then cap else 0

/-- `client_send`. -/
def clientSendLine (e : Nat → CallEnv) (cl : SendClient) (line : Text) : SendClient :=
  if cl.quitting then cl
  else if cl.labelCapture then
    let need := cl.labelBuf.length + line.length + 1
    if 65536 < need then
      let cl' := clientQueueAll e { cl with labelCapture := false } (labelHeld cl)
      clientQueueLine (e (labelHeld cl).length)
        { cl' with labelBuf := [], labelLines := 0, labelCap := labelCapShrunk cl'.labelCap } line
    else if cl.labelCap < need ∧ (e 0).alloc.isNone then { cl with quitting := true }
    else
      { cl with
        labelBuf := cl.labelBuf ++ line ++ ['\n']
        labelLines := cl.labelLines + 1
        labelCap := if cl.labelCap < need then
          doubled need (if cl.labelCap ≠ 0 then cl.labelCap else 1024) else cl.labelCap }
  else clientQueueLine (e 0) cl line

/-! ## 2. Labelled replies

Lines that are held are kept in a buffer of their own, with LFs behind them, and are taken out of
it again when the command ends. -/

/-- `client_label_begin`. -/
def clientLabelBegin (cl : SendClient) (label : Text) : SendClient :=
  { cl with label := clip 72 label, labelCapture := true, labelBuf := [], labelLines := 0 }

/-- `line_add_tag(tag, line, out, 1700)`. -/
def lineAddTag (tag line : Text) : Text :=
  clip 1700 (match line with
    | '@' :: body => '@' :: tag ++ ';' :: body
    | _ => '@' :: tag ++ ' ' :: line)

/-- `has_batch_tag`. -/
def hasBatchTag (line : Text) : Bool :=
  match line with
  | '@' :: _ =>
    "@batch=".toList.isPrefixOf line ||
      match strstr ";batch=".toList line, strchr ' ' line with
      | some (b, _), some (s, _) => decide (b.length < s.length)
      | _, _ => false
  | _ => false

/-- `label=`, escaped as `irc_build` does. -/
def labelTag (label : Text) : Text :=
  ((ircBuild 200 [("label".toList, label)] none ['X'] [] none).text.takeWhile (· ≠ ' ')).drop 1

/-- What `client_label_end` sends instead of the lines it held. -/
def labelledLines (srvname label : Text) (seq : Nat) (numLines : Nat) (held : List Text) :
    List Text :=
  let bid := "lr".toList ++ decimal seq
  if numLines = 0 then
    [lineAddTag (labelTag label) (ircBuild 200 [] (some srvname) "ACK".toList [] none).text]
  else if numLines = 1 then [lineAddTag (labelTag label) (held.headD [])]
  else
    lineAddTag (labelTag label) (ircBuild 300 [] (some srvname) "BATCH".toList
      ['+' :: bid, "labeled-response".toList] none).text ::
    held.map (fun l => if hasBatchTag l then l else lineAddTag ("batch=".toList ++ bid) l) ++
    [(ircBuild 300 [] (some srvname) "BATCH".toList ['-' :: bid] none).text]

/-- The lines `client_label_end` sends. -/
def labelEndLines (srvname : Text) (seq : Nat) (cl : SendClient) : List Text :=
  if cl.labelCapture = false ∨ (cl.labelDefer = true ∧ cl.labelLines = 0) then []
  else labelledLines srvname cl.label seq cl.labelLines (labelHeld cl)

/-- `client_label_end`. -/
def clientLabelEnd (e : Nat → CallEnv) (srvname : Text) (seq : Nat) (cl : SendClient) :
    SendClient :=
  if cl.labelCapture = false then cl
  else
    let cl' := { cl with labelCapture := false, labelDefer := false }
    if cl.labelDefer = true ∧ cl.labelLines = 0 then cl'
    else
      let cl'' := clientQueueAll e cl' (labelEndLines srvname seq cl)
      { cl'' with labelBuf := [], labelLines := 0, labelCap := labelCapShrunk cl''.labelCap }

/-! ## 3. Writing

A write takes from the front what the socket took. For a WebSocket client the waiting lines are
first made into frames, in a second buffer. -/

def sbufShrinkAbove : Nat := 8192

def sbufKeep : Nat := 4096

/-- A drained queue starts over, in a smaller block if `realloc` hands one out. -/
def drainClient (shrinks : Bool) (q : Queue Char) : Queue Char :=
  if q.off = q.len then
    .fresh (if sbufShrinkAbove < q.cap ∧ shrinks then q.mem.take sbufKeep else q.mem)
  else q

/-- The complete lines of a text, as `ws_encode_pending` cuts them, and their length. -/
def completeLines (s : Text) : List Text × Nat :=
  let pieces := splitSep '\n' s
  (pieces.dropLast.map fun l => if l.getLast? = some '\r' then l.dropLast else l,
    s.length - (pieces.getLastD []).length)

/-- `ws_encode_pending`. -/
def wsEncodePending (shrinks : Bool) (cl : SendClient) : SendClient :=
  let r := completeLines cl.sbuf.pending
  let w := r.1.foldl (fun w l => wsSendFrame w 1 (l.map byteOf)) ⟨[], cl.wsOut, cl.quitting⟩
  { cl with
    sbuf := drainClient shrinks (cl.sbuf.advance r.2)
    wsOut := w.out
    quitting := w.quitting }

/-- `write_client`, with the bytes the socket took. Frames that wait come first. -/
def writeClient (shrinks : Bool) (r : SocketTook) (cl : SendClient) : SendClient × Bytes :=
  if cl.ws ≠ 0 then
    let cl := if cl.ws = 2 then wsEncodePending shrinks cl else cl
    if cl.wsOut = [] then (cl, [])
    else match r with
      | .bytes n => ({ cl with wsOut := cl.wsOut.drop n }, cl.wsOut.take n)
      | .again => (cl, [])
      | .failed => ({ cl with quitting := true }, [])
  else if cl.sbuf.waiting = 0 then (cl, [])
  else match r with
    | .bytes n =>
      ({ cl with sbuf := if n = 0 then cl.sbuf else drainClient shrinks (cl.sbuf.advance n) },
        (cl.sbuf.pending.take n).map byteOf)
    | .again => (cl, [])
    | .failed => ({ cl with quitting := true }, [])

/-! ## 4. Runs of a client

A run keeps what was meant for the queue, what left it and what the socket took, and each of these
is a text. -/

/-- `client_new`, with the block that `malloc` hands out. -/
def SendClient.new (block : Fin 4096 → Char) : SendClient where
  quitting := false
  serverTime := false
  sendqMax := 0
  sbuf := .fresh (List.ofFn block)
  labelCapture := false
  labelDefer := false
  label := []
  labelBuf := []
  labelCap := 0
  labelLines := 0
  ws := 0
  wsOut := []

/-- What can happen to a client's queue, from its owner, from the socket and from the
configuration. -/
inductive SendEvent
  | send (line : Text)
  | labelBegin (label : Text)
  | labelDefer
  | labelEnd (srvname : Text) (seq : Nat)
  | write (shrinks : Bool) (r : SocketTook)
  | serverTime (on : Bool)
  | sendqMax (max : Nat)
  | wsAccept
  | wsUpgrade (response : Bytes)
  | quit

/-- The client after an event. -/
def SendClient.after (e : Nat → CallEnv) (cl : SendClient) : SendEvent → SendClient
  | .send line => clientSendLine e cl line
  | .labelBegin label => clientLabelBegin cl label
  | .labelDefer => { cl with labelDefer := true }
  | .labelEnd srvname seq => clientLabelEnd e srvname seq cl
  | .write shrinks r => (writeClient shrinks r cl).1
  | .serverTime on => { cl with serverTime := on }
  | .sendqMax max => { cl with sendqMax := max }
  | .wsAccept => { cl with ws := 1 }
  | .wsUpgrade response =>
    let w := wsOutAppend ⟨[], cl.wsOut, cl.quitting⟩ response
    { cl with ws := 2, wsOut := w.1.out, quitting := w.1.quitting }
  | .quit => { cl with quitting := true }

/-- The lines an event hands to the queue, as they go into it. -/
def wireLines (e : Nat → CallEnv) (serverTime : Bool) : List Text → List Text
  | [] => []
  | l :: ls => wireLine (e 0) serverTime l :: wireLines (fun k => e (k + 1)) serverTime ls

/-- The lines an event means for the queue: those that are sent and not held back. -/
def SendClient.submits (e : Nat → CallEnv) (cl : SendClient) : SendEvent → List Text
  | .send line =>
    wireLines e cl.serverTime
      (if cl.labelCapture = false then [line]
      else if 65536 < cl.labelBuf.length + line.length + 1 then labelHeld cl ++ [line]
      else [])
  | .labelEnd srvname seq => wireLines e cl.serverTime (labelEndLines srvname seq cl)
  | _ => []

/-- The bytes an event takes out of the queue. -/
def SendClient.takes (cl : SendClient) : SendEvent → Text
  | .write _ r =>
    if cl.ws = 0 then
      match r with
      | .bytes n => cl.sbuf.pending.take n
      | _ => []
    else if cl.ws = 2 then cl.sbuf.pending.take (completeLines cl.sbuf.pending).2
    else []
  | _ => []

/-- The bytes an event gives to the socket. -/
def SendClient.hands (cl : SendClient) : SendEvent → Bytes
  | .write shrinks r => (writeClient shrinks r cl).2
  | _ => []

/-- A connection from its start: what was meant for the queue, what left it, and what the socket
took. -/
structure SendRun where
  cl : SendClient
  submitted : List Text
  taken : Text
  handed : Bytes

def SendRun.start (block : Fin 4096 → Char) : SendRun := ⟨.new block, [], [], []⟩

def SendRun.step (r : SendRun) (x : (Nat → CallEnv) × SendEvent) : SendRun where
  cl := r.cl.after x.1 x.2
  submitted := r.submitted ++ r.cl.submits x.1 x.2
  taken := r.taken ++ r.cl.takes x.2
  handed := r.handed ++ r.cl.hands x.2

def SendRun.run (r : SendRun) (xs : List ((Nat → CallEnv) × SendEvent)) : SendRun :=
  xs.foldl SendRun.step r

/-! ## 5. One call -/

/-- Some lines were given to a client's queue: those it took stand behind what waited. -/
structure Queued (cl cl' : SendClient) (lines : List Text) : Prop where
  block : 0 < cl'.sbuf.cap
  ws : cl'.ws = cl.ws
  wsOut : cl'.wsOut = cl.wsOut
  serverTime : cl'.serverTime = cl.serverTime
  stays : cl'.quitting = false → cl.quitting = false
  flow : ∃ out, Flow cl'.quitting lines out ∧ cl'.sbuf.pending = cl.sbuf.pending ++ out

section
variable {cl cl' cl'' : SendClient} {lines lines' : List Text}

theorem Queued.rfl (h : 0 < cl.sbuf.cap) : Queued cl cl [] :=
  ⟨h, .refl _, .refl _, .refl _, id, [], .nil _, (List.append_nil _).symm⟩

theorem Queued.trans (h : Queued cl cl' lines) (h' : Queued cl' cl'' lines') :
    Queued cl cl'' (lines ++ lines') := by
  obtain ⟨out, hflow, hpending⟩ := h.flow
  obtain ⟨out', hflow', hpending'⟩ := h'.flow
  refine ⟨h'.block, h'.ws.trans h.ws, h'.wsOut.trans h.wsOut, h'.serverTime.trans h.serverTime,
    fun hopen => h.stays (h'.stays hopen), out ++ out', hflow.append hflow' h'.stays, ?_⟩
  rw [hpending', hpending, List.append_assoc]

theorem Queued.refused (h : 0 < cl.sbuf.cap) (lines : List Text) :
    Queued cl { cl with quitting := true } lines :=
  ⟨h, .refl _, .refl _, .refl _, fun hopen => absurd hopen (by simp), [], .refused lines,
    (List.append_nil _).symm⟩

/-- One line: queued behind what waits, or refused and the client closed. -/
theorem queued_clientQueueLine (h : 0 < cl.sbuf.cap) (e : CallEnv) (line : Text) :
    Queued cl (clientQueueLine e cl line) [wireLine e cl.serverTime line] := by
  have hstart : 0 < cl.sbuf.cap * 2 := by omega
  unfold clientQueueLine
  dsimp only
  split
  · exact .refused h _
  · split
    · next hroom =>
      refine ⟨?_, .refl _, .refl _, .refl _, id, _, .single _ _, ?_⟩
      · rw [Queue.cap_store]
        exact h.trans_le Queue.cap_le_cap_room
      · exact Queue.pending_store_room (· * 2) hstart hroom
    · exact ⟨h.trans_le Queue.cap_le_cap_room, .refl _, .refl _, .refl _, fun hopen => absurd hopen (by simp),
        [], .refused _, Queue.pending_room.trans (List.append_nil _).symm⟩

theorem queued_clientQueueAll (lines : List Text) :
    ∀ (e : Nat → CallEnv) (cl : SendClient), 0 < cl.sbuf.cap →
      Queued cl (clientQueueAll e cl lines) (wireLines e cl.serverTime lines) := by
  induction lines with
  | nil => exact fun _ _ h => .rfl h
  | cons l ls ih =>
    intro e cl h
    have hone : Queued cl (if cl.quitting then cl else clientQueueLine (e 0) cl l)
        [wireLine (e 0) cl.serverTime l] := by
      split
      · next hquit =>
        have hcl : { cl with quitting := true } = cl := by rw [← hquit]
        have := Queued.refused h [wireLine (e 0) cl.serverTime l]
        rwa [hcl] at this
      · exact queued_clientQueueLine h (e 0) l
    have hrest := ih (fun k => e (k + 1)) _ hone.block
    rw [hone.serverTime] at hrest
    exact hone.trans hrest

theorem wireLines_append (on : Bool) (ls ls' : List Text) : ∀ e : Nat → CallEnv,
    wireLines e on (ls ++ ls') = wireLines e on ls ++ wireLines (fun k => e (k + ls.length)) on ls' := by
  induction ls with
  | nil => exact fun _ => .refl _
  | cons l ls ih =>
    intro e
    rw [List.cons_append, wireLines, wireLines, ih, List.cons_append]
    simp only [List.length_cons, Nat.add_assoc]

/-- `client_send`: queued, held back, or refused. -/
theorem queued_clientSendLine (h : 0 < cl.sbuf.cap) (e : Nat → CallEnv) (line : Text) :
    Queued cl (clientSendLine e cl line) (cl.submits e (.send line)) := by
  by_cases hquit : cl.quitting = true
  · have hcl : clientSendLine e cl line = { cl with quitting := true } := by
      rw [clientSendLine, if_pos hquit, ← hquit]
    rw [hcl]
    exact .refused h _
  by_cases hcapture : cl.labelCapture = true
  · have hopen : ¬ cl.labelCapture = false := by simp [hcapture]
    rw [clientSendLine, if_neg hquit, if_pos hcapture, SendClient.submits, if_neg hopen]
    by_cases hmuch : 65536 < cl.labelBuf.length + line.length + 1
    · -- too much is held: it is released, and the line behind it
      rw [if_pos hmuch, if_pos hmuch, wireLines_append, wireLines, wireLines, Nat.zero_add]
      have hheld := queued_clientQueueAll (labelHeld cl) e { cl with labelCapture := false } h
      generalize clientQueueAll e { cl with labelCapture := false } (labelHeld cl) = cl' at hheld ⊢
      have hfreed : Queued cl { cl' with
          labelBuf := [], labelLines := 0, labelCap := labelCapShrunk cl'.labelCap } _ :=
        ⟨hheld.block, hheld.ws, hheld.wsOut, hheld.serverTime, hheld.stays, hheld.flow⟩
      have hlast := queued_clientQueueLine hfreed.block (e (labelHeld cl).length) line
      have hon : cl'.serverTime = cl.serverTime := hheld.serverTime
      rw [← hon] at hfreed ⊢
      exact hfreed.trans hlast
    · rw [if_neg hmuch, if_neg hmuch]
      split
      · exact .refused h _
      · exact ⟨h, .refl _, .refl _, .refl _, id, [], .nil _, (List.append_nil _).symm⟩
  · have hopen : cl.labelCapture = false := by simpa using hcapture
    rw [clientSendLine, if_neg hquit, if_neg hcapture, SendClient.submits, if_pos hopen]
    exact queued_clientQueueLine h (e 0) line

/-- `client_label_end`: the lines it makes of those it held. -/
theorem queued_clientLabelEnd (h : 0 < cl.sbuf.cap) (e : Nat → CallEnv) (srvname : Text)
    (seq : Nat) : Queued cl (clientLabelEnd e srvname seq cl)
      (cl.submits e (.labelEnd srvname seq)) := by
  show Queued cl _ (wireLines e cl.serverTime (labelEndLines srvname seq cl))
  unfold clientLabelEnd
  split
  · next hcapture =>
    have hnone : labelEndLines srvname seq cl = [] := if_pos (Or.inl hcapture)
    rw [hnone]
    exact .rfl h
  · next hcapture =>
    dsimp only
    split
    · next hdefer =>
      have hnone : labelEndLines srvname seq cl = [] := if_pos (Or.inr hdefer)
      rw [hnone]
      exact ⟨h, .refl _, .refl _, .refl _, id, [], .nil _, (List.append_nil _).symm⟩
    · have hall := queued_clientQueueAll (labelEndLines srvname seq cl) e
        { cl with labelCapture := false, labelDefer := false } h
      exact ⟨hall.block, hall.ws, hall.wsOut, hall.serverTime, hall.stays, hall.flow⟩

end

/-! ## 6. One write -/

@[simp] theorem pending_drainClient (shrinks : Bool) (q : Queue Char) :
    (drainClient shrinks q).pending = q.pending := by
  unfold drainClient
  split
  · next h => rw [Queue.pending_fresh, Queue.pending_of_drained h]
  · rfl

theorem cap_drainClient {shrinks : Bool} {q : Queue Char} (h : 0 < q.cap) :
    0 < (drainClient shrinks q).cap := by
  unfold drainClient
  split
  · split
    · show 0 < (q.mem.take sbufKeep).length
      rw [List.length_take]
      exact Nat.lt_min.mpr ⟨by decide, h⟩
    · exact h
  · exact h

theorem wsOutAppend_stays {w : WsClient} {data : Bytes}
    (h : (wsOutAppend w data).1.quitting = false) : w.quitting = false := by
  unfold wsOutAppend at h
  split at h
  · exact absurd h (by simp)
  · exact h

/-- A client that is open after framing was open before. -/
theorem wsSendFrame_stays {w : WsClient} {opcode : Nat} {payload : Bytes}
    (h : (wsSendFrame w opcode payload).quitting = false) : w.quitting = false := by
  unfold wsSendFrame at h
  dsimp only at h
  split at h
  · exact wsOutAppend_stays (wsOutAppend_stays h)
  · exact wsOutAppend_stays h

theorem wsSendFrames_stays (ls : List Text) : ∀ {w : WsClient},
    (ls.foldl (fun w l => wsSendFrame w 1 (l.map byteOf)) w).quitting = false →
      w.quitting = false := by
  induction ls with
  | nil => exact id
  | cons l ls ih => exact fun h => wsSendFrame_stays (ih h)

/-- A write takes from the front of the queue, and a direct one gives that to the socket. -/
structure Written (cl : SendClient) (x : SendEvent) (cl' : SendClient) : Prop where
  block : 0 < cl'.sbuf.cap
  ws : cl'.ws = cl.ws
  stays : cl'.quitting = false → cl.quitting = false
  front : cl.takes x ++ cl'.sbuf.pending = cl.sbuf.pending
  direct : cl.ws = 0 → cl.hands x = (cl.takes x).map byteOf

theorem written_wsEncodePending {cl : SendClient} (h : 0 < cl.sbuf.cap) (shrinks : Bool) :
    0 < (wsEncodePending shrinks cl).sbuf.cap ∧ (wsEncodePending shrinks cl).ws = cl.ws ∧
      ((wsEncodePending shrinks cl).quitting = false → cl.quitting = false) ∧
      (wsEncodePending shrinks cl).sbuf.pending =
        cl.sbuf.pending.drop (completeLines cl.sbuf.pending).2 := by
  refine ⟨cap_drainClient h, rfl, wsSendFrames_stays _, ?_⟩
  exact (pending_drainClient _ _).trans (Queue.pending_advance _ _)

theorem written_of_nothing {cl cl' : SendClient} {x : SendEvent} (h : 0 < cl'.sbuf.cap)
    (hws : cl'.ws = cl.ws) (hstays : cl'.quitting = false → cl.quitting = false)
    (hbuf : cl'.sbuf.pending = cl.sbuf.pending) (htakes : cl.takes x = [])
    (hhands : cl.ws = 0 → cl.hands x = []) : Written cl x cl' :=
  ⟨h, hws, hstays, by rw [htakes, hbuf, List.nil_append], fun h0 => by
    rw [htakes, hhands h0, List.map_nil]⟩

theorem written_direct {cl : SendClient} (h : 0 < cl.sbuf.cap) (hws : cl.ws = 0) (shrinks : Bool)
    (r : SocketTook) : Written cl (.write shrinks r) (writeClient shrinks r cl).1 := by
  have hne : ¬ cl.ws ≠ 0 := by simp [hws]
  by_cases hwait : cl.sbuf.waiting = 0
  · have hnil : cl.sbuf.pending = [] := List.eq_nil_of_length_eq_zero (by
      rw [Queue.length_pending, hwait])
    have hsame : writeClient shrinks r cl = (cl, []) := by
      unfold writeClient
      rw [if_neg hne, if_pos hwait]
    rw [hsame]
    refine written_of_nothing h (.refl _) id (.refl _) ?_ fun _ => congrArg Prod.snd hsame
    cases r <;> simp [SendClient.takes, hnil]
  · cases r with
    | bytes n =>
      have hwrite : writeClient shrinks (.bytes n) cl =
          ({ cl with sbuf := if n = 0 then cl.sbuf else drainClient shrinks (cl.sbuf.advance n) },
            (cl.sbuf.pending.take n).map byteOf) := by
        unfold writeClient
        rw [if_neg hne, if_neg hwait]
      have htakes : cl.takes (.write shrinks (.bytes n)) = cl.sbuf.pending.take n := if_pos hws
      rw [hwrite]
      refine ⟨?_, .refl _, id, ?_, fun _ => ?_⟩
      · dsimp only
        split
        · exact h
        · exact cap_drainClient h
      · rw [htakes]
        dsimp only
        split
        · next hn => rw [hn, List.take_zero, List.nil_append]
        · rw [pending_drainClient, Queue.pending_advance, List.take_append_drop]
      · rw [htakes]
        exact congrArg Prod.snd hwrite
    | again =>
      have hwrite : writeClient shrinks .again cl = (cl, []) := by
        unfold writeClient
        rw [if_neg hne, if_neg hwait]
      rw [hwrite]
      exact written_of_nothing h (.refl _) id (.refl _) (if_pos hws) fun _ =>
        congrArg Prod.snd hwrite
    | failed =>
      have hwrite : writeClient shrinks .failed cl = ({ cl with quitting := true }, []) := by
        unfold writeClient
        rw [if_neg hne, if_neg hwait]
      rw [hwrite]
      exact written_of_nothing h (.refl _) (fun hopen => absurd hopen (by simp)) (.refl _)
        (if_pos hws) fun _ => congrArg Prod.snd hwrite

/-- A write of frames: the queue is emptied into them, whatever the socket takes. -/
theorem written_frames {cl : SendClient} (h : 0 < cl.sbuf.cap) (hws : cl.ws ≠ 0) (shrinks : Bool)
    (r : SocketTook) : Written cl (.write shrinks r) (writeClient shrinks r cl).1 := by
  obtain ⟨cl', hcl', hcap, hws', hstays, hfront⟩ : ∃ cl' : SendClient,
      (if cl.ws = 2 then wsEncodePending shrinks cl else cl) = cl' ∧ 0 < cl'.sbuf.cap ∧
      cl'.ws = cl.ws ∧ (cl'.quitting = false → cl.quitting = false) ∧
      cl.takes (.write shrinks r) ++ cl'.sbuf.pending = cl.sbuf.pending := by
    refine ⟨_, .refl _, ?_⟩
    have htakes : cl.takes (.write shrinks r) =
        if cl.ws = 2 then cl.sbuf.pending.take (completeLines cl.sbuf.pending).2 else [] :=
      if_neg hws
    rw [htakes]
    split
    · obtain ⟨hcap, hws', hstays, hpending⟩ := written_wsEncodePending h shrinks
      exact ⟨hcap, hws', hstays, by rw [hpending, List.take_append_drop]⟩
    · exact ⟨h, .refl _, id, List.nil_append _⟩
  unfold writeClient
  rw [if_pos hws]
  dsimp only
  rw [hcl']
  split
  · exact ⟨hcap, hws', hstays, hfront, fun h0 => absurd h0 hws⟩
  · cases r with
    | bytes n => exact ⟨hcap, hws', hstays, hfront, fun h0 => absurd h0 hws⟩
    | again => exact ⟨hcap, hws', hstays, hfront, fun h0 => absurd h0 hws⟩
    | failed =>
      exact ⟨hcap, hws', fun hopen => absurd hopen (by simp), hfront, fun h0 => absurd h0 hws⟩

theorem written_writeClient {cl : SendClient} (h : 0 < cl.sbuf.cap) (shrinks : Bool) (r : SocketTook) :
    Written cl (.write shrinks r) (writeClient shrinks r cl).1 := by
  by_cases hws : cl.ws = 0
  · exact written_direct h hws shrinks r
  · exact written_frames h hws shrinks r

/-! ## 7. Runs of a client

Both are what `Lib.ByteQueue` says of a flow, so the invariant of a run is that of the library. -/

/-- A client's run so far, as the stream its queue is. -/
structure SendRun.Flows (r : SendRun) : Prop where
  block : 0 < r.cl.sbuf.cap
  flow : Flow r.cl.quitting r.submitted (r.taken ++ r.cl.sbuf.pending)
  direct : r.cl.ws = 0 → r.handed = r.taken.map byteOf

theorem SendRun.flows_start (block : Fin 4096 → Char) : (SendRun.start block).Flows := by
  have hlen : (SendRun.start block).cl.sbuf.cap = 4096 :=
    (Queue.cap_fresh _).trans List.length_ofFn
  have hnil : (SendRun.start block).cl.sbuf.pending = [] := Queue.pending_fresh _
  refine ⟨by omega, ?_, fun _ => rfl⟩
  rw [hnil]
  exact .nil _

theorem SendRun.Flows.queued {r : SendRun} {cl' : SendClient} {lines : List Text} (h : r.Flows)
    (hq : Queued r.cl cl' lines) :
    SendRun.Flows { r with cl := cl', submitted := r.submitted ++ lines } := by
  obtain ⟨out, hflow, hpending⟩ := hq.flow
  refine ⟨hq.block, ?_, fun hws => h.direct (hq.ws ▸ hws)⟩
  show Flow cl'.quitting (r.submitted ++ lines) (r.taken ++ cl'.sbuf.pending)
  rw [hpending, ← List.append_assoc]
  exact h.flow.append hflow hq.stays

theorem SendRun.Flows.other {r : SendRun} {cl' : SendClient} (h : r.Flows)
    (hbuf : cl'.sbuf = r.cl.sbuf) (hws : cl'.ws = 0 → r.cl.ws = 0)
    (hstays : cl'.quitting = false → r.cl.quitting = false) :
    SendRun.Flows { r with cl := cl' } :=
  ⟨hbuf ▸ h.block, hbuf ▸ h.flow.keep hstays, fun h0 => h.direct (hws h0)⟩

theorem SendRun.Flows.step {r : SendRun} (h : r.Flows) (x : (Nat → CallEnv) × SendEvent) :
    (r.step x).Flows := by
  obtain ⟨e, x⟩ := x
  have hidle : ∀ {cl' : SendClient}, cl' = r.cl.after e x → r.cl.submits e x = [] →
      r.cl.takes x = [] → r.cl.hands x = [] → SendRun.Flows { r with cl := cl' } →
      (r.step (e, x)).Flows := by
    rintro _ rfl hsub htake hhand hfl
    simpa only [SendRun.step, hsub, htake, hhand, List.append_nil] using hfl
  have hqueue : r.cl.takes x = [] → r.cl.hands x = [] →
      Queued r.cl (r.cl.after e x) (r.cl.submits e x) → (r.step (e, x)).Flows := by
    intro htake hhand hq
    have := h.queued hq
    simpa only [SendRun.step, htake, hhand, List.append_nil] using this
  cases x with
  | send line => exact hqueue rfl rfl (queued_clientSendLine h.block e line)
  | labelEnd srvname seq => exact hqueue rfl rfl (queued_clientLabelEnd h.block e srvname seq)
  | write shrinks w =>
    have hw := written_writeClient h.block shrinks w
    refine ⟨hw.block, ?_, fun hws => ?_⟩
    · show Flow _ (r.submitted ++ []) (r.taken ++ r.cl.takes (.write shrinks w) ++ _)
      rw [List.append_nil, List.append_assoc]
      show Flow (writeClient shrinks w r.cl).1.quitting r.submitted
        (r.taken ++ (r.cl.takes (.write shrinks w) ++ (writeClient shrinks w r.cl).1.sbuf.pending))
      rw [hw.front]
      exact h.flow.keep hw.stays
    · have h0 : r.cl.ws = 0 := hw.ws ▸ hws
      show r.handed ++ _ = (r.taken ++ _).map byteOf
      rw [List.map_append, h.direct h0, hw.direct h0]
  | labelBegin label => exact hidle rfl rfl rfl rfl (h.other rfl id id)
  | labelDefer => exact hidle rfl rfl rfl rfl (h.other rfl id id)
  | serverTime on => exact hidle rfl rfl rfl rfl (h.other rfl id id)
  | sendqMax max => exact hidle rfl rfl rfl rfl (h.other rfl id id)
  | wsAccept => exact hidle rfl rfl rfl rfl (h.other rfl (fun h0 => absurd h0 Nat.one_ne_zero) id)
  | wsUpgrade response =>
    refine hidle rfl rfl rfl rfl (h.other rfl (fun h0 => absurd h0 (Nat.succ_ne_zero 1)) ?_)
    exact wsOutAppend_stays
  | quit => exact hidle rfl rfl rfl rfl (h.other rfl id fun hopen => absurd hopen Bool.noConfusion)

theorem SendRun.Flows.run (xs : List ((Nat → CallEnv) × SendEvent)) :
    ∀ {r : SendRun}, r.Flows → (r.run xs).Flows := by
  induction xs with
  | nil => exact id
  | cons x xs ih => exact fun h => ih (h.step x)

/-! ## 8. A link's queue -/

def linkSendqMax : Nat := 16 * 1024 * 1024

/-- A link, as far as sending is concerned. -/
structure SendLink where
  closing : Bool
  sbuf : Queue Char

/-- `link_forward_line`. -/
def linkForwardLine (alloc : Option (Nat → Char)) (lc : SendLink) (line : Text) : SendLink :=
  if lc.closing then lc
  else if linkSendqMax < lc.sbuf.waiting + line.length + 2 then { lc with closing := true }
  else
    let r := lc.sbuf.room (fun cap => if cap ≠ 0 then cap else 16384) (line.length + 2) alloc
    if r.2 then { lc with sbuf := r.1.store (line ++ lineEnd) }
    else { lc with sbuf := r.1, closing := true }

/-- A drained queue starts over, and a large block is given back. -/
def drainLink (q : Queue Char) : Queue Char :=
  if q.off = q.len then .fresh (if 65536 < q.cap then [] else q.mem) else q

/-- `link_handle_writable`, with the bytes the socket took. -/
def linkHandleWritable (r : SocketTook) (lc : SendLink) : SendLink × Text :=
  if lc.sbuf.waiting = 0 ∨ lc.closing then (lc, [])
  else match r with
    | .bytes n =>
      ({ lc with sbuf := if n = 0 then lc.sbuf else drainLink (lc.sbuf.advance n) },
        lc.sbuf.pending.take n)
    | .again => (lc, [])
    | .failed => ({ lc with closing := true }, [])

/-- What can happen to a link's queue: a line from the server itself, one that `client_send` has
for a service's user behind the link, a write, and the end. -/
inductive LinkSend
  | forward (alloc : Option (Nat → Char)) (line : Text)
  | service (quitting : Bool) (alloc : Option (Nat → Char)) (line : Text)
  | write (r : SocketTook)
  | close

def SendLink.after (lc : SendLink) : LinkSend → SendLink
  | .forward alloc line => linkForwardLine alloc lc line
  | .service quitting alloc line => if quitting then lc else linkForwardLine alloc lc line
  | .write r => (linkHandleWritable r lc).1
  | .close => { lc with closing := true }

def SendLink.submits : LinkSend → List Text
  | .forward _ line => [line ++ lineEnd]
  | .service quitting _ line => if quitting then [] else [line ++ lineEnd]
  | _ => []

def SendLink.hands (lc : SendLink) : LinkSend → Text
  | .write r => (linkHandleWritable r lc).2
  | _ => []

/-- A link from its start: what was meant for the queue, and what the socket took. -/
structure LinkRun where
  lc : SendLink
  submitted : List Text
  handed : Text

def LinkRun.start : LinkRun := ⟨⟨false, .fresh []⟩, [], []⟩

def LinkRun.step (r : LinkRun) (x : LinkSend) : LinkRun where
  lc := r.lc.after x
  submitted := r.submitted ++ SendLink.submits x
  handed := r.handed ++ r.lc.hands x

def LinkRun.run (r : LinkRun) (xs : List LinkSend) : LinkRun := xs.foldl LinkRun.step r

/-- A link's run so far, as the stream its queue is. -/
def LinkRun.Flows (r : LinkRun) : Prop :=
  Flow r.lc.closing r.submitted (r.handed ++ r.lc.sbuf.pending)

/-- A line for the link: queued behind what waits, or refused and the link closed. -/
theorem flow_linkForwardLine (alloc : Option (Nat → Char)) (lc : SendLink) (line : Text) :
    ∃ out, Flow (linkForwardLine alloc lc line).closing [line ++ lineEnd] out ∧
      (linkForwardLine alloc lc line).sbuf.pending = lc.sbuf.pending ++ out ∧
      ((linkForwardLine alloc lc line).closing = false → lc.closing = false) := by
  have hstart : 0 < (if lc.sbuf.cap ≠ 0 then lc.sbuf.cap else 16384) := by
    split <;> omega
  unfold linkForwardLine
  split
  · next hclosing =>
    rw [hclosing]
    exact ⟨[], .refused _, (List.append_nil _).symm, id⟩
  · split
    · exact ⟨[], .refused _, (List.append_nil _).symm, fun hopen => absurd hopen Bool.noConfusion⟩
    · dsimp only
      split
      · next hroom =>
        refine ⟨_, .single _ _, ?_, id⟩
        have hlen : (line ++ lineEnd).length = line.length + 2 := List.length_append
        rw [← hlen] at hroom ⊢
        exact Queue.pending_store_room (fun cap => if cap ≠ 0 then cap else 16384) hstart hroom
      · exact ⟨[], .refused _, Queue.pending_room.trans (List.append_nil _).symm,
          fun hopen => absurd hopen Bool.noConfusion⟩

@[simp] theorem pending_drainLink (q : Queue Char) : (drainLink q).pending = q.pending := by
  unfold drainLink
  split
  · next h => rw [Queue.pending_fresh, Queue.pending_of_drained h]
  · rfl

theorem front_linkHandleWritable (r : SocketTook) (lc : SendLink) :
    (linkHandleWritable r lc).2 ++ (linkHandleWritable r lc).1.sbuf.pending = lc.sbuf.pending ∧
      ((linkHandleWritable r lc).1.closing = false → lc.closing = false) := by
  unfold linkHandleWritable
  split
  · exact ⟨rfl, id⟩
  · cases r with
    | bytes n =>
      refine ⟨?_, id⟩
      dsimp only
      split
      · next hn => rw [hn, List.take_zero, List.nil_append]
      · rw [pending_drainLink, Queue.pending_advance, List.take_append_drop]
    | again => exact ⟨rfl, id⟩
    | failed => exact ⟨rfl, fun hopen => absurd hopen Bool.noConfusion⟩

theorem LinkRun.Flows.step {r : LinkRun} (h : r.Flows) (x : LinkSend) : (r.step x).Flows := by
  have hforward : ∀ alloc line, Flow (linkForwardLine alloc r.lc line).closing
      (r.submitted ++ [line ++ lineEnd])
      (r.handed ++ [] ++ (linkForwardLine alloc r.lc line).sbuf.pending) := by
    intro alloc line
    obtain ⟨out, hflow, hpending, hstays⟩ := flow_linkForwardLine alloc r.lc line
    rw [List.append_nil, hpending, ← List.append_assoc]
    exact Flow.append h hflow hstays
  have hidle : ∀ closing : Bool, (closing = false → r.lc.closing = false) →
      Flow closing (r.submitted ++ []) (r.handed ++ [] ++ r.lc.sbuf.pending) := by
    intro closing hstays
    rw [List.append_nil, List.append_nil]
    exact Flow.keep h hstays
  cases x with
  | forward alloc line => exact hforward alloc line
  | service quitting alloc line =>
    cases quitting with
    | true => exact hidle _ id
    | false => exact hforward alloc line
  | write w =>
    obtain ⟨hfront, hstays⟩ := front_linkHandleWritable w r.lc
    show Flow (linkHandleWritable w r.lc).1.closing (r.submitted ++ [])
      (r.handed ++ (linkHandleWritable w r.lc).2 ++ (linkHandleWritable w r.lc).1.sbuf.pending)
    rw [List.append_nil, List.append_assoc, hfront]
    exact Flow.keep h hstays
  | close => exact hidle _ fun hopen => absurd hopen Bool.noConfusion

theorem LinkRun.flows_run (xs : List LinkSend) : ∀ {r : LinkRun}, r.Flows → (r.run xs).Flows := by
  induction xs with
  | nil => exact id
  | cons x xs ih => exact fun h => ih (h.step x)

/-! ## 9. Send queues are streams -/

/-- **Send queues are first in, first out**, over every run of a client and of a link: what left
the queue and what waits in it is the stream of the accepted lines.  What a client's socket takes
is what left the queue, unless the client is a WebSocket. -/
theorem sendq_fifo :
    (∀ (block : Fin 4096 → Char) (xs : List ((Nat → CallEnv) × SendEvent)),
      let r := (SendRun.start block).run xs
      Flow r.cl.quitting r.submitted (r.taken ++ r.cl.sbuf.pending) ∧
        (r.cl.ws = 0 → r.handed = r.taken.map byteOf)) ∧
    ∀ xs : List LinkSend,
      let r := LinkRun.start.run xs
      Flow r.lc.closing r.submitted (r.handed ++ r.lc.sbuf.pending) := by
  refine ⟨fun block xs => ?_, fun xs => ?_⟩
  · have h := SendRun.Flows.run xs (SendRun.flows_start block)
    exact ⟨h.flow, h.direct⟩
  · exact LinkRun.flows_run xs (r := LinkRun.start) (.nil _)

theorem out_wsOutAppend (w : WsClient) (data : Bytes) : w.out <+: (wsOutAppend w data).1.out := by
  unfold wsOutAppend
  split
  · exact List.prefix_rfl
  · exact List.prefix_append _ _

theorem out_wsSendFrame (w : WsClient) (opcode : Nat) (payload : Bytes) :
    w.out <+: (wsSendFrame w opcode payload).out := by
  unfold wsSendFrame
  dsimp only
  split
  · exact (out_wsOutAppend _ _).trans (out_wsOutAppend _ _)
  · exact out_wsOutAppend _ _

/-- Frames go behind what waits for the socket. -/
theorem out_wsEncodePending (shrinks : Bool) (cl : SendClient) :
    cl.wsOut <+: (wsEncodePending shrinks cl).wsOut := by
  have hfold : ∀ (ls : List Text) (w : WsClient),
      w.out <+: (ls.foldl (fun w l => wsSendFrame w 1 (l.map byteOf)) w).out := by
    intro ls
    induction ls with
    | nil => exact fun _ => List.prefix_rfl
    | cons l ls ih => exact fun w => (out_wsSendFrame w 1 _).trans (ih _)
  exact hfold _ ⟨[], cl.wsOut, cl.quitting⟩

/-- So the socket of a WebSocket client takes what waited there first. -/
theorem hands_wsOut {cl : SendClient} {b : Byte} {t : Bytes} (hws : cl.ws = 2)
    (hout : cl.wsOut = b :: t) (shrinks : Bool) :
    cl.hands (.write shrinks (.bytes 1)) = [b] := by
  obtain ⟨rest, hrest⟩ := out_wsEncodePending shrinks cl
  rw [hout, List.cons_append] at hrest
  show (writeClient shrinks (.bytes 1) cl).2 = [b]
  unfold writeClient
  rw [if_pos (by rw [hws]; decide), if_pos hws]
  dsimp only
  rw [← hrest, if_neg (List.cons_ne_nil _ _)]
  rfl

/-- A line, and the first byte of what waits for the socket already. -/
theorem framed_send {r : SendRun} {b : Byte} {t : Bytes} (h : r.Flows) (hws : r.cl.ws = 2)
    (hout : r.cl.wsOut = b :: t) (hcapture : r.cl.labelCapture = false)
    (hon : r.cl.serverTime = false) (hsub : r.submitted = []) (hhanded : r.handed = [])
    (e : Nat → CallEnv) (line : Text) :
    (r.run [(e, .send line), (e, .write false (.bytes 1))]).submitted = [line ++ lineEnd] ∧
      (r.run [(e, .send line), (e, .write false (.bytes 1))]).handed = [b] := by
  have hq := queued_clientSendLine h.block e line
  refine ⟨?_, ?_⟩
  · show r.submitted ++ r.cl.submits e (.send line) ++ [] = _
    rw [hsub, SendClient.submits, if_pos hcapture, hon, List.append_nil]
    simp [wireLines, wireLine]
  · show r.handed ++ [] ++ (clientSendLine e r.cl line).hands (.write false (.bytes 1)) = [b]
    rw [hhanded, hands_wsOut (hq.ws.trans hws) (hq.wsOut.trans hout)]
    rfl

/-- The first byte such a client gets is one of the answer to its handshake, not of a line. -/
theorem framed_differs :
    ¬ ∀ (block : Fin 4096 → Char) (xs : List ((Nat → CallEnv) × SendEvent)),
      let r := (SendRun.start block).run xs
      ∃ acc : List Text, acc.Sublist r.submitted ∧ r.handed <+: acc.flatten.map byteOf := by
  intro h
  let e : Nat → CallEnv := fun _ => ⟨none, []⟩
  let response : Bytes := "HTTP/1.1 101 Switching Protocols".toList.map byteOf
  have hupgraded : SendRun.Flows ((SendRun.start fun _ => '0').run
      [(e, .wsAccept), (e, .wsUpgrade response)]) :=
    SendRun.Flows.run _ (SendRun.flows_start _)
  obtain ⟨hsubmitted, hhanded⟩ := framed_send (b := byteOf 'H') (t := response.tail) hupgraded
    rfl rfl rfl rfl rfl rfl e "PING".toList
  rw [SendRun.run, SendRun.run, ← List.foldl_append] at hsubmitted hhanded
  obtain ⟨acc, hsub, hpre⟩ := h (fun _ => '0') ([(e, .wsAccept), (e, .wsUpgrade response)] ++
    [(e, .send "PING".toList), (e, .write false (.bytes 1))])
  rw [SendRun.run, hhanded] at hpre
  rw [SendRun.run, hsubmitted] at hsub
  rcases List.sublist_singleton.mp hsub with rfl | rfl <;> exact absurd hpre (by decide)

end SekurIRCd
