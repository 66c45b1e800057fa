/-
# Reading from a WebSocket

`ws_read` keeps the bytes it has read in a buffer until a frame is whole, takes the whole frames
out of it and delivers their payloads as lines, a newline behind each final frame; a ping is
answered by a pong in the output buffer.

A frame that finds no room in the caller's buffer is left for the next call.  By then it has been
unmasked, and the next call unmasks it again: what is delivered is not what was sent.  Three more
things can go wrong: more than 8000 bytes held and read at once close the connection, a final
frame without payload right behind a newline gets no newline of its own, and a pong that the
output buffer does not take closes the connection.  `ws_lossless` says that this is all: as long
as no read meets one of the four, the client's lines arrive exactly.
-/
import SekurIRCd.Ws.Frame
import SekurIRCd.Lib.Runs
import Mathlib.Algebra.Group.Nat.Defs

namespace SekurIRCd

def sendqMax : Nat := 2 ^ 20

def wsReadChunk : Nat := 4096

/-- The buffer `read_client_once` reads into. -/
def readBuf : Nat := 4096

def newline : Byte := 0x0a

/-- The client's WebSocket buffers: `ws_in` and `ws_out`. -/
structure WsClient where
  inp : Bytes
  out : Bytes
  quitting : Bool
deriving DecidableEq, Repr

/-! ## 1. Answering -/

/-- `ws_frame_header`. -/
def wsFrameHeader (opcode len : Nat) : Bytes :=
  (0x80#8 ||| (BitVec.ofNat 8 opcode &&& 0x0f#8)) ::
    if len < 126 then [BitVec.ofNat 8 len]
    else if len ≤ 0xffff then [126, BitVec.ofNat 8 (len / 256), BitVec.ofNat 8 len]
    else 127 :: ([7, 6, 5, 4, 3, 2, 1, 0].map fun i => BitVec.ofNat 8 (len / 256 ^ i))

/-- `ws_out_append`, and whether it returned 0. -/
def wsOutAppend (cl : WsClient) (data : Bytes) : WsClient × Bool :=
  if sendqMax < cl.out.length + data.length then ({ cl with quitting := true }, false)
  else ({ cl with out := cl.out ++ data }, true)

/-- `ws_send_frame`. -/
def wsSendFrame (cl : WsClient) (opcode : Nat) (payload : Bytes) : WsClient :=
  let r := wsOutAppend cl (wsFrameHeader opcode payload.length)
  if r.2 = true ∧ payload ≠ [] then (wsOutAppend r.1 payload).1 else r.1

/-! ## 2. `ws_read`

One call reads once and then goes through the whole frames. What it delivers has to fit the
caller's buffer. -/

/-- The loop of `ws_read` over the frames in the buffer, with the output so far; `none` is `EIO`.
Every turn but the last takes bytes out of the buffer. -/
def wsLoop : Nat → WsClient → Bytes → Option (WsClient × Bytes)
  | 0, cl, dst => some (cl, dst)
  | fuel + 1, cl, dst =>
    if cl.inp = [] ∨ cl.quitting = true then some (cl, dst)
    else
      match wsDecodeFrame cl.inp with
      | .bad => none
      | .more => some (cl, dst)
      | .frame opcode fin payload consumed inp =>
        -- the payload is unmasked in the buffer from here on
        let cl := { cl with inp := inp }
        if opcode = 8 then
          let cl := wsSendFrame cl 8 (if 2 ≤ payload.length then payload.take 2 else [])
          some ({ cl with quitting := true }, dst)
        else if opcode = 9 then
          let cl := wsSendFrame cl 10 payload
          wsLoop fuel { cl with inp := cl.inp.drop consumed } dst
        else if opcode = 0 ∨ opcode = 1 ∨ opcode = 2 then
          -- not enough room: the frame is left for the next call
          if readBuf < dst.length + payload.length + 1 then some (cl, dst)
          else
            let dst := dst ++ payload
            let dst := if fin = true ∧ (dst = [] ∨ dst.getLast? ≠ some newline) then dst ++ [newline]
              else dst
            wsLoop fuel { cl with inp := cl.inp.drop consumed } dst
        else wsLoop fuel { cl with inp := cl.inp.drop consumed } dst

/-- `ws_read` after the upgrade. `chunk` is what `io_read` returns, empty for "nothing yet"; the
result is what is delivered, or `none` when the connection is rejected. -/
def wsRead (cl : WsClient) (chunk : Bytes) : WsClient × Option Bytes :=
  if chunk ≠ [] ∧ 2 * wsMaxPayload < cl.inp.length + chunk.length then (cl, none)
  else
    let cl := { cl with inp := cl.inp ++ chunk }
    match wsLoop (cl.inp.length + 1) cl [] with
    | some (cl, dst) => (cl, some dst)
    | none => (cl, none)

/-! ## 3. Runs -/

/-- A connection: the client, what the transport still holds, and what has come of the calls so
far: the bytes delivered and those put into the output buffer. -/
structure WsRun where
  cl : WsClient
  stream : Bytes
  delivered : Bytes
  answered : Bytes
  rejected : Bool
  called : Bool
deriving DecidableEq, Repr

/-- A call of `ws_read` that gets at most `n` bytes, or whatever `write_client` does to the output
buffer between two calls. -/
inductive WsEvent
  | read (n : Nat)
  | flush (out : Bytes)

def wsStep (r : WsRun) : WsEvent → WsRun
  | .read n =>
    if r.rejected = true ∨ r.cl.quitting = true then r
    else
      let chunk := r.stream.take (min n wsReadChunk)
      let res := wsRead r.cl chunk
      { cl := res.1
        stream := r.stream.drop chunk.length
        delivered := r.delivered ++ res.2.getD []
        answered := r.answered ++ res.1.out.drop r.cl.out.length
        rejected := res.2.isNone
        called := true }
  | .flush out => { r with cl := { r.cl with out := out } }

/-- The bytes of some frames. -/
def encodeAll (fs : List WsFrame) : Bytes := fs.flatMap fun f => f.encode

/-- The connection right behind the upgrade request, with the first `k` bytes read along with it
and the response in the output buffer. -/
def wsStart (fs : List WsFrame) (k : Nat) (response : Bytes) : WsRun where
  cl := ⟨(encodeAll fs).take k, response, false⟩
  stream := (encodeAll fs).drop k
  delivered := []
  answered := []
  rejected := false
  called := false

/-! ## 4. What is to arrive -/

/-- A data payload, with a newline behind a final one that lacks it. -/
def wsLine (fin : Bool) (payload : Bytes) : Bytes :=
  if fin = true ∧ payload.getLast? ≠ some newline then payload ++ [newline] else payload

/-- What a frame delivers. -/
def WsFrame.line (f : WsFrame) : Bytes := if f.opcode = 9 then [] else wsLine f.fin f.payload

/-- What a frame is answered with. -/
def WsFrame.pong (f : WsFrame) : Bytes :=
  if f.opcode = 9 then wsFrameHeader 10 f.payload.length ++ f.payload else []

/-- **Nothing is lost**: what has been delivered and answered is that of the frames so far, and
that of all frames once the stream has been read. -/
structure Lossless (fs : List WsFrame) (r : WsRun) : Prop where
  accepted : r.rejected = false ∧ r.cl.quitting = false
  soFar : ∃ done rest, fs = done ++ rest ∧ r.delivered = done.flatMap WsFrame.line ∧
    r.answered = done.flatMap WsFrame.pong
  whole : r.called = true → r.stream = [] →
    r.delivered = fs.flatMap WsFrame.line ∧ r.answered = fs.flatMap WsFrame.pong

/-! ## 5. When nothing goes wrong

The condition is on a call: the bytes that are held, and the frames that are whole by then. -/

/-- The whole frames at the front of a buffer. -/
def wholeFrames : Nat → Bytes → List (Nat × Bool × Bytes)
  | 0, _ => []
  | fuel + 1, inp =>
    match wsDecodeFrame inp with
    | .frame opcode fin payload consumed _ =>
      (opcode, fin, payload) :: wholeFrames fuel (inp.drop consumed)
    | _ => []

/-- Every frame finds what it needs: a pong fits into the output buffer, a payload finds room
behind the output so far, and an empty final payload does not stand right behind a newline. -/
def Served : Nat → Bytes → List (Nat × Bool × Bytes) → Prop
  | _, _, [] => True
  | queued, dst, (opcode, fin, payload) :: fs =>
    if opcode = 9 then
      queued + 2 + payload.length ≤ sendqMax ∧ Served (queued + 2 + payload.length) dst fs
    else
      dst.length + payload.length + 1 ≤ readBuf ∧
        (payload = [] → fin = true → dst.getLast? ≠ some newline) ∧
        Served queued (dst ++ wsLine fin payload) fs

instance decidableServed : ∀ (queued : Nat) (dst : Bytes) (fs : List (Nat × Bool × Bytes)),
    Decidable (Served queued dst fs)
  | _, _, [] => isTrue trivial
  | queued, dst, (opcode, fin, payload) :: fs =>
    have := decidableServed (queued + 2 + payload.length) dst fs
    have := decidableServed queued (dst ++ wsLine fin payload) fs
    inferInstanceAs (Decidable (if opcode = 9 then _ else _))

/-- The condition on one step: the bytes held and read stay within 8000, and every frame that is
whole by then is served. -/
def Roomy (r : WsRun) : WsEvent → Prop
  | .read n =>
    let chunk := r.stream.take (min n wsReadChunk)
    (chunk ≠ [] → r.cl.inp.length + chunk.length ≤ 2 * wsMaxPayload) ∧
      Served r.cl.out.length [] (wholeFrames ((r.cl.inp ++ chunk).length + 1) (r.cl.inp ++ chunk))
  | .flush _ => True

instance (r : WsRun) (e : WsEvent) : Decidable (Roomy r e) :=
  match e with
  | .read _ => inferInstanceAs (Decidable (_ ∧ _))
  | .flush _ => isTrue trivial

/-! ## 6. One frame -/

@[simp] theorem opened_length (f : WsFrame) : f.opened.length = f.encode.length := by
  simp [ClientFrame.opened, ClientFrame.encode]

theorem encode_length (f : WsFrame) : f.payload.length + 6 ≤ f.encode.length := by
  have hhead := f.head_length_le.1
  have hmask := f.masked
  simp only [ClientFrame.encode, List.length_append, applyMask_length, hmask]
  omega

theorem dst_line {dst payload : Bytes} {fin : Bool}
    (h : payload = [] → fin = true → dst.getLast? ≠ some newline) :
    (if fin = true ∧ (dst ++ payload = [] ∨ (dst ++ payload).getLast? ≠ some newline) then
      dst ++ payload ++ [newline] else dst ++ payload) = dst ++ wsLine fin payload := by
  rw [wsLine]
  cases fin with
  | false => simp
  | true =>
    by_cases hp : payload = []
    · have hdst := h hp rfl
      simp [hp, hdst]
    · have hlast : (dst ++ payload).getLast? = payload.getLast? := by
        rw [List.getLast?_append]
        cases hq : payload.getLast? with
        | none => exact absurd (List.getLast?_eq_none_iff.mp hq) hp
        | some b => rfl
      have hne : dst ++ payload ≠ [] := by simp [hp]
      rw [hlast]
      by_cases hnl : payload.getLast? = some newline
      · rw [if_neg (by simp [hne, hnl]), if_neg (by simp [hnl])]
      · rw [if_pos ⟨rfl, Or.inr hnl⟩, if_pos ⟨rfl, hnl⟩, List.append_assoc]

theorem wsSendFrame_pong {cl : WsClient} {payload : Bytes} (hlen : payload.length ≤ 125)
    (hroom : cl.out.length + 2 + payload.length ≤ sendqMax) : wsSendFrame cl 10 payload =
      { cl with out := cl.out ++ (wsFrameHeader 10 payload.length ++ payload) } := by
  have hheader : (wsFrameHeader 10 payload.length).length = 2 := by
    rw [wsFrameHeader, if_pos (by omega)]
    rfl
  have hfirst : wsOutAppend cl (wsFrameHeader 10 payload.length) =
      ({ cl with out := cl.out ++ wsFrameHeader 10 payload.length }, true) := by
    rw [wsOutAppend, if_neg (by rw [hheader]; omega)]
  rw [wsSendFrame, hfirst]
  by_cases hp : payload = []
  · simp [hp]
  · have hsecond : ¬ sendqMax <
        (cl.out ++ wsFrameHeader 10 payload.length).length + payload.length := by
      rw [List.length_append, hheader]
      omega
    rw [if_pos ⟨rfl, hp⟩, wsOutAppend, if_neg hsecond, List.append_assoc]

section Turn

variable (f : WsFrame) (tail dst : Bytes) (cl : WsClient) (fuel : Nat)
  (hinp : cl.inp = f.encode ++ tail) (hquit : cl.quitting = false)

include hinp

theorem decode_front : wsDecodeFrame cl.inp =
    .frame f.opcode f.fin f.payload f.encode.length (f.opened ++ tail) := by
  have hn : (f.encode ++ tail).length ≤ (f.encode ++ tail).length := Nat.le_refl _
  have h := f.decode_take tail hn
  rw [List.take_length, if_pos (by simp)] at h
  rw [hinp, h, List.length_append, Nat.add_sub_cancel_left, List.take_length]

theorem front_ne_nil : cl.inp ≠ [] := by
  have hlen := encode_length f
  intro h
  rw [hinp, List.append_eq_nil_iff] at h
  rw [h.1] at hlen
  exact absurd hlen (by simp)

include hquit

theorem wsLoop_ping (hop : f.opcode = 9) (hroom : cl.out.length + 2 + f.payload.length ≤ sendqMax) :
    wsLoop (fuel + 1) cl dst =
      wsLoop fuel { cl with inp := tail, out := cl.out ++ f.pong } dst := by
  have hne : ¬(cl.inp = [] ∨ cl.quitting = true) := by
    simp [front_ne_nil f tail cl hinp, hquit]
  have hpong : wsSendFrame { cl with inp := f.opened ++ tail } 10 f.payload =
      { cl with
        inp := f.opened ++ tail
        out := cl.out ++ (wsFrameHeader 10 f.payload.length ++ f.payload) } :=
    wsSendFrame_pong (f.control (by omega)).2 hroom
  rw [wsLoop, if_neg hne, decode_front f tail cl hinp]
  simp only [hop, hpong]
  rw [if_neg (by decide), if_pos trivial, WsFrame.pong, if_pos hop, List.drop_left' (opened_length f)]

theorem wsLoop_data (hop : f.opcode ≠ 9) (hroom : dst.length + f.payload.length + 1 ≤ readBuf)
    (hline : f.payload = [] → f.fin = true → dst.getLast? ≠ some newline) :
    wsLoop (fuel + 1) cl dst = wsLoop fuel { cl with inp := tail } (dst ++ f.line) := by
  have hne : ¬(cl.inp = [] ∨ cl.quitting = true) := by
    simp [front_ne_nil f tail cl hinp, hquit]
  have hknown := f.known
  simp only [List.mem_cons, List.not_mem_nil, or_false] at hknown
  rw [wsLoop, if_neg hne, decode_front f tail cl hinp]
  simp only
  rw [if_neg (by omega), if_neg hop, if_pos (by omega), if_neg (by omega), dst_line hline,
    WsFrame.line, if_neg hop, List.drop_left' (opened_length f)]

/-- A payload that finds none is left behind, unmasked. -/
theorem wsLoop_full (hop : f.opcode ≠ 9) (hroom : readBuf < dst.length + f.payload.length + 1) :
    wsLoop (fuel + 1) cl dst = some ({ cl with inp := f.opened ++ tail }, dst) := by
  have hne : ¬(cl.inp = [] ∨ cl.quitting = true) := by
    simp [front_ne_nil f tail cl hinp, hquit]
  have hknown := f.known
  simp only [List.mem_cons, List.not_mem_nil, or_false] at hknown
  rw [wsLoop, if_neg hne, decode_front f tail cl hinp]
  simp only
  rw [if_neg (by omega), if_neg hop, if_pos (by omega), if_pos hroom]

end Turn

theorem pong_length (f : WsFrame) (hop : f.opcode = 9) : f.pong.length = 2 + f.payload.length := by
  rw [WsFrame.pong, if_pos hop, wsFrameHeader, if_pos (by have := (f.control (by omega)).2; omega)]
  simp
  omega

/-! ## 7. One call -/

@[simp] theorem encodeAll_nil : encodeAll [] = [] := rfl

@[simp] theorem encodeAll_cons (f : WsFrame) (fs : List WsFrame) :
    encodeAll (f :: fs) = f.encode ++ encodeAll fs := rfl

/-- A client that holds the first bytes of the frames `rest`, and no whole one. This is the state
between two reads, when every frame that had come whole was taken out. -/
structure Holds (cl : WsClient) (n : Nat) (rest : List WsFrame) : Prop where
  inp : cl.inp = (encodeAll rest).take n
  within : n ≤ (encodeAll rest).length
  partly : ∀ f fs, rest = f :: fs → n < f.encode.length

/-- The loop over the first bytes of some frames takes the whole ones, if they are served. -/
theorem wsLoop_spec : ∀ (rest : List WsFrame) (n fuel : Nat) (cl : WsClient) (dst : Bytes),
    cl.inp = (encodeAll rest).take n → n ≤ (encodeAll rest).length → cl.quitting = false →
    n < fuel → Served cl.out.length dst (wholeFrames fuel cl.inp) →
    ∃ done left n' cl', rest = done ++ left ∧ n = (encodeAll done).length + n' ∧
      wsLoop fuel cl dst = some (cl', dst ++ done.flatMap WsFrame.line) ∧
      cl'.out = cl.out ++ done.flatMap WsFrame.pong ∧ cl'.quitting = false ∧ Holds cl' n' left
  | [], n, fuel, cl, dst, hinp, hn, hquit, hfuel, _ => by
    have hn0 : n = 0 := by simpa using hn
    have hempty : cl.inp = [] := by simpa using hinp
    refine ⟨[], [], n, cl, rfl, by simp, ?_, by simp, hquit, hinp, hn, fun f fs h => ?_⟩
    · obtain ⟨k, rfl⟩ := Nat.exists_eq_succ_of_ne_zero (show fuel ≠ 0 by omega)
      rw [wsLoop, if_pos (Or.inl hempty)]
      simp
    · exact absurd h (by simp)
  | f :: rest, n, fuel, cl, dst, hinp, hn, hquit, hfuel, hserved => by
    obtain ⟨k, rfl⟩ := Nat.exists_eq_succ_of_ne_zero (show fuel ≠ 0 by omega)
    rw [encodeAll_cons] at hinp hn
    have hdecode := f.decode_take (encodeAll rest) hn
    by_cases hwhole : f.encode.length ≤ n
    · have hsplit : cl.inp = f.encode ++ (encodeAll rest).take (n - f.encode.length) := by
        rw [hinp, List.take_append, List.take_of_length_le hwhole]
      have hdrop : cl.inp.drop f.encode.length = (encodeAll rest).take (n - f.encode.length) := by
        rw [hsplit, List.drop_left]
      have hlen := encode_length f
      rw [← hinp, if_pos hwhole] at hdecode
      rw [wholeFrames, hdecode] at hserved
      simp only [hdrop] at hserved
      have hn' : n - f.encode.length ≤ (encodeAll rest).length := by
        rw [List.length_append] at hn
        omega
      rw [Served] at hserved
      by_cases hop : f.opcode = 9
      · rw [if_pos hop] at hserved
        have hout : (cl.out ++ f.pong).length = cl.out.length + 2 + f.payload.length := by
          rw [List.length_append, pong_length f hop]
          omega
        obtain ⟨done, left, n', cl', hrest, hnn, hloop, hpongs, hq, hholds⟩ :=
          wsLoop_spec rest (n - f.encode.length) k
            { cl with
              inp := (encodeAll rest).take (n - f.encode.length), out := cl.out ++ f.pong }
            dst rfl hn' hquit (by omega) (by rw [hout]; exact hserved.2)
        refine ⟨f :: done, left, n', cl', by rw [hrest]; rfl, ?_, ?_, ?_, hq, hholds⟩
        · rw [encodeAll_cons, List.length_append]
          omega
        · have hline : f.line = [] := by rw [WsFrame.line, if_pos hop]
          rw [wsLoop_ping f _ dst cl k hsplit hquit hop hserved.1, hloop, List.flatMap_cons, hline,
            List.nil_append]
        · rw [hpongs, List.flatMap_cons, List.append_assoc]
      · rw [if_neg hop] at hserved
        have hline : f.line = wsLine f.fin f.payload := by rw [WsFrame.line, if_neg hop]
        have hpong : f.pong = [] := by rw [WsFrame.pong, if_neg hop]
        obtain ⟨done, left, n', cl', hrest, hnn, hloop, hpongs, hq, hholds⟩ :=
          wsLoop_spec rest (n - f.encode.length) k
            { cl with inp := (encodeAll rest).take (n - f.encode.length) } (dst ++ f.line) rfl hn'
            hquit (by omega) (by rw [hline]; exact hserved.2.2)
        refine ⟨f :: done, left, n', cl', by rw [hrest]; rfl, ?_, ?_, ?_, hq, hholds⟩
        · rw [encodeAll_cons, List.length_append]
          omega
        · rw [wsLoop_data f _ dst cl k hsplit hquit hop hserved.1 hserved.2.1, hloop,
            List.flatMap_cons, List.append_assoc]
        · rw [hpongs, List.flatMap_cons, hpong, List.nil_append]
    · rw [← hinp, if_neg hwhole] at hdecode
      refine ⟨[], f :: rest, n, cl, rfl, by simp, ?_, by simp, hquit, hinp, hn, fun g gs h => ?_⟩
      · rw [wsLoop, hdecode]
        split <;> simp
      · cases h
        omega

/-! ## 8. The whole run -/

theorem wsStep_read {r : WsRun} {n : Nat} {chunk dst : Bytes} {cl : WsClient}
    (hgo : r.rejected = false ∧ r.cl.quitting = false)
    (hchunk : r.stream.take (min n wsReadChunk) = chunk)
    (hsize : chunk ≠ [] → r.cl.inp.length + chunk.length ≤ 2 * wsMaxPayload)
    (hloop : wsLoop ((r.cl.inp ++ chunk).length + 1) { r.cl with inp := r.cl.inp ++ chunk } [] =
      some (cl, dst)) :
    wsStep r (.read n) =
      { cl := cl
        stream := r.stream.drop chunk.length
        delivered := r.delivered ++ dst
        answered := r.answered ++ cl.out.drop r.cl.out.length
        rejected := false
        called := true } := by
  have hfits : ¬(chunk ≠ [] ∧ 2 * wsMaxPayload < r.cl.inp.length + chunk.length) := by
    rintro ⟨hne, hlt⟩
    have := hsize hne
    omega
  have hread : wsRead r.cl chunk = (cl, some dst) := by
    rw [wsRead, if_neg hfits]
    simp only [hloop]
  rw [wsStep, if_neg (by simp [hgo.1, hgo.2])]
  simp only [hchunk, hread, Option.getD_some]
  rfl

/-- Where a connection stands: some frames are done, and of the rest `n` bytes have been read. -/
structure Reading (fs : List WsFrame) (r : WsRun) (done rest : List WsFrame) (n : Nat) : Prop where
  frames : fs = done ++ rest
  delivered : r.delivered = done.flatMap WsFrame.line
  answered : r.answered = done.flatMap WsFrame.pong
  inp : r.cl.inp = (encodeAll rest).take n
  within : n ≤ (encodeAll rest).length
  stream : r.stream = (encodeAll rest).drop n
  partly : r.called = true → ∀ f gs, rest = f :: gs → n < f.encode.length
  accepted : r.rejected = false ∧ r.cl.quitting = false

theorem encodeAll_append (fs gs : List WsFrame) :
    encodeAll (fs ++ gs) = encodeAll fs ++ encodeAll gs := by
  simp [encodeAll]

/-- A connection that stands somewhere within the frames `fs`. -/
def OnCourse (fs : List WsFrame) (r : WsRun) : Prop := ∃ done rest n, Reading fs r done rest n

/-- A call that meets the condition brings the connection on. -/
theorem OnCourse.step {fs : List WsFrame} {r : WsRun} {e : WsEvent} (h : OnCourse fs r)
    (hroom : Roomy r e) : OnCourse fs (wsStep r e) := by
  obtain ⟨done, rest, n, h⟩ := h
  cases e with
  | flush out =>
    exact ⟨done, rest, n, h.frames, h.delivered, h.answered, h.inp, h.within, h.stream, h.partly,
      h.accepted⟩
  | read m =>
    obtain ⟨hsize, hserved⟩ := hroom
    have hchunk : ∀ chunk, chunk = r.stream.take (min m wsReadChunk) →
        r.cl.inp ++ chunk = (encodeAll rest).take (n + chunk.length) ∧
          n + chunk.length ≤ (encodeAll rest).length ∧
          r.stream.drop chunk.length = (encodeAll rest).drop (n + chunk.length) := by
      intro chunk hc
      have hself : chunk = r.stream.take chunk.length := by
        rw [hc, List.length_take, List.take_eq_take_min]
      have hle : chunk.length ≤ (encodeAll rest).length - n := by
        rw [hc, h.stream, List.length_take, List.length_drop]
        omega
      have hwithin := h.within
      refine ⟨?_, by omega, ?_⟩
      · rw [List.take_add, ← h.stream, ← hself, h.inp]
      · rw [h.stream, List.drop_drop]
    obtain ⟨hinp, hle, hstream⟩ := hchunk _ rfl
    obtain ⟨done', left, n', cl', hrest, hn, hloop, hpongs, hq, hholds⟩ :=
      wsLoop_spec rest _ _ { r.cl with inp := r.cl.inp ++ r.stream.take (min m wsReadChunk) } [] hinp
        hle h.accepted.2 (by rw [hinp, List.length_take_of_le hle]; exact Nat.lt_succ_self _) hserved
    rw [List.nil_append] at hloop
    refine ⟨done ++ done', left, n', ?_⟩
    rw [wsStep_read h.accepted rfl hsize hloop]
    refine ⟨?_, ?_, ?_, hholds.inp, hholds.within, ?_, fun _ => hholds.partly, rfl, hq⟩
    · rw [h.frames, hrest, List.append_assoc]
    · rw [h.delivered, List.flatMap_append]
    · rw [h.answered, hpongs, List.drop_left, List.flatMap_append]
    · rw [hstream, hn, hrest, encodeAll_append, ← List.drop_drop, List.drop_left]

theorem Reading.lossless {fs : List WsFrame} {r : WsRun} {done rest : List WsFrame} {n : Nat}
    (h : Reading fs r done rest n) : Lossless fs r := by
  refine ⟨h.accepted, ⟨done, rest, h.frames, h.delivered, h.answered⟩, fun hcalled hend => ?_⟩
  have hrest : rest = [] := by
    cases hr : rest with
    | nil => rfl
    | cons f gs =>
      have hlt := h.partly hcalled f gs hr
      have hlen := congrArg List.length (h.stream.symm.trans hend)
      rw [hr, encodeAll_cons, List.length_drop, List.length_append, List.length_nil] at hlen
      omega
  rw [h.frames, hrest, List.append_nil]
  exact ⟨h.delivered, h.answered⟩

/-- **WebSocket input is lossless** in every run whose reads find the room they need: the lines are
delivered in their order, however the stream was cut. A frame that waits for room has already been
unmasked in place, and is unmasked again when it is looked at again. -/
theorem ws_lossless (fs : List WsFrame) (k : Nat) (response : Bytes) (es : List WsEvent)
    (h : Runs.Throughout wsStep Roomy (wsStart fs k response) es) :
    Lossless fs (es.foldl wsStep (wsStart fs k response)) := by
  have hstart : OnCourse fs (wsStart fs k response) := by
    refine ⟨[], fs, min k (encodeAll fs).length, rfl, rfl, rfl, ?_, by omega, ?_,
      fun hc => absurd hc (by simp [wsStart]), rfl, rfl⟩
    · exact List.take_eq_take_min
    · exact List.drop_eq_drop_min
  obtain ⟨done, rest, n, hr⟩ := Runs.invariant_of_step
    (fun r e (hr : OnCourse fs r) hok => hr.step hok) es _ hstart h
  exact hr.lossless

/-! ## 9. A frame that is left behind -/

/-- The frame with its masked payload for a payload. -/
def WsFrame.remasked (f : WsFrame) : WsFrame :=
  { f with
    payload := applyMask f.mask f.payload
    small := by simpa using f.small
    control := by simpa using f.control
    fits := by simpa using f.fits }

/-- What is left of a frame that was unmasked reads as the frame masked once more. -/
theorem opened_eq (f : WsFrame) : f.opened = f.remasked.encode := by
  have hlen : f.remasked.lenBytes = f.lenBytes := by
    simp only [ClientFrame.lenBytes, WsFrame.remasked, applyMask_length]
  have hhead : f.remasked.head = f.head := congrArg (f.firstByte :: ·) hlen
  rw [ClientFrame.encode, hhead]
  simp [ClientFrame.opened, WsFrame.remasked]

/-- "hi" and a ping. -/
def demoFrames : List WsFrame :=
  [⟨⟨1, true, .short, [1, 2, 3, 4], [0x68, 0x69], by decide, by decide, by decide, by decide,
      by decide⟩, by decide⟩,
    ⟨⟨9, true, .short, [1, 2, 3, 4], [7], by decide, by decide, by decide, by decide,
      by decide⟩, by decide⟩]

theorem ws_lossless_demo : Lossless demoFrames
    ([WsEvent.read 5, .read 100].foldl wsStep (wsStart demoFrames 1 [])) :=
  ws_lossless demoFrames 1 [] [.read 5, .read 100] ⟨by decide, by decide, trivial⟩

/-- A long line, and one that finds no room behind it. -/
def demoLong (n : Nat) (h : n ≤ 4000) : WsFrame where
  opcode := 1
  fin := true
  form := .medium
  mask := [1, 1, 1, 1]
  payload := List.replicate n 0x61
  known := by decide
  nibble := by decide
  masked := by decide
  small := by simpa [wsMaxPayload] using h
  control := fun hop => absurd hop (by decide)
  fits := fun hform => absurd hform (by decide)

theorem demoLong_length (n : Nat) (h : n ≤ 4000) : (demoLong n h).encode.length = n + 8 := by
  simp [ClientFrame.encode, ClientFrame.head, ClientFrame.lenBytes, LenForm.bytes, demoLong]

theorem head_wsLine (fin : Bool) (b : Byte) (p : Bytes) : (wsLine fin (b :: p)).head? = some b := by
  rw [wsLine]
  split <;> rfl

/-- The letters of a line, and what they are when they are masked once more. -/
theorem demoLong_line (n : Nat) (h : n + 1 ≤ 4000) :
    (demoLong (n + 1) h).line.head? = some 0x61 ∧
      (demoLong (n + 1) h).remasked.line.head? = some 0x60 ∧
      (demoLong (n + 1) h).line.length = n + 2 := by
  have hline : (demoLong (n + 1) h).line = wsLine true (List.replicate (n + 1) 0x61) := rfl
  have hmasked : (demoLong (n + 1) h).remasked.line =
      wsLine true (applyMask [1, 1, 1, 1] (List.replicate (n + 1) 0x61)) := rfl
  have hlast : (List.replicate (n + 1) (0x61 : Byte)).getLast? ≠ some newline := by
    rw [List.getLast?_replicate, if_neg (by omega)]
    decide
  refine ⟨?_, ?_, ?_⟩
  · rw [hline, List.replicate_succ]
    exact head_wsLine ..
  · rw [hmasked, List.replicate_succ, applyMask, List.mapIdx_cons]
    exact head_wsLine ..
  · rw [hline, wsLine, if_pos ⟨rfl, hlast⟩, List.length_append, List.length_replicate]
    rfl

/-- Two lines of 2048 and 2047 letters, cut behind the first hundred bytes: the second is
delivered masked. -/
theorem frame_unmasked_twice : ¬ ∀ (fs : List WsFrame) (k : Nat) (response : Bytes)
    (es : List WsEvent), Lossless fs (es.foldl wsStep (wsStart fs k response)) := by
  intro hall
  obtain ⟨f, hf⟩ : ∃ f, f = demoLong 2048 (by decide) := ⟨_, rfl⟩
  obtain ⟨g, hg⟩ : ∃ g, g = demoLong 2047 (by decide) := ⟨_, rfl⟩
  have hfl : f.encode.length = 2056 := hf ▸ demoLong_length 2048 (by decide)
  have hgl : g.encode.length = 2055 := hg ▸ demoLong_length 2047 (by decide)
  have hfop : f.opcode = 1 := by rw [hf]; rfl
  have hgop : g.opcode = 1 := by rw [hg]; rfl
  have hfp : f.payload.length = 2048 := by rw [hf]; exact List.length_replicate
  have hgp : g.payload.length = 2047 := by rw [hg]; exact List.length_replicate
  have hbytes : encodeAll [f, g] = f.encode ++ g.encode := by simp
  have hfline : f.line.length = 2049 := by
    rw [hf]
    exact (demoLong_line 2047 (by decide)).2.2
  obtain ⟨bytes, hb⟩ : ∃ bytes, bytes = f.encode ++ g.encode := ⟨_, rfl⟩
  have hbl : bytes.length = 4111 := by rw [hb, List.length_append, hfl, hgl]
  have h1 : wsStep (wsStart [f, g] 0 []) (.read 100) =
      ⟨⟨bytes.take 100, [], false⟩, bytes.drop 100, [], [], false, true⟩ := by
    have hlen : (bytes.take 100).length = 100 := by
      rw [List.length_take, hbl]
      rfl
    have hloop : wsLoop ((bytes.take 100).length + 1) ⟨bytes.take 100, [], false⟩ [] =
        some (⟨bytes.take 100, [], false⟩, []) := by
      have hdecode := f.decode_take g.encode (n := 100) (by rw [← hb, hbl]; decide)
      rw [hfl, if_neg (by decide), ← hb] at hdecode
      rw [wsLoop, hdecode]
      split <;> rfl
    have hstep := wsStep_read (r := wsStart [f, g] 0 []) ⟨rfl, rfl⟩ (n := 100)
      (by rw [wsStart, hbytes, ← hb]; rfl) (fun _ => by
        rw [hlen]
        exact (by decide : 0 + 100 ≤ 2 * wsMaxPayload)) hloop
    rw [hstep, hlen, wsStart, hbytes, ← hb]
    rfl
  have h2 : wsStep ⟨⟨bytes.take 100, [], false⟩, bytes.drop 100, [], [], false, true⟩ (.read 4011) =
      ⟨⟨g.opened, [], false⟩, [], f.line, [], false, true⟩ := by
    have hrest : (bytes.drop 100).take (min 4011 wsReadChunk) = bytes.drop 100 :=
      List.take_of_length_le (by rw [List.length_drop, hbl]; decide)
    have hloop : wsLoop ((bytes.take 100 ++ bytes.drop 100).length + 1)
        ⟨bytes.take 100 ++ bytes.drop 100, [], false⟩ [] = some (⟨g.opened, [], false⟩, f.line) := by
      rw [List.take_append_drop, hbl,
        wsLoop_data f g.encode [] _ _ hb rfl (by omega) (by rw [hfp]; decide) (fun h => by
          rw [h] at hfp
          exact absurd hfp (by decide)),
        wsLoop_full g [] _ _ _ (by rw [List.append_nil]) rfl (by omega)
          (by rw [List.nil_append, hfline, hgp]; decide), List.append_nil]
      rfl
    have hstep := wsStep_read (r := ⟨⟨bytes.take 100, [], false⟩, bytes.drop 100, [], [], false, true⟩)
      ⟨rfl, rfl⟩ hrest (fun _ => by
        rw [← List.length_append, List.take_append_drop, hbl]
        decide) hloop
    rw [hstep, List.drop_length]
    rfl
  have h3 : wsStep ⟨⟨g.opened, [], false⟩, [], f.line, [], false, true⟩ (.read 0) =
      ⟨⟨[], [], false⟩, [], f.line ++ g.remasked.line, [], false, true⟩ := by
    have hlen : (g.remasked.encode ++ []).length + 1 = 2056 := by
      rw [List.append_nil, ← opened_eq, opened_length, hgl]
    have hloop : wsLoop ((g.opened ++ []).length + 1) ⟨g.opened ++ [], [], false⟩ [] =
        some (⟨[], [], false⟩, g.remasked.line) := by
      rw [opened_eq, hlen, wsLoop_data g.remasked [] [] _ _ rfl rfl (by
        change g.opcode ≠ 9
        omega) (by rw [WsFrame.remasked, applyMask_length, hgp]; decide) (fun h => by
          rw [WsFrame.remasked] at h
          have hnil := congrArg List.length h
          rw [applyMask_length, hgp] at hnil
          exact absurd hnil (by decide)), wsLoop]
      rfl
    exact wsStep_read (r := ⟨⟨g.opened, [], false⟩, [], f.line, [], false, true⟩) ⟨rfl, rfl⟩ rfl
      (fun h => absurd rfl h) hloop
  have hend := (hall [f, g] 0 [] [.read 100, .read 4011, .read 0]).whole
  rw [List.foldl_cons, h1, List.foldl_cons, h2, List.foldl_cons, h3] at hend
  have hline : g.remasked.line = g.line := by
    have hdelivered := (hend rfl rfl).1
    simp only [List.foldl_nil, List.flatMap_cons, List.flatMap_nil, List.append_nil] at hdelivered
    exact List.append_cancel_left hdelivered
  have hgline := demoLong_line 2046 (by decide)
  rw [← hg, hline] at hgline
  rw [hgline.1] at hgline
  exact absurd hgline.2.1 (by decide)

end SekurIRCd
