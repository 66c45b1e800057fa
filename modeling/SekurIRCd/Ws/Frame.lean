/-
# WebSocket frames

A client's frame is a header with an opcode and a length, four mask bytes and the masked payload.
`wsDecodeFrame` takes the frame at the front of a buffer.  It unmasks the payload in place, so
what it leaves behind is part of what it returns: a frame that is decoded and then not taken out
of the buffer stands there unmasked.

`ClientFrame.decode_take` is all that is used of it later: from the start of a frame that is masked
and within the limits it asks for more until the frame is whole, and then it returns that frame.
And those are the only frames that are accepted (`decode_sound`).
-/
import Mathlib.Data.List.Basic
import Mathlib.Data.List.TakeDrop

namespace SekurIRCd

abbrev Byte := BitVec 8

abbrev Bytes := List Byte

def wsMaxPayload : Nat := 4000

/-! ## 1. Decoding -/

/-- The mask bytes over a payload, again and again. -/
def applyMask (mask p : Bytes) : Bytes := p.mapIdx fun i b => b ^^^ mask.getD (i % 4) 0

/-- What `ws_decode_frame` returns: `1` with its outputs and the buffer as it is then, `0`
(`more`) or `-1` (`bad`). -/
inductive Decoded
  | more
  | bad
  | frame (opcode : Nat) (fin : Bool) (payload : Bytes) (consumed : Nat) (inp : Bytes)
deriving DecidableEq, Repr

/-- The length of the payload and of the header before the mask; the length of a frame that is
too long to count is not read (`some none`). -/
def wsLength (inp : Bytes) : Option (Option (Nat × Nat)) :=
  let len := (inp.getD 1 0 &&& 0x7f#8).toNat
  if len = 126 then
    if inp.length < 4 then none
    else some (some ((inp.getD 2 0).toNat * 256 + (inp.getD 3 0).toNat, 4))
  else if len = 127 then
    if inp.length < 10 then none
    else
      let l := ((inp.drop 2).take 8).foldl (fun l b => l * 256 + b.toNat) 0
      if wsMaxPayload < l then some none else some (some (l, 10))
  else some (some (len, 2))

/-- `ws_decode_frame`. -/
def wsDecodeFrame (inp : Bytes) : Decoded :=
  if inp.length < 2 then .more
  else if inp.getD 0 0 &&& 0x70#8 ≠ 0 then .bad
  else
    let fin := decide (inp.getD 0 0 &&& 0x80#8 ≠ 0)
    let opcode := (inp.getD 0 0 &&& 0x0f#8).toNat
    if inp.getD 1 0 &&& 0x80#8 = 0 then .bad
    else
      match wsLength inp with
      | none => .more
      | some none => .bad
      | some (some (len, h)) =>
        if wsMaxPayload < len then .bad
        else if 8 ≤ opcode ∧ (125 < len ∨ fin = false) then .bad
        else if inp.length < h + 4 + len then .more
        else
          let payload := applyMask ((inp.drop h).take 4) ((inp.drop (h + 4)).take len)
          .frame opcode fin payload (h + 4 + len)
            (inp.take (h + 4) ++ payload ++ inp.drop (h + 4 + len))

/-! ## 2. What clients send

A client may write a length in a longer form than it needs, and the decoder takes any that fits. -/

/-- The three ways to write a length, in seven bits, two bytes or eight. The code takes a longer
one than is needed, too. -/
inductive LenForm
  | short | medium | long
deriving DecidableEq, Repr

/-- The bytes of a length, with the bit that says that a mask comes behind them. -/
def LenForm.bytes (len : Nat) : LenForm → Bytes
  | .short => [BitVec.ofNat 8 (128 + len)]
  | .medium => [0xfe, BitVec.ofNat 8 (len / 256), BitVec.ofNat 8 (len % 256)]
  | .long => [0xff, 0, 0, 0, 0, 0, 0, BitVec.ofNat 8 (len / 256), BitVec.ofNat 8 (len % 256)]

/-- A valid masked frame: its length is written in any of the three ways that it fits into. Control
frames are short and in one piece. -/
structure ClientFrame where
  opcode : Nat
  fin : Bool
  form : LenForm
  mask : Bytes
  payload : Bytes
  nibble : opcode < 16
  masked : mask.length = 4
  small : payload.length ≤ wsMaxPayload
  control : 8 ≤ opcode → fin = true ∧ payload.length ≤ 125
  fits : form = .short → payload.length < 126
deriving DecidableEq

namespace ClientFrame

variable (f : ClientFrame)

/-- The bytes of the length. -/
def lenBytes : Bytes := f.form.bytes f.payload.length

def firstByte : Byte := BitVec.ofNat 8 ((if f.fin then 128 else 0) + f.opcode)

/-- The header, up to the mask. -/
def head : Bytes := f.firstByte :: f.lenBytes

/-- The frame on the wire. -/
def encode : Bytes := f.head ++ f.mask ++ applyMask f.mask f.payload

/-- The frame as it stands in a buffer when it has been decoded. -/
def opened : Bytes := f.head ++ f.mask ++ f.payload

end ClientFrame

/-- A frame of a client's stream: text, binary, a continuation or a ping. A close frame ends the
connection, and frames of other kinds deliver nothing. -/
structure WsFrame extends ClientFrame where
  known : opcode ∈ [0, 1, 2, 9]
deriving DecidableEq

/-! ## 3. Masks

The mask bytes go round and round, so a part of a payload is masked as it was in the whole, up to a
turn. -/

@[simp] theorem applyMask_length (mask p : Bytes) : (applyMask mask p).length = p.length := by
  simp [applyMask]

@[simp] theorem applyMask_applyMask (mask p : Bytes) : applyMask mask (applyMask mask p) = p := by
  refine List.ext_getElem (by simp) fun i h1 h2 => ?_
  simp only [applyMask, List.getElem_mapIdx]
  rw [BitVec.xor_assoc, BitVec.xor_self, BitVec.xor_zero]

/-! ## 4. A frame is decoded as it was sent -/

theorem firstByte_spec (f : ClientFrame) : f.firstByte &&& 0x70#8 = 0 ∧
    decide (f.firstByte &&& 0x80#8 ≠ 0) = f.fin ∧ (f.firstByte &&& 0x0f#8).toNat = f.opcode := by
  have hall : ∀ op < 16, ∀ fin : Bool,
      let b := BitVec.ofNat 8 ((if fin then 128 else 0) + op)
      b &&& 0x70#8 = 0 ∧ decide (b &&& 0x80#8 ≠ 0) = fin ∧ (b &&& 0x0f#8).toNat = op := by decide
  exact hall f.opcode f.nibble f.fin

theorem shortByte_spec : ∀ len < 126, (BitVec.ofNat 8 (128 + len) &&& 0x80#8 ≠ 0) ∧
    (BitVec.ofNat 8 (128 + len) &&& 0x7f#8).toNat = len := by decide

theorem ClientFrame.head_length_le (f : ClientFrame) : 2 ≤ f.head.length ∧ f.head.length ≤ 10 := by
  cases hf : f.form <;> simp [ClientFrame.head, ClientFrame.lenBytes, hf, LenForm.bytes]

theorem two_bytes {len : Nat} (h : len < 65536) :
    (BitVec.ofNat 8 (len / 256)).toNat * 256 + (BitVec.ofNat 8 (len % 256)).toNat = len := by
  simp only [BitVec.toNat_ofNat]
  omega

/-- A byte within the first `n`. -/
theorem getD_take {n i : Nat} (h : i < n) (l : Bytes) : (l.take n).getD i 0 = l.getD i 0 := by
  rw [List.getD_eq_getElem?_getD, List.getElem?_take, if_pos h, ← List.getD_eq_getElem?_getD]

/-- The length is read as soon as the header is there. -/
theorem wsLength_take (f : ClientFrame) (rest : Bytes) {n : Nat} (h2 : 2 ≤ n)
    (hn : n ≤ (f.head ++ rest).length) : wsLength ((f.head ++ rest).take n) =
      if f.head.length ≤ n then some (some (f.payload.length, f.head.length)) else none := by
  have hsmall := f.small
  simp only [wsMaxPayload] at hsmall
  have hlen : ((f.head ++ rest).take n).length = n := List.length_take_of_le hn
  have hpair := @two_bytes f.payload.length (by omega)
  rw [wsLength]
  simp only [hlen, getD_take (show 1 < n by omega)]
  cases hf : f.form with
  | short =>
    have hshort := f.fits hf
    have hbyte := (shortByte_spec f.payload.length hshort).2
    have hhead : f.head = [f.firstByte, BitVec.ofNat 8 (128 + f.payload.length)] := by
      rw [ClientFrame.head, ClientFrame.lenBytes, hf, LenForm.bytes]
    have h1 : (f.head ++ rest).getD 1 0 = BitVec.ofNat 8 (128 + f.payload.length) := by
      rw [hhead]
      rfl
    rw [h1, hbyte, if_neg (by omega), if_neg (by omega), hhead]
    exact (if_pos h2).symm
  | medium =>
    have hhead : f.head = [f.firstByte, 0xfe, BitVec.ofNat 8 (f.payload.length / 256),
        BitVec.ofNat 8 (f.payload.length % 256)] := by
      rw [ClientFrame.head, ClientFrame.lenBytes, hf, LenForm.bytes]
    have h1 : ((f.head ++ rest).getD 1 0 &&& 0x7f#8).toNat = 126 := by
      have hb : (f.head ++ rest).getD 1 0 = 0xfe := by
        rw [hhead]
        rfl
      rw [hb]
      decide
    have hl : f.head.length = 4 := by rw [hhead]; rfl
    rw [h1, if_pos rfl, hl]
    by_cases h4 : n < 4
    · rw [if_pos h4, if_neg (by omega)]
    · rw [if_neg h4, if_pos (by omega), getD_take (by omega), getD_take (by omega)]
      have hb : ((f.head ++ rest).getD 2 0).toNat * 256 + ((f.head ++ rest).getD 3 0).toNat =
          f.payload.length := by
        rw [hhead]
        exact hpair
      rw [hb]
  | long =>
    have hhead : f.head = [f.firstByte, 0xff, 0, 0, 0, 0, 0, 0,
        BitVec.ofNat 8 (f.payload.length / 256), BitVec.ofNat 8 (f.payload.length % 256)] := by
      rw [ClientFrame.head, ClientFrame.lenBytes, hf, LenForm.bytes]
    have h1 : ((f.head ++ rest).getD 1 0 &&& 0x7f#8).toNat = 127 := by
      have hb : (f.head ++ rest).getD 1 0 = 0xff := by
        rw [hhead]
        rfl
      rw [hb]
      decide
    have hl : f.head.length = 10 := by rw [hhead]; rfl
    rw [h1, if_neg (by decide), if_pos rfl, hl]
    by_cases h10 : n < 10
    · rw [if_pos h10, if_neg (by omega)]
    · have htake : (((f.head ++ rest).take n).drop 2).take 8 = [0, 0, 0, 0, 0, 0,
          BitVec.ofNat 8 (f.payload.length / 256), BitVec.ofNat 8 (f.payload.length % 256)] := by
        rw [List.drop_take, List.take_take, Nat.min_eq_left (by omega), hhead]
        rfl
      have hfold : ((((f.head ++ rest).take n).drop 2).take 8).foldl
          (fun l b => l * 256 + b.toNat) 0 = f.payload.length := by
        have hzero : (0 : Byte).toNat = 0 := rfl
        rw [htake]
        simp only [List.foldl_cons, List.foldl_nil, hzero, Nat.zero_mul, Nat.zero_add, hpair]
      rw [if_neg h10, hfold, if_neg (by rw [wsMaxPayload]; omega), if_pos (by omega)]

/-- **A frame is asked for until it is whole, and then it is returned.** -/
theorem ClientFrame.decode_take (f : ClientFrame) (tail : Bytes) {n : Nat}
    (hn : n ≤ (f.encode ++ tail).length) : wsDecodeFrame ((f.encode ++ tail).take n) =
      if f.encode.length ≤ n then
        .frame f.opcode f.fin f.payload f.encode.length (f.opened ++ tail.take (n - f.encode.length))
      else .more := by
  have hlen : ((f.encode ++ tail).take n).length = n := List.length_take_of_le hn
  have hencode : f.encode.length = f.head.length + 4 + f.payload.length := by
    simp [ClientFrame.encode, f.masked]
    omega
  obtain ⟨hhead2, hhead10⟩ := f.head_length_le
  rw [wsDecodeFrame, hlen]
  by_cases h2 : n < 2
  · rw [if_pos h2, if_neg (by omega)]
  have hassoc : f.encode ++ tail = f.head ++ (f.mask ++ applyMask f.mask f.payload ++ tail) := by
    simp [ClientFrame.encode]
  obtain ⟨hrsv, hfin, hop⟩ := firstByte_spec f
  have h0 : ((f.encode ++ tail).take n).getD 0 0 = f.firstByte := by
    rw [getD_take (by omega)]
    rfl
  have h1 : ((f.encode ++ tail).take n).getD 1 0 &&& 0x80#8 ≠ 0 := by
    rw [getD_take (by omega)]
    cases hf : f.form with
    | short =>
      have hb : (f.encode ++ tail).getD 1 0 = BitVec.ofNat 8 (128 + f.payload.length) := by
        simp [ClientFrame.encode, ClientFrame.head, ClientFrame.lenBytes, hf, LenForm.bytes]
      rw [hb]
      exact (shortByte_spec f.payload.length (f.fits hf)).1
    | medium =>
      have hb : (f.encode ++ tail).getD 1 0 = 0xfe := by
        simp [ClientFrame.encode, ClientFrame.head, ClientFrame.lenBytes, hf, LenForm.bytes]
      rw [hb]
      decide
    | long =>
      have hb : (f.encode ++ tail).getD 1 0 = 0xff := by
        simp [ClientFrame.encode, ClientFrame.head, ClientFrame.lenBytes, hf, LenForm.bytes]
      rw [hb]
      decide
  rw [if_neg h2, h0, if_neg (by simp [hrsv]), if_neg h1, hfin, hop]
  have hlength : wsLength ((f.encode ++ tail).take n) =
      if f.head.length ≤ n then some (some (f.payload.length, f.head.length)) else none := by
    rw [hassoc] at hn ⊢
    exact wsLength_take f _ (by omega) hn
  rw [hlength]
  by_cases hhead : f.head.length ≤ n
  · rw [if_pos hhead]
    have hcontrol : ¬(8 ≤ f.opcode ∧ (125 < f.payload.length ∨ f.fin = false)) := by
      rintro ⟨h8, hbad⟩
      obtain ⟨hf, hp⟩ := f.control h8
      rcases hbad with hbad | hbad
      · omega
      · rw [hf] at hbad
        exact absurd hbad (by decide)
    simp only
    rw [if_neg (by have := f.small; omega), if_neg hcontrol]
    by_cases hwhole : f.encode.length ≤ n
    · rw [if_neg (by omega), if_pos hwhole]
      have htake : (f.encode ++ tail).take n =
          f.head ++ (f.mask ++ (applyMask f.mask f.payload ++ tail.take (n - f.encode.length))) := by
        rw [List.take_append, List.take_of_length_le hwhole]
        simp [ClientFrame.encode]
      have hmask : (((f.encode ++ tail).take n).drop f.head.length).take 4 = f.mask := by
        rw [htake, List.drop_left, ← f.masked, List.take_left]
      have hrest : ((f.encode ++ tail).take n).drop (f.head.length + 4) =
          applyMask f.mask f.payload ++ tail.take (n - f.encode.length) := by
        rw [htake, ← List.drop_drop, List.drop_left, ← f.masked, List.drop_left]
      have hpayload : (((f.encode ++ tail).take n).drop (f.head.length + 4)).take f.payload.length =
          applyMask f.mask f.payload := by
        rw [hrest]
        exact List.take_left' (applyMask_length ..)
      have hfront : ((f.encode ++ tail).take n).take (f.head.length + 4) = f.head ++ f.mask := by
        rw [htake, ← List.append_assoc]
        exact List.take_left' (by rw [List.length_append, f.masked])
      have htail : ((f.encode ++ tail).take n).drop (f.head.length + 4 + f.payload.length) =
          tail.take (n - f.encode.length) := by
        rw [← List.drop_drop, hrest]
        exact List.drop_left' (applyMask_length ..)
      rw [hmask, hpayload, hfront, htail, applyMask_applyMask, ← hencode]
      rfl
    · rw [if_pos (by omega), if_neg hwhole]
  · rw [if_neg hhead, if_neg (by omega)]

/-! ## 5. Only such frames are accepted -/

theorem firstByte_sound : ∀ b : Byte, b &&& 0x70#8 = 0 →
    BitVec.ofNat 8 ((if decide (b &&& 0x80#8 ≠ 0) then 128 else 0) + (b &&& 0x0f#8).toNat) = b := by
  decide

theorem lenByte_sound : ∀ b : Byte, b &&& 0x80#8 ≠ 0 →
    BitVec.ofNat 8 (128 + (b &&& 0x7f#8).toNat) = b := by decide

theorem nibble_lt : ∀ b : Byte, (b &&& 0x0f#8).toNat < 16 := by decide

theorem sevenBits_lt : ∀ b : Byte, (b &&& 0x7f#8).toNat < 128 := by decide

theorem bytes_of_two (x y : Byte) : [BitVec.ofNat 8 ((x.toNat * 256 + y.toNat) / 256),
    BitVec.ofNat 8 ((x.toNat * 256 + y.toNat) % 256)] = [x, y] := by
  have hy := y.isLt
  have hdiv : (x.toNat * 256 + y.toNat) / 256 = x.toNat := by omega
  have hmod : (x.toNat * 256 + y.toNat) % 256 = y.toNat := by omega
  rw [hdiv, hmod, BitVec.ofNat_toNat, BitVec.ofNat_toNat, BitVec.setWidth_eq, BitVec.setWidth_eq]

/-- The length that was read stands in the header in one of the three ways. -/
theorem wsLength_sound {b0 b1 : Byte} {rest : Bytes} (hmask : b1 &&& 0x80#8 ≠ 0) {len h : Nat}
    (hlen : wsLength (b0 :: b1 :: rest) = some (some (len, h))) (hsmall : len ≤ wsMaxPayload) :
    ∃ (form : LenForm) (more : Bytes), (form = .short → len < 126) ∧
      b1 :: rest = form.bytes len ++ more ∧ (form.bytes len).length + 1 = h := by
  have hbyte := lenByte_sound b1 hmask
  have hseven := sevenBits_lt b1
  have h1 : (b0 :: b1 :: rest).getD 1 0 = b1 := rfl
  rw [wsLength] at hlen
  simp only [h1] at hlen
  by_cases h126 : (b1 &&& 0x7f#8).toNat = 126
  · rw [if_pos h126] at hlen
    by_cases hroom : (b0 :: b1 :: rest).length < 4
    · rw [if_pos hroom] at hlen
      exact absurd hlen (by simp)
    · rw [if_neg hroom] at hlen
      obtain ⟨rfl, rfl⟩ := Prod.mk.inj (Option.some.inj (Option.some.inj hlen))
      rcases rest with _ | ⟨x, _ | ⟨y, more⟩⟩
      · exact absurd (show 2 < 4 by decide) hroom
      · exact absurd (show 3 < 4 by decide) hroom
      · refine ⟨.medium, more, fun h => absurd h (by decide), ?_, rfl⟩
        have hfirst : b1 = 0xfe := by
          rw [← hbyte, h126]
          rfl
        have hpair := bytes_of_two x y
        rw [hfirst]
        exact congrArg (fun l => 0xfe :: (l ++ more)) hpair.symm
  · rw [if_neg h126] at hlen
    by_cases h127 : (b1 &&& 0x7f#8).toNat = 127
    · rw [if_pos h127] at hlen
      by_cases hroom : (b0 :: b1 :: rest).length < 10
      · rw [if_pos hroom] at hlen
        exact absurd hlen (by simp)
      · rw [if_neg hroom] at hlen
        split at hlen
        · exact absurd hlen (by simp)
        · obtain ⟨hsum, rfl⟩ := Prod.mk.inj (Option.some.inj (Option.some.inj hlen))
          have hfirst : b1 = 0xff := by
            rw [← hbyte, h127]
            rfl
          have hten : 8 ≤ rest.length := by
            simp only [List.length_cons] at hroom
            omega
          obtain ⟨front, more, rfl, hfront⟩ : ∃ front more, rest = front ++ more ∧
              front.length = 8 :=
            ⟨rest.take 8, rest.drop 8, (List.take_append_drop 8 rest).symm,
              List.length_take_of_le hten⟩
          match front, hfront with
          | [c0, c1, c2, c3, c4, c5, x, y], _ =>
            have hlow : len = x.toNat * 256 + y.toNat ∧ c0 = 0 ∧ c1 = 0 ∧ c2 = 0 ∧ c3 = 0 ∧
                c4 = 0 ∧ c5 = 0 := by
              have hzero : ∀ c : Byte, c.toNat = 0 → c = 0 := fun c hc => BitVec.eq_of_toNat_eq hc
              rw [wsMaxPayload] at hsmall
              simp only [List.drop_succ_cons, List.drop_zero, List.cons_append, List.nil_append,
                List.take_succ_cons, List.take_zero, List.foldl_cons, List.foldl_nil] at hsum
              refine ⟨?_, ?_, ?_, ?_, ?_, ?_, ?_⟩
              · omega
              all_goals
                apply hzero
                omega
            obtain ⟨rfl, rfl, rfl, rfl, rfl, rfl, rfl⟩ := hlow
            refine ⟨.long, more, fun h => absurd h (by decide), ?_, rfl⟩
            have hpair := bytes_of_two x y
            rw [hfirst]
            exact congrArg (fun l => 0xff :: 0 :: 0 :: 0 :: 0 :: 0 :: 0 :: (l ++ more)) hpair.symm
    · rw [if_neg h127] at hlen
      obtain ⟨rfl, rfl⟩ := Prod.mk.inj (Option.some.inj (Option.some.inj hlen))
      refine ⟨.short, rest, fun _ => by omega, ?_, rfl⟩
      rw [LenForm.bytes, hbyte]
      rfl

theorem encode_of_bytes (f : ClientFrame) {b0 : Byte} (hfirst : f.firstByte = b0) {len : Nat}
    (hlen : f.payload.length = len) {more p : Bytes} (hmore : more = f.mask ++ p)
    (hp : f.payload = applyMask f.mask (p.take len)) :
    (b0 :: f.form.bytes len) ++ more = f.encode ++ more.drop (4 + len) := by
  have hrest : p = applyMask f.mask f.payload ++ more.drop (4 + len) := by
    rw [hp, applyMask_applyMask, hmore, ← List.drop_drop, ← f.masked, List.drop_left,
      List.take_append_drop]
  rw [ClientFrame.encode, ClientFrame.head, ClientFrame.lenBytes, hfirst, hlen, List.append_assoc,
    List.append_assoc, ← hrest, ← hmore]

/-- **Only valid frames are accepted**: one stands at the front of the buffer, masked and with its
length in a form that fits it. -/
theorem decode_sound {inp : Bytes} {opcode : Nat} {fin : Bool} {payload : Bytes} {consumed : Nat}
    {opened : Bytes} (h : wsDecodeFrame inp = .frame opcode fin payload consumed opened) :
    ∃ (f : ClientFrame) (tail : Bytes), inp = f.encode ++ tail ∧ f.opcode = opcode ∧ f.fin = fin ∧
      f.payload = payload := by
  rw [wsDecodeFrame] at h
  by_cases h2 : inp.length < 2
  · rw [if_pos h2] at h
    exact absurd h (by simp)
  match inp, h2, h with
  | b0 :: b1 :: rest, h2, h =>
    rw [if_neg h2, show (b0 :: b1 :: rest).getD 0 0 = b0 from rfl,
      show (b0 :: b1 :: rest).getD 1 0 = b1 from rfl] at h
    by_cases hrsv : b0 &&& 0x70#8 ≠ 0
    · rw [if_pos hrsv] at h
      exact absurd h (by simp)
    rw [if_neg hrsv] at h
    by_cases hmask : b1 &&& 0x80#8 = 0
    · rw [if_pos hmask] at h
      exact absurd h (by simp)
    simp only [if_neg hmask] at h
    rcases hlen : wsLength (b0 :: b1 :: rest) with _ | _ | ⟨len, k⟩
    · rw [hlen] at h
      exact absurd h (by simp)
    · rw [hlen] at h
      exact absurd h (by simp)
    · rw [hlen] at h
      simp only at h
      split at h
      · exact absurd h (by simp)
      · split at h
        · exact absurd h (by simp)
        · split at h
          · exact absurd h (by simp)
          · next hsmall hcontrol hwhole =>
            obtain ⟨rfl, rfl, rfl, -, -⟩ := Decoded.frame.inj h
            obtain ⟨form, more, hfits, hmore, hk⟩ :=
              wsLength_sound hmask hlen (Nat.le_of_not_lt hsmall)
            have hinp : b0 :: b1 :: rest = (b0 :: form.bytes len) ++ more := by
              rw [hmore]
              rfl
            have hk' : k = (b0 :: form.bytes len).length := hk.symm
            rw [hinp, List.length_append, ← hk', Nat.add_assoc, Nat.add_lt_add_iff_left] at hwhole
            have hroom : 4 + len ≤ more.length := Nat.le_of_not_lt hwhole
            have hpayload : (applyMask (more.take 4) ((more.drop 4).take len)).length = len := by
              rw [applyMask_length, List.length_take, List.length_drop]
              omega
            refine ⟨{
              opcode := (b0 &&& 0x0f#8).toNat
              fin := decide (b0 &&& 0x80#8 ≠ 0)
              form := form
              mask := more.take 4
              payload := applyMask (more.take 4) ((more.drop 4).take len)
              nibble := nibble_lt b0
              masked := List.length_take_of_le (by omega)
              small := hpayload.symm ▸ Nat.le_of_not_lt hsmall
              control := ?_
              fits := hpayload.symm ▸ hfits }, more.drop (4 + len), ?_, rfl, rfl, ?_⟩
            · intro h8
              obtain ⟨hshort, hfin⟩ := not_or.mp (not_and.mp hcontrol h8)
              rw [hpayload]
              exact ⟨eq_true_of_ne_false hfin, Nat.le_of_not_lt hshort⟩
            · rw [hinp]
              exact encode_of_bytes ⟨_, _, _, _, _, _, _, _, _, _⟩
                (firstByte_sound b0 (not_not.mp hrsv)) hpayload
                (List.take_append_drop 4 more).symm rfl
            · rw [← List.drop_drop, hinp, hk', List.drop_left]

end SekurIRCd
