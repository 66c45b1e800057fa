/-
# Both directions of the frame codec

The server writes a frame without a mask: a header, and the payload behind it.  The client's side
is not part of the program, so `readHead` says how a header is read there; the server's own side
is `wsDecodeFrame`.  `wsFrame_codec` is the law of both.
-/
import SekurIRCd.Ws.Read

namespace SekurIRCd

/-! ## 1. What is written -/

/-- `ws_encode_frame`. -/
def wsEncodeFrame (opcode : Nat) (payload : Bytes) : Bytes :=
  wsFrameHeader opcode payload.length ++ payload

/-- How many bytes the header before the mask has. -/
def LenForm.size : LenForm → Nat
  | .short => 2
  | .medium => 4
  | .long => 10

/-- The lengths from here on do not fit. -/
def LenForm.bound : LenForm → Nat
  | .short => 126
  | .medium => 2 ^ 16
  | .long => 2 ^ 64

/-- A header that has been read: with the payload's length and its own. -/
structure FrameHead where
  fin : Bool
  opcode : Nat
  len : Nat
  size : Nat
deriving DecidableEq, Repr

/-- The number that bytes are, the highest first. -/
def ofBytes (bs : Bytes) : Nat := bs.foldl (fun n b => n * 256 + b.toNat) 0

/-- A header without a mask, as it is read at the other end. -/
def readHead : Bytes → Option FrameHead
  | b0 :: b1 :: rest =>
    let fin := decide (b0 &&& 0x80#8 ≠ 0)
    let opcode := (b0 &&& 0x0f#8).toNat
    let len := (b1 &&& 0x7f#8).toNat
    if b0 &&& 0x70#8 ≠ 0 ∨ b1 &&& 0x80#8 ≠ 0 then none
    else if len < 126 then some ⟨fin, opcode, len, 2⟩
    else
      let n := if len = 126 then 2 else 8
      if rest.length < n then none else some ⟨fin, opcode, ofBytes (rest.take n), 2 + n⟩
  | _ => none

/-- The buffer behind a call of `ws_decode_frame`: only a whole frame is unmasked in it. -/
def Decoded.buffer (inp : Bytes) : Decoded → Bytes
  | .frame _ _ _ _ opened => opened
  | _ => inp

/-! ## 2. Bytes of a length -/

theorem ofBytes_concat (bs : Bytes) (b : Byte) : ofBytes (bs ++ [b]) = ofBytes bs * 256 + b.toNat :=
  List.foldl_append

/-- The last `k` bytes of a number. -/
theorem ofBytes_digits (len k : Nat) :
    ofBytes ((List.range k).reverse.map fun i => BitVec.ofNat 8 (len / 256 ^ i)) = len % 256 ^ k := by
  induction k generalizing len with
  | zero => exact (Nat.mod_one len).symm
  | succ k ih =>
    have hinit : (List.range k).reverse.map ((fun i => BitVec.ofNat 8 (len / 256 ^ i)) ∘ Nat.succ) =
        (List.range k).reverse.map fun i => BitVec.ofNat 8 (len / 256 / 256 ^ i) := by
      refine List.map_congr_left fun i _ => ?_
      rw [Function.comp_apply, Nat.succ_eq_add_one, Nat.pow_succ', Nat.div_div_eq_div_mul]
    rw [List.range_succ_eq_map, List.reverse_cons, List.map_append, ← List.map_reverse,
      List.map_map, hinit, List.map_singleton, ofBytes_concat, ih, Nat.pow_succ', Nat.mod_mul,
      BitVec.toNat_ofNat, Nat.pow_zero, Nat.div_one, Nat.add_comm, Nat.mul_comm]

theorem headByte_spec : ∀ opcode < 16, ∀ b, b = 0x80#8 ||| (BitVec.ofNat 8 opcode &&& 0x0f#8) →
    b &&& 0x70#8 = 0 ∧ b &&& 0x80#8 ≠ 0 ∧ (b &&& 0x0f#8).toNat = opcode := by
  intro opcode hop b hb
  subst hb
  revert opcode
  decide

theorem lenByte_spec : ∀ len < 126, BitVec.ofNat 8 len &&& 0x80#8 = 0 ∧
    (BitVec.ofNat 8 len &&& 0x7f#8).toNat = len := by decide

/-- A header with a length behind its second byte. -/
theorem readHead_long {b0 b1 : Byte} (hrsv : b0 &&& 0x70#8 = 0) (hmask : b1 &&& 0x80#8 = 0)
    (hlong : 126 ≤ (b1 &&& 0x7f#8).toNat) {bs : Bytes}
    (hbs : bs.length = if (b1 &&& 0x7f#8).toNat = 126 then 2 else 8) (rest : Bytes) :
    readHead (b0 :: b1 :: (bs ++ rest)) = some ⟨decide (b0 &&& 0x80#8 ≠ 0),
      (b0 &&& 0x0f#8).toNat, ofBytes bs, 2 + bs.length⟩ := by
  have hvalid : ¬(b0 &&& 0x70#8 ≠ 0 ∨ b1 &&& 0x80#8 ≠ 0) :=
    not_or.mpr ⟨not_not.mpr hrsv, not_not.mpr hmask⟩
  have hroom : ¬ (bs ++ rest).length < bs.length := by
    rw [List.length_append]
    exact Nat.not_lt.mpr (Nat.le_add_right ..)
  rw [readHead]
  simp only [← hbs]
  rw [if_neg hvalid, if_neg (Nat.not_lt.mpr hlong), if_neg hroom, List.take_left]

/-! ## 3. The header -/

/-- The form that is chosen fits, and no shorter one does. -/
theorem wsFrameHeader_shortest (opcode : Nat) {len : Nat} (hlen : len < LenForm.long.bound) :
    ∃ form : LenForm, (wsFrameHeader opcode len).length = form.size ∧ len < form.bound ∧
      ∀ g : LenForm, len < g.bound → form.size ≤ g.size := by
  rw [wsFrameHeader]
  by_cases hshort : len < 126
  · refine ⟨.short, ?_, hshort, fun g _ => ?_⟩
    · rw [if_pos hshort]
      rfl
    · cases g <;> decide
  · rw [if_neg hshort]
    by_cases hmedium : len ≤ 0xffff
    · refine ⟨.medium, ?_, Nat.lt_succ_of_le hmedium, fun g hg => ?_⟩
      · rw [if_pos hmedium]
        rfl
      · cases g with
        | short => exact absurd hg hshort
        | medium => exact Nat.le_refl _
        | long => decide
    · refine ⟨.long, ?_, hlen, fun g hg => ?_⟩
      · rw [if_neg hmedium]
        rfl
      · cases g with
        | short => exact absurd hg hshort
        | medium => exact absurd (Nat.le_of_lt_succ hg) hmedium
        | long => exact Nat.le_refl _

/-- **The header is read as it was written**, whatever comes behind it. -/
theorem readHead_header {opcode : Nat} (hop : opcode < 16) {len : Nat}
    (hlen : len < LenForm.long.bound) (rest : Bytes) : readHead (wsFrameHeader opcode len ++ rest) =
      some ⟨true, opcode, len, (wsFrameHeader opcode len).length⟩ := by
  obtain ⟨hrsv, hfin, hnibble⟩ := headByte_spec opcode hop _ rfl
  have hb0 := decide_eq_true hfin
  rw [wsFrameHeader]
  by_cases hshort : len < 126
  · obtain ⟨hmask, h7⟩ := lenByte_spec len hshort
    rw [if_pos hshort, List.cons_append, List.singleton_append, readHead]
    simp only [hb0, hnibble, h7]
    rw [if_neg (not_or.mpr ⟨not_not.mpr hrsv, not_not.mpr hmask⟩), if_pos hshort]
    rfl
  · rw [if_neg hshort]
    by_cases hmedium : len ≤ 0xffff
    · have hdigits : ofBytes [BitVec.ofNat 8 (len / 256), BitVec.ofNat 8 len] = len := by
        have h : ofBytes [BitVec.ofNat 8 (len / 256 ^ 1), BitVec.ofNat 8 (len / 256 ^ 0)] =
            len % 256 ^ 2 := ofBytes_digits len 2
        rwa [Nat.pow_one, Nat.pow_zero, Nat.div_one, Nat.mod_eq_of_lt (by omega)] at h
      have hread := @readHead_long _ 126 hrsv (by decide) (by decide)
        [BitVec.ofNat 8 (len / 256), BitVec.ofNat 8 len] rfl rest
      rw [hb0, hnibble, hdigits] at hread
      rw [if_pos hmedium]
      exact hread
    · have hdigits : ofBytes ([7, 6, 5, 4, 3, 2, 1, 0].map fun i => BitVec.ofNat 8 (len / 256 ^ i)) =
          len := by
        have h := ofBytes_digits len 8
        rw [Nat.mod_eq_of_lt (show len < 256 ^ 8 from hlen)] at h
        exact h
      have hread := @readHead_long _ 127 hrsv (by decide) (by decide)
        ([7, 6, 5, 4, 3, 2, 1, 0].map fun i => BitVec.ofNat 8 (len / 256 ^ i)) rfl rest
      rw [hb0, hnibble, hdigits] at hread
      rw [if_neg hmedium]
      exact hread

/-! ## 4. The codec -/

/-- **Both directions**: a header takes the shortest form and is read as it was written, for any
opcode and payload; and a client's frame is asked for, with nothing unmasked, until it is whole,
and then decoded. -/
theorem wsFrame_codec :
    (∀ (opcode : Nat) (payload : Bytes), opcode < 16 → payload.length < LenForm.long.bound →
      (∃ form : LenForm, (wsFrameHeader opcode payload.length).length = form.size ∧
        payload.length < form.bound ∧ ∀ g : LenForm, payload.length < g.bound →
          form.size ≤ g.size) ∧
      readHead (wsEncodeFrame opcode payload) =
        some ⟨true, opcode, payload.length, (wsFrameHeader opcode payload.length).length⟩) ∧
    ∀ (f : ClientFrame) (tail : Bytes),
      (∀ n < f.encode.length, wsDecodeFrame (f.encode.take n) = .more ∧
        (wsDecodeFrame (f.encode.take n)).buffer (f.encode.take n) = f.encode.take n) ∧
      wsDecodeFrame (f.encode ++ tail) =
        .frame f.opcode f.fin f.payload f.encode.length (f.opened ++ tail) := by
  constructor
  · intro opcode payload hop hlen
    exact ⟨wsFrameHeader_shortest opcode hlen, readHead_header hop hlen payload⟩
  · intro f tail
    constructor
    · intro n hn
      have hle : n ≤ (f.encode ++ []).length := by
        rw [List.append_nil]
        exact Nat.le_of_lt hn
      have hmore := f.decode_take [] hle
      rw [List.append_nil, if_neg (Nat.not_le.mpr hn)] at hmore
      rw [hmore]
      exact ⟨rfl, rfl⟩
    · have hframe := f.decode_take tail (Nat.le_refl _)
      rw [List.take_length, List.length_append, if_pos (Nat.le_add_right ..),
        Nat.add_sub_cancel_left, List.take_length] at hframe
      exact hframe

/-- The text `hi`, both ways. -/
theorem wsFrame_codec_hi :
    readHead (wsEncodeFrame 1 [0x68, 0x69]) = some ⟨true, 1, 2, 2⟩ ∧
    wsDecodeFrame [0x81, 0x82, 1, 2, 3, 4, 0x69, 0x6b] =
      .frame 1 true [0x68, 0x69] 8 [0x81, 0x82, 1, 2, 3, 4, 0x68, 0x69] := by
  constructor
  · exact (wsFrame_codec.1 1 [0x68, 0x69] (by decide) (by decide)).2
  · exact (wsFrame_codec.2 ⟨1, true, .short, [1, 2, 3, 4], [0x68, 0x69], by decide, rfl, by decide,
      by decide, by decide⟩ []).2

end SekurIRCd
