/-
# Characters on their way

What becomes of the bytes of a UTF-8 text on its way: some are left out, at a cut or because +S
takes a colour away, and some are starred.  Each byte is marked with whether the text goes on with
a byte of the same character (`marks`), and keeps its mark whatever becomes of the others.

What arrives is UTF-8 again exactly if no character arrives in part (`pieces_utf8_iff`): a byte that
the text goes on from has the next one behind it, and a starred character is starred whole.  That
only ASCII is left out from the middle and nothing is moved is all that is asked of the way
(`Pieces`).
-/
import SekurIRCd.Proto
import SekurIRCd.Utf8

namespace SekurIRCd

open CLib

/-! ## 1. Parts

A byte either begins a character or continues one, and which of them it does is seen by itself. -/

theorem Utf8.append {a b : List UInt8} (ha : Utf8 a) (hb : Utf8 b) : Utf8 (a ++ b) := by
  obtain ⟨cs, hcs, rfl⟩ := ha
  obtain ⟨ds, hds, rfl⟩ := hb
  refine ⟨cs ++ ds, fun cp hcp => ?_, by rw [List.flatMap_append]⟩
  exact (List.mem_append.mp hcp).elim (hcs cp) (hds cp)

theorem high_of_lead {c : UInt8} (h : 0xC0 ≤ c.toNat) : ¬ c < 0x80 ∧ ¬ IsTail c := by
  rw [UInt8.lt_iff_toNat_lt, IsTail]
  have hval : (0x80 : UInt8).toNat = 0x80 := rfl
  omega

theorem high_of_tail {c : UInt8} (h : IsTail c) : ¬ c < 0x80 := by
  rw [UInt8.lt_iff_toNat_lt]
  exact Nat.not_lt.mpr h.1

theorem utf8_octets_iff {cp : Nat} (hcp : IsScalar cp) {r : List UInt8} :
    Utf8 (utf8Octets cp ++ r) ↔ Utf8 r := by
  by_cases hshort : cp < 0x80
  · rw [utf8Octets_ascii hshort]
    refine utf8_ascii_iff (UInt8.lt_iff_toNat_lt.mpr ?_)
    rw [UInt8.toNat_ofNat']
    exact (Nat.mod_le ..).trans_lt hshort
  · obtain ⟨c, ts, min, bits, hoct, hlead, hread, hts, hval, hmin⟩ :=
      utf8Octets_read hcp (Nat.le_of_not_lt hshort)
    rw [hoct, List.cons_append, utf8_long_iff (high_of_lead hlead).1 hread hts, hval]
    exact and_iff_right ⟨hmin, hcp⟩

/-- What stands behind characters is UTF-8 exactly if all of it together is. -/
theorem Utf8.append_iff {a : List UInt8} (ha : Utf8 a) {b : List UInt8} :
    Utf8 (a ++ b) ↔ Utf8 b := by
  obtain ⟨cps, hcps, rfl⟩ := ha
  induction cps with
  | nil => rfl
  | cons cp cps ih =>
    obtain ⟨hcp, hcps⟩ := List.forall_mem_cons.mp hcps
    rw [List.flatMap_cons, List.append_assoc, utf8_octets_iff hcp]
    exact ih hcps

/-- A character has no continuing byte in front, and none but such behind its first. -/
theorem octets_shape {cp : Nat} (hcp : IsScalar cp) : ∃ c ts, utf8Octets cp = c :: ts ∧
    ¬ IsTail c ∧ (∀ b ∈ ts, IsTail b) ∧ (ts ≠ [] → ¬ c < 0x80) := by
  by_cases hshort : cp < 0x80
  · refine ⟨.ofNat cp, [], utf8Octets_ascii hshort, fun htail => ?_,
      fun _ h => absurd h List.not_mem_nil, fun h => absurd rfl h⟩
    have hlow := htail.1
    rw [UInt8.toNat_ofNat'] at hlow
    omega
  · obtain ⟨c, ts, -, -, hoct, hlead, -, hts, -⟩ :=
      utf8Octets_read hcp (Nat.le_of_not_lt hshort)
    exact ⟨c, ts, hoct, (high_of_lead hlead).2, hts, fun _ => (high_of_lead hlead).1⟩

theorem not_utf8_tail {c : UInt8} (hc : IsTail c) (s : List UInt8) : ¬ Utf8 (c :: s) := by
  intro h
  obtain ⟨cp, r, hcp, heq, -⟩ := h.uncons
  obtain ⟨d, ts, hoct, hd, -⟩ := octets_shape hcp
  rw [hoct, List.cons_append] at heq
  exact hd ((List.cons.inj heq).1 ▸ hc)

/-- **A character begins at each byte that does not continue one.** So a string can be taken apart
in front of such a byte. -/
theorem utf8_split {c : UInt8} (hc : ¬ IsTail c) {a b : List UInt8} :
    Utf8 (a ++ c :: b) ↔ Utf8 a ∧ Utf8 (c :: b) := by
  constructor
  · rintro ⟨cps, hcps, heq⟩
    induction cps generalizing a with
    | nil => exact absurd heq (by simp)
    | cons cp cps ih =>
      obtain ⟨hcp, hcps'⟩ := List.forall_mem_cons.mp hcps
      rw [List.flatMap_cons] at heq
      rcases List.append_eq_append_iff.mp heq with ⟨m, hm, hr⟩ | ⟨m, rfl, hr⟩
      · cases m with
        | nil =>
          rw [List.append_nil] at hm
          rw [List.nil_append] at hr
          refine ⟨hm ▸ ?_, hr ▸ ⟨cps, hcps', rfl⟩⟩
          have hone := (utf8_octets_iff hcp (r := [])).mpr utf8_nil
          rwa [List.append_nil] at hone
        | cons d m =>
          -- the byte is of the first character, so it is its first byte
          obtain ⟨rfl, -⟩ := List.cons.inj hr
          obtain ⟨e, ts, hoct, -, hts, -⟩ := octets_shape hcp
          rw [hoct] at hm
          cases a with
          | nil => exact ⟨utf8_nil, cp :: cps, hcps, by rw [List.flatMap_cons]; exact heq⟩
          | cons x a =>
            rw [List.cons_append] at hm
            refine absurd (hts c ?_) hc
            rw [(List.cons.inj hm).2]
            exact List.mem_append_right a List.mem_cons_self
      · obtain ⟨ha, hb⟩ := ih hcps' hr.symm
        exact ⟨(utf8_octets_iff hcp).mpr ha, hb⟩
  · rintro ⟨ha, hb⟩
    exact ha.append hb

/-! ## 2. Cuts -/

/-- **A cut** spoils a string exactly if the byte behind it continues a character. -/
theorem utf8_take_iff {s : List UInt8} (h : Utf8 s) (k : Nat) :
    Utf8 (s.take k) ↔ ∀ c ∈ s[k]?, ¬ IsTail c := by
  by_cases hk : k < s.length
  · have hsplit : s = s.take k ++ s[k] :: s.drop (k + 1) := by
      rw [List.getElem_cons_drop, List.take_append_drop]
    rw [List.getElem?_eq_getElem hk]
    constructor
    · rintro htake c hc htail
      obtain rfl := Option.some.inj hc
      rw [hsplit, htake.append_iff] at h
      exact not_utf8_tail htail _ h
    · intro hno
      rw [hsplit] at h
      exact ((utf8_split (hno _ rfl)).mp h).1
  · rw [List.take_of_length_le (Nat.le_of_not_lt hk), List.getElem?_eq_none (Nat.le_of_not_lt hk)]
    exact iff_of_true h fun c hc => absurd hc (by simp)

/-- The front of a character that is cut. -/
def Partial (p : List UInt8) : Prop :=
  ∃ cp q, IsScalar cp ∧ p ≠ [] ∧ q ≠ [] ∧ utf8Octets cp = p ++ q

namespace Partial

variable {p : List UInt8} (h : Partial p)

include h

theorem shape : ∃ c ts, p = c :: ts ∧ ¬ IsTail c ∧ ¬ c < 0x80 ∧ ∀ b ∈ ts, IsTail b := by
  obtain ⟨cp, q, hcp, hp, hq, hoct⟩ := h
  obtain ⟨c, ts, hshape, hc, hts, hhigh⟩ := octets_shape hcp
  cases p with
  | nil => exact absurd rfl hp
  | cons d p =>
    rw [hshape, List.cons_append] at hoct
    obtain ⟨rfl, rfl⟩ := List.cons.inj hoct
    refine ⟨c, p, rfl, hc, hhigh ?_, fun b hb => hts b (List.mem_append_left q hb)⟩
    exact fun hnil => hq (List.append_eq_nil_iff.mp hnil).2

/-- None of it is a character, with anything in front. -/
theorem cross {y o : List UInt8} (ho : o ≠ []) (hpre : o <+: p) : ¬ Utf8 (y ++ o) := by
  obtain ⟨c, ts, hshape, hc, -, hts⟩ := h.shape
  obtain ⟨cp, q, hcp, -, hq, hoct⟩ := h
  obtain ⟨r, rfl⟩ := hpre
  cases o with
  | nil => exact absurd rfl ho
  | cons d o =>
    rw [List.cons_append] at hshape
    obtain ⟨rfl, hrest⟩ := List.cons.inj hshape
    intro hutf8
    have hfront := ((utf8_split hc).mp hutf8).2
    have hall : Utf8 (utf8Octets cp) := by
      have hone := (utf8_octets_iff hcp (r := [])).mpr utf8_nil
      rwa [List.append_nil] at hone
    rw [hoct, List.append_assoc, hfront.append_iff] at hall
    -- what is left begins with a byte that continues
    obtain ⟨e, es, hoct', -, htail, -⟩ := octets_shape hcp
    rw [hoct', List.append_assoc, List.cons_append] at hoct
    obtain ⟨-, rfl⟩ := List.cons.inj hoct
    cases hr : r ++ q with
    | nil => exact hq (List.append_eq_nil_iff.mp hr).2
    | cons x xs =>
      rw [hr] at hall
      refine not_utf8_tail (htail x ?_) xs hall
      rw [hr]
      exact List.mem_append_right o List.mem_cons_self

end Partial

/-! ## 3. Texts

A text is a list of characters of 8 bits in this development. Here it is read as the bytes that it
stands for. -/

/-- The byte of a character of a text. -/
def octetOf (c : Char) : UInt8 := .ofNat c.toNat

/-- A text of UTF-8 characters. -/
def Utf8Text (t : Text) : Prop := Utf8 (t.map octetOf)

/-- No character of the text is continued behind its first `k` bytes. -/
def NotCut (t : Text) (k : Nat) : Prop := ∀ c ∈ t[k]?, ¬ IsTail (octetOf c)

instance (t : Text) (k : Nat) : Decidable (NotCut t k) :=
  Option.decidableForallMem (p := fun c => ¬ IsTail (octetOf c)) t[k]?

theorem utf8Text_nil : Utf8Text [] := utf8_nil

theorem Utf8Text.append {a b : Text} (ha : Utf8Text a) (hb : Utf8Text b) : Utf8Text (a ++ b) := by
  rw [Utf8Text, List.map_append]
  exact Utf8.append ha hb

theorem utf8Text_ascii {c : Char} (hc : octetOf c < 0x80) {t : Text} :
    Utf8Text (c :: t) ↔ Utf8Text t := by
  rw [Utf8Text, List.map_cons, utf8_ascii_iff hc, Utf8Text]

theorem utf8Text_sep {c : Char} (hc : octetOf c < 0x80) {a b : Text} :
    Utf8Text (a ++ c :: b) ↔ Utf8Text a ∧ Utf8Text b := by
  have hno : ¬ IsTail (octetOf c) := fun htail => high_of_tail htail hc
  rw [Utf8Text, List.map_append, List.map_cons, utf8_split hno, utf8_ascii_iff hc, Utf8Text,
    Utf8Text]

theorem utf8Text_take_iff {t : Text} (h : Utf8Text t) (k : Nat) :
    Utf8Text (t.take k) ↔ NotCut t k := by
  rw [Utf8Text, List.map_take, utf8_take_iff h, List.getElem?_map, NotCut]
  cases t[k]? with
  | none => simp
  | some c => simp

theorem octetOf_ascii {c : Char} (h : c.toNat < 0x80) : octetOf c < 0x80 := by
  rw [octetOf, UInt8.lt_iff_toNat_lt, UInt8.toNat_ofNat']
  have hval : (0x80 : UInt8).toNat = 0x80 := rfl
  omega

/-! ## 4. Marks

The bytes of a text with what the text goes on with, and the fronts of characters as which they
arrive.  A list of such fronts stays one when it is cut, when another is put behind it, and when
ASCII characters are left out. -/

/-- A byte, and whether the text goes on with a byte of the same character. -/
abbrev Mark := Char × Bool

/-- The bytes of a text. Each has with it whether the byte behind it continues the same character,
which is asked again when that byte may be gone. -/
def marks : Text → List Mark
  | [] => []
  | c :: t => (c, t.head?.any fun d => IsTail (octetOf d)) :: marks t

theorem map_fst_marks (t : Text) : (marks t).map Prod.fst = t := by
  induction t with
  | nil => rfl
  | cons c t ih => rw [marks, List.map_cons, ih]

theorem length_marks (t : Text) : (marks t).length = t.length := by
  rw [← List.length_map (f := Prod.fst), map_fst_marks]

/-- The marks say how far the character is there: `q` is what is missing of it. -/
def Flagged (q : List UInt8) : List Mark → Prop
  | [] => True
  | x :: p => (x.2 = true ↔ p ≠ [] ∨ q ≠ []) ∧ Flagged q p

/-- The front of a character, or all of it. -/
structure Piece (p : List Mark) : Prop where
  ne_nil : p ≠ []
  front : ∃ cp q, IsScalar cp ∧ p.map (fun x => octetOf x.1) ++ q = utf8Octets cp ∧ Flagged q p

/-- **Fronts of characters** in a row. This is what is left of a text by cuts and by leaving out
ASCII characters, in any order. -/
inductive Pieces : List Mark → Prop
  | nil : Pieces []
  | cons {p l : List Mark} (hp : Piece p) (hl : Pieces l) : Pieces (p ++ l)

theorem Flagged.take {q : List UInt8} {p : List Mark} (h : Flagged q p) (k : Nat) :
    Flagged ((p.drop k).map (fun x => octetOf x.1) ++ q) (p.take k) := by
  induction p generalizing k with
  | nil => simp [Flagged]
  | cons x p ih =>
    cases k with
    | zero => trivial
    | succ k =>
      refine ⟨h.1.trans ?_, ih h.2 k⟩
      rw [List.drop_succ_cons]
      by_cases hp : p = []
      · simp [hp]
      · refine iff_of_true (Or.inl hp) ?_
        by_cases hk : p.take k = []
        · refine Or.inr fun hnil => hp ?_
          rw [List.append_eq_nil_iff, List.map_eq_nil_iff] at hnil
          rw [← List.take_append_drop k p, hk, hnil.1, List.append_nil]
        · exact Or.inl hk

theorem Piece.take {p : List Mark} (h : Piece p) {k : Nat} (hk : k ≠ 0) : Piece (p.take k) := by
  obtain ⟨cp, q, hcp, hoct, hflag⟩ := h.front
  refine ⟨fun hnil => ?_, cp, (p.drop k).map (fun x => octetOf x.1) ++ q, hcp, ?_, hflag.take k⟩
  · rcases List.take_eq_nil_iff.mp hnil with hnil | hnil
    · exact hk hnil
    · exact h.ne_nil hnil
  · rw [← List.append_assoc, ← List.map_append, List.take_append_drop, hoct]

namespace Pieces

theorem single {p : List Mark} (h : Piece p) : Pieces p := by
  have hone := Pieces.cons h .nil
  rwa [List.append_nil] at hone

theorem append {a b : List Mark} (ha : Pieces a) (hb : Pieces b) : Pieces (a ++ b) := by
  induction ha with
  | nil => exact hb
  | cons hp _ ih =>
    rw [List.append_assoc]
    exact .cons hp ih

theorem take {l : List Mark} (h : Pieces l) (k : Nat) : Pieces (l.take k) := by
  induction h generalizing k with
  | nil =>
    rw [List.take_nil]
    exact .nil
  | @cons p l hp _ ih =>
    by_cases hk : k = 0
    · rw [hk]
      exact .nil
    · rw [List.take_append]
      exact .cons (hp.take hk) (ih _)

theorem flatten {ls : List (List Mark)} (h : ∀ l ∈ ls, Pieces l) : Pieces ls.flatten := by
  induction ls with
  | nil => exact .nil
  | cons l ls ih =>
    obtain ⟨hl, hls⟩ := List.forall_mem_cons.mp h
    exact hl.append (ih hls)

end Pieces

/-- ASCII characters are left out. -/
inductive Drops : List Mark → List Mark → Prop
  | nil : Drops [] []
  | keep (x : Mark) {l l' : List Mark} (h : Drops l l') : Drops (x :: l) (x :: l')
  | drop {x : Mark} (hx : octetOf x.1 < 0x80) {l l' : List Mark} (h : Drops l l') :
    Drops (x :: l) l'

namespace Drops

theorem refl (l : List Mark) : Drops l l := by
  induction l with
  | nil => exact .nil
  | cons x l ih => exact .keep x ih

theorem split {a b l : List Mark} (h : Drops (a ++ b) l) :
    ∃ a' b', l = a' ++ b' ∧ Drops a a' ∧ Drops b b' := by
  induction a generalizing l with
  | nil => exact ⟨[], l, rfl, .nil, h⟩
  | cons x a ih =>
    cases h with
    | keep _ h =>
      obtain ⟨a', b', rfl, ha, hb⟩ := ih h
      exact ⟨x :: a', b', rfl, .keep x ha, hb⟩
    | drop hx h =>
      obtain ⟨a', b', rfl, ha, hb⟩ := ih h
      exact ⟨a', b', rfl, .drop hx ha, hb⟩

/-- From other characters nothing is left out. -/
theorem eq_of_high {l l' : List Mark} (h : Drops l l') (hl : ∀ x ∈ l, ¬ octetOf x.1 < 0x80) :
    l' = l := by
  induction h with
  | nil => rfl
  | keep x _ ih => rw [ih fun y hy => hl y (List.mem_cons_of_mem x hy)]
  | drop hx => exact absurd hx (hl _ List.mem_cons_self)

end Drops

/-- A front is an ASCII character, or has no ASCII character in it. -/
theorem Piece.ascii_or_high {p : List Mark} (h : Piece p) :
    (∃ x, p = [x]) ∨ ∀ x ∈ p, ¬ octetOf x.1 < 0x80 := by
  obtain ⟨cp, q, hcp, hoct, -⟩ := h.front
  obtain ⟨c, ts, hshape, -, hts, hhigh⟩ := octets_shape hcp
  rw [hshape] at hoct
  cases p with
  | nil => exact absurd rfl h.ne_nil
  | cons x p =>
    rw [List.map_cons, List.cons_append] at hoct
    obtain ⟨rfl, hrest⟩ := List.cons.inj hoct
    by_cases hp : p = []
    · exact Or.inl ⟨x, by rw [hp]⟩
    · refine Or.inr (List.forall_mem_cons.mpr ⟨hhigh ?_, fun y hy => high_of_tail (hts _ ?_)⟩)
      · rw [← hrest]
        exact fun hnil => hp (List.map_eq_nil_iff.mp (List.append_eq_nil_iff.mp hnil).1)
      · rw [← hrest]
        exact List.mem_append_left q (List.mem_map_of_mem hy)

theorem Piece.head {p : List Mark} (h : Piece p) (l : List Mark) :
    ∀ x ∈ (p ++ l).head?, ¬ IsTail (octetOf x.1) := by
  obtain ⟨cp, q, hcp, hoct, -⟩ := h.front
  obtain ⟨c, ts, hshape, hc, -, -⟩ := octets_shape hcp
  rw [hshape] at hoct
  cases p with
  | nil => exact absurd rfl h.ne_nil
  | cons y p =>
    rintro x hx
    obtain rfl : y = x := Option.some.inj hx
    rw [List.map_cons, List.cons_append] at hoct
    rwa [(List.cons.inj hoct).1]

theorem Pieces.head {l : List Mark} (h : Pieces l) : ∀ x ∈ l.head?, ¬ IsTail (octetOf x.1) := by
  cases h with
  | nil => exact fun x hx => absurd hx (by simp)
  | @cons p l hp _ => exact hp.head l

theorem Pieces.drops {l l' : List Mark} (h : Pieces l) (hl : Drops l l') : Pieces l' := by
  induction h generalizing l' with
  | nil =>
    cases hl
    exact .nil
  | @cons p l hp _ ih =>
    obtain ⟨p', m, rfl, hpp, hm⟩ := hl.split
    refine Pieces.append ?_ (ih hm)
    rcases hp.ascii_or_high with ⟨x, rfl⟩ | hhigh
    · cases hpp with
      | keep _ hnil =>
        cases hnil
        exact .single hp
      | drop _ hnil =>
        cases hnil
        exact .nil
    · rw [hpp.eq_of_high hhigh]
      exact .single hp

/-- The bytes of a character, and of a text behind it. -/
theorem marks_char {b : Text} (hb : ∀ d ∈ b.head?, ¬ IsTail (octetOf d)) {s : Text}
    (hs : ∀ x ∈ s.tail, IsTail (octetOf x)) :
    marks (s ++ b) = marks s ++ marks b ∧ Flagged [] (marks s) := by
  induction s with
  | nil => exact ⟨rfl, trivial⟩
  | cons x s ih =>
    cases s with
    | nil =>
      have hlast : (b.head?.any fun d => IsTail (octetOf d)) = false := by
        rw [Option.any_eq_false]
        exact fun d hd => by simpa using hb d hd
      refine ⟨?_, by simp [marks], trivial⟩
      show (x, b.head?.any fun d => IsTail (octetOf d)) :: marks b = (x, false) :: marks b
      rw [hlast]
    | cons y s =>
      obtain ⟨hy, hs⟩ := List.forall_mem_cons.mp hs
      obtain ⟨hsplit, hflag⟩ := ih hs
      refine ⟨?_, ⟨by simp [marks, hy], hflag⟩⟩
      rw [List.cons_append, marks, hsplit, marks, List.cons_append]
      rfl

/-- **A UTF-8 text** is all there before anything becomes of it. -/
theorem pieces_marks {t : Text} (h : Utf8Text t) : Pieces (marks t) := by
  obtain ⟨cps, hcps, heq⟩ := h
  induction cps generalizing t with
  | nil =>
    rw [List.flatMap_nil, List.map_eq_nil_iff] at heq
    rw [heq]
    exact .nil
  | cons cp cps ih =>
    obtain ⟨hcp, hcps⟩ := List.forall_mem_cons.mp hcps
    rw [List.flatMap_cons] at heq
    obtain ⟨a, b, rfl, ha, hb⟩ := List.map_eq_append_iff.mp heq
    have hhead : ∀ d ∈ b.head?, ¬ IsTail (octetOf d) := by
      intro d hd htail
      obtain ⟨b', rfl⟩ := List.head?_eq_some_iff.mp hd
      exact not_utf8_tail htail _ (⟨cps, hcps, hb⟩ : Utf8Text (d :: b'))
    obtain ⟨c, ts, hoct, -, hts, -⟩ := octets_shape hcp
    have htail : ∀ x ∈ a.tail, IsTail (octetOf x) := by
      intro x hx
      refine hts _ ?_
      rw [hoct] at ha
      cases a with
      | nil => exact absurd hx List.not_mem_nil
      | cons y a =>
        rw [← (List.cons.inj ha).2]
        exact List.mem_map_of_mem hx
    obtain ⟨hsplit, hflag⟩ := marks_char hhead htail
    have hbytes : (marks a).map (fun x => octetOf x.1) = utf8Octets cp := by
      rw [← ha, ← map_fst_marks a, List.map_map, map_fst_marks]
      rfl
    rw [hsplit]
    refine .cons ⟨fun hnil => ?_, cp, [], hcp, ?_, hflag⟩ (ih hcps hb)
    · rw [hnil, hoct] at hbytes
      exact absurd hbytes (by simp)
    · rw [List.append_nil, hbytes]

/-! ## 5. What arrives -/

/-- A byte that arrives as it was and continues a character. -/
def Joins (l : List (Mark × Char)) : Prop := ∃ x ∈ l.head?, x.2 = x.1.1 ∧ IsTail (octetOf x.1.1)

instance (l : List (Mark × Char)) : Decidable (Joins l) :=
  match l with
  | [] => isFalse fun ⟨_, hx, _⟩ => absurd hx (by simp)
  | x :: _ => decidable_of_iff (x.2 = x.1.1 ∧ IsTail (octetOf x.1.1)) (by simp [Joins])

/-- **No character arrives in part**: where the text goes on from a byte, so does what arrives. -/
def Together : List (Mark × Char) → Prop
  | [] => True
  | x :: l => (x.2 = x.1.1 ∧ x.1.2 = true ↔ Joins l) ∧ Together l

instance instDecidableTogether : (l : List (Mark × Char)) → Decidable (Together l)
  | [] => isTrue trivial
  | _ :: l =>
    have := instDecidableTogether l
    inferInstanceAs (Decidable (_ ∧ _))

theorem joins_cons {x : Mark × Char} {l : List (Mark × Char)} :
    Joins (x :: l) ↔ x.2 = x.1.1 ∧ IsTail (octetOf x.1.1) := by simp [Joins]

theorem not_joins_nil : ¬ Joins [] := fun ⟨_, hx, _⟩ => absurd hx (by simp)

theorem together_append {a b : List (Mark × Char)} (hb : ¬ Joins b) :
    Together (a ++ b) ↔ Together a ∧ Together b := by
  induction a with
  | nil => exact (and_iff_right trivial).symm
  | cons x a ih =>
    have hjoins : Joins (a ++ b) ↔ Joins a := by
      cases a with
      | nil => exact iff_of_false hb not_joins_nil
      | cons y a => rw [List.cons_append, joins_cons, joins_cons]
    rw [List.cons_append, Together, Together, hjoins, ih, and_assoc]

/-- Bytes that continue, none of which arrives as it was. -/
theorem together_starred_iff {r : List (Mark × Char)} (hr : ∀ y ∈ r, IsTail (octetOf y.1.1)) :
    ¬ Joins r ∧ Together r ↔ ∀ y ∈ r, y.2 ≠ y.1.1 := by
  induction r with
  | nil => exact iff_of_true ⟨not_joins_nil, trivial⟩ fun _ h => absurd h List.not_mem_nil
  | cons y r ih =>
    obtain ⟨hy, hr⟩ := List.forall_mem_cons.mp hr
    rw [List.forall_mem_cons, ← ih hr, joins_cons, and_iff_left hy, Together]
    refine and_congr_right fun hno => and_congr_left' ?_
    exact ⟨fun h hj => hno (h.mpr hj).1, fun h => iff_of_false (fun hy => hno hy.1) h⟩

/-- Bytes that continue one that arrives as it was. -/
theorem together_kept_iff {q : List UInt8} {x : Mark × Char} (hx : x.2 = x.1.1)
    {r : List (Mark × Char)} (hr : ∀ y ∈ r, IsTail (octetOf y.1.1))
    (hflag : Flagged q ((x :: r).map Prod.fst)) :
    Together (x :: r) ↔ (∀ y ∈ r, y.2 = y.1.1) ∧ q = [] := by
  induction r generalizing x with
  | nil =>
    have hlast : x.1.2 = true ↔ q ≠ [] := by simpa [Flagged] using hflag
    have hnone : ∀ y ∈ ([] : List (Mark × Char)), y.2 = y.1.1 := fun _ h =>
      absurd h List.not_mem_nil
    rw [Together, and_iff_right hx, hlast, iff_false_intro not_joins_nil, iff_false, not_not,
      and_iff_right hnone]
    exact and_iff_left trivial
  | cons y r ih =>
    obtain ⟨hy, hr⟩ := List.forall_mem_cons.mp hr
    have hmore : x.1.2 = true := hflag.1.mpr (Or.inl (by simp))
    rw [Together, and_iff_right hx, iff_true_left hmore, joins_cons, and_iff_left hy,
      List.forall_mem_cons, and_assoc]
    exact and_congr_right fun hkept => ih hkept hr hflag.2

/-- Such bytes by themselves are UTF-8 only as stars. -/
theorem utf8_starred_iff {r : List (Mark × Char)} (hr : ∀ y ∈ r, IsTail (octetOf y.1.1))
    (hshown : ∀ y ∈ r, y.2 = y.1.1 ∨ y.2 = '*') :
    Utf8Text (r.map Prod.snd) ↔ ∀ y ∈ r, y.2 ≠ y.1.1 := by
  induction r with
  | nil => exact iff_of_true utf8Text_nil fun _ h => absurd h List.not_mem_nil
  | cons y r ih =>
    obtain ⟨hy, hr⟩ := List.forall_mem_cons.mp hr
    obtain ⟨hystar, hshown⟩ := List.forall_mem_cons.mp hshown
    rw [List.forall_mem_cons, ← ih hr hshown, List.map_cons]
    by_cases hkept : y.2 = y.1.1
    · refine iff_of_false (fun hutf8 => ?_) fun h => h.1 hkept
      rw [hkept] at hutf8
      exact not_utf8_tail hy _ hutf8
    · rw [hystar.resolve_left hkept, utf8Text_ascii (by decide)]
      exact (and_iff_right (hystar.resolve_left hkept ▸ hkept)).symm

/-- The front of a character that arrives as it was, with nothing else, is all of it. -/
theorem eq_nil_of_utf8_front {cp : Nat} (hcp : IsScalar cp) {a : List (Mark × Char)} (hne : a ≠ [])
    (hkept : ∀ y ∈ a, y.2 = y.1.1) {q : List UInt8}
    (hoct : a.map (fun y => octetOf y.1.1) ++ q = utf8Octets cp)
    (hutf8 : Utf8Text (a.map Prod.snd)) : q = [] := by
  by_contra hq
  have hbytes : (a.map Prod.snd).map octetOf = a.map fun y => octetOf y.1.1 := by
    rw [List.map_map]
    exact List.map_congr_left fun y hy => congrArg octetOf (hkept y hy)
  have hfront : Partial (a.map fun y => octetOf y.1.1) :=
    ⟨cp, q, hcp, by simpa using hne, hq, hoct.symm⟩
  refine hfront.cross (y := []) (by simpa using hne) (List.prefix_refl _) ?_
  rw [List.nil_append, ← hbytes]
  exact hutf8

theorem kept_of_utf8_front {cp : Nat} (hcp : IsScalar cp) {q : List UInt8}
    {a s : List (Mark × Char)} (hne : a ≠ []) (hkept : ∀ y ∈ a, y.2 = y.1.1)
    (hs : ∀ y ∈ s, y.2 = y.1.1 ∨ y.2 = '*')
    (hoct : (a ++ s).map (fun y => octetOf y.1.1) ++ q = utf8Octets cp)
    (hutf8 : Utf8Text ((a ++ s).map Prod.snd)) : (∀ y ∈ s, y.2 = y.1.1) ∧ q = [] := by
  induction s generalizing a with
  | nil =>
    rw [List.append_nil] at hoct hutf8
    exact ⟨fun _ h => absurd h List.not_mem_nil, eq_nil_of_utf8_front hcp hne hkept hoct hutf8⟩
  | cons y s ih =>
    obtain ⟨hy, hs⟩ := List.forall_mem_cons.mp hs
    by_cases hykept : y.2 = y.1.1
    · have hmove : a ++ y :: s = (a ++ [y]) ++ s := by simp
      rw [hmove] at hoct hutf8
      have hkept' : ∀ z ∈ a ++ [y], z.2 = z.1.1 := by
        rw [List.forall_mem_append]
        exact ⟨hkept, List.forall_mem_singleton.mpr hykept⟩
      obtain ⟨hrest, hq⟩ := ih (by simp) hkept' hs hoct hutf8
      exact ⟨List.forall_mem_cons.mpr ⟨hykept, hrest⟩, hq⟩
    · rw [List.map_append, List.map_cons, hy.resolve_left hykept, utf8Text_sep (by decide)] at hutf8
      rw [List.map_append, List.append_assoc] at hoct
      exact absurd (eq_nil_of_utf8_front hcp hne hkept hoct hutf8.1) (by simp)

/-- **A character that arrives**, or its front. -/
theorem Piece.utf8_iff {l : List (Mark × Char)} (h : Piece (l.map Prod.fst))
    (hl : ∀ x ∈ l, x.2 = x.1.1 ∨ x.2 = '*') : Utf8Text (l.map Prod.snd) ↔ Together l := by
  obtain ⟨cp, q, hcp, hoct, hflag⟩ := h.front
  rw [List.map_map] at hoct
  obtain ⟨c, ts, hshape, -, hts, -⟩ := octets_shape hcp
  cases l with
  | nil => exact absurd rfl h.ne_nil
  | cons x r =>
    obtain ⟨hx, hr⟩ := List.forall_mem_cons.mp hl
    have htail : ∀ y ∈ r, IsTail (octetOf y.1.1) := by
      intro y hy
      refine hts _ ?_
      rw [hshape, List.map_cons, List.cons_append] at hoct
      rw [← (List.cons.inj hoct).2]
      exact List.mem_append_left q (List.mem_map_of_mem hy)
    by_cases hkept : x.2 = x.1.1
    · rw [together_kept_iff hkept htail hflag]
      refine ⟨fun hutf8 => ?_, fun ⟨hall, hq⟩ => ?_⟩
      · exact kept_of_utf8_front (a := [x]) hcp (by simp) (List.forall_mem_singleton.mpr hkept) hr
          hoct hutf8
      · rw [hq, List.append_nil] at hoct
        have hbytes : ((x :: r).map Prod.snd).map octetOf = utf8Octets cp := by
          rw [← hoct, List.map_map]
          refine List.map_congr_left fun y hy => congrArg octetOf ?_
          exact (List.mem_cons.mp hy).elim (fun h => h ▸ hkept) (hall y)
        have hone := (utf8_octets_iff hcp (r := [])).mpr utf8_nil
        rw [List.append_nil] at hone
        rwa [Utf8Text, hbytes]
    · have htogether : Together (x :: r) ↔ ¬ Joins r ∧ Together r :=
        and_congr_left' ⟨fun h hj => hkept (h.mpr hj).1,
          fun h => iff_of_false (fun hy => hkept hy.1) h⟩
      rw [List.map_cons, hx.resolve_left hkept, utf8Text_ascii (by decide), htogether,
        together_starred_iff htail]
      exact utf8_starred_iff htail hr

/-- **What arrives is UTF-8** exactly if no character arrives in part. By induction on the fronts,
each of which is whole, cut, or stars. -/
theorem pieces_utf8_iff {l : List (Mark × Char)} (h : Pieces (l.map Prod.fst))
    (hl : ∀ x ∈ l, x.2 = x.1.1 ∨ x.2 = '*') : Utf8Text (l.map Prod.snd) ↔ Together l := by
  generalize heq : l.map Prod.fst = ms at h
  induction h generalizing l with
  | nil =>
    rw [List.map_eq_nil_iff.mp heq]
    exact iff_of_true utf8Text_nil trivial
  | @cons p m hp hm ih =>
    obtain ⟨a, b, rfl, rfl, hb⟩ := List.map_eq_append_iff.mp heq
    obtain ⟨hla, hlb⟩ := List.forall_mem_append.mp hl
    cases b with
    | nil =>
      rw [List.append_nil]
      exact hp.utf8_iff hla
    | cons y b =>
      -- a character begins behind the first
      have hfirst : ¬ IsTail (octetOf y.1.1) := hm.head y.1 (by rw [← hb]; rfl)
      have hshown : ¬ IsTail (octetOf y.2) := by
        rcases hlb y List.mem_cons_self with hy | hy
        · rwa [hy]
        · rw [hy]
          decide
      have hsplit : Utf8Text ((a ++ y :: b).map Prod.snd) ↔
          Utf8Text (a.map Prod.snd) ∧ Utf8Text ((y :: b).map Prod.snd) := by
        rw [List.map_append, Utf8Text, List.map_append, List.map_cons, List.map_cons,
          utf8_split hshown]
        rfl
      rw [hsplit, together_append fun h => hfirst (joins_cons.mp h).2, hp.utf8_iff hla, ih hlb hb]

/-- **Where nothing but a cut becomes of a text**, the byte behind the cut says it. -/
theorem together_take_iff {t : Text} (h : Utf8Text t) (k : Nat) :
    Together (((marks t).take k).zip (t.take k)) ↔ NotCut t k := by
  have hlen : ((marks t).take k).length = (t.take k).length := by
    rw [List.length_take, List.length_take, length_marks]
  have hsame : ∀ l : List Mark, ∀ x ∈ l.zip (l.map Prod.fst), x.2 = x.1.1 := by
    intro l
    induction l with
    | nil => exact fun x hx => absurd hx (by simp)
    | cons y l ih => exact List.forall_mem_cons.mpr ⟨rfl, ih⟩
  have hkept : ∀ x ∈ ((marks t).take k).zip (t.take k), x.2 = x.1.1 := by
    have hall := hsame ((marks t).take k)
    rwa [List.map_take, map_fst_marks] at hall
  have hutf8 := pieces_utf8_iff (l := ((marks t).take k).zip (t.take k))
    (by rw [List.map_fst_zip hlen.le]; exact (pieces_marks h).take k)
    fun x hx => Or.inl (hkept x hx)
  rw [← hutf8, List.map_snd_zip hlen.ge, utf8Text_take_iff h]

end SekurIRCd
