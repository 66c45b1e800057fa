/-
# Lines read into a bounded buffer

A reader takes a stream apart at its newlines, but never takes more than `cap` elements at once: a
longer line comes in pieces.  Every piece but the last one is therefore *full*, that is it ends
with a newline or fills the buffer.

A stream put together from such pieces is cut into the same pieces again (`read_flatten`), and so
is one from which some of them were left out, since the pieces that remain are still full
(`Cut.sublist`).  This is what rewriting a file line by line relies on.
-/
import Mathlib.Data.List.Basic

namespace Chunks

variable {α β : Type*} [DecidableEq α] (nl : α) (cap : Nat)

/-- The pieces of a stream, when `cur` has been read into the buffer. -/
def readFrom : List α → List α → List (List α)
  | cur, [] => if cur = [] then [] else [cur]
  | cur, a :: s =>
    if a = nl ∨ cur.length + 1 = cap then (cur ++ [a]) :: readFrom [] s else readFrom (cur ++ [a]) s

/-- The pieces of a stream. -/
def read (s : List α) : List (List α) := readFrom nl cap [] s

/-- Pieces as a reader cuts them: all of them full, up to the last one. A piece is full when it
ends with a newline or fills the buffer. -/
inductive Cut : List (List α) → Prop
  | nil : Cut []
  | last {c : List α} (hne : c ≠ []) (hnl : nl ∉ c) (hlen : c.length < cap) : Cut [c]
  | cons {c : List α} {a : α} {cs : List (List α)} (hnl : nl ∉ c) (hlen : c.length < cap)
      (hfull : a = nl ∨ c.length + 1 = cap) (hcs : Cut cs) : Cut ((c ++ [a]) :: cs)

variable {nl cap}

theorem cut_readFrom (hcap : 0 < cap) (s cur : List α) (hnl : nl ∉ cur) (hlen : cur.length < cap) :
    Cut nl cap (readFrom nl cap cur s) := by
  induction s generalizing cur with
  | nil =>
    rw [readFrom]
    split
    · exact .nil
    · next h => exact .last h hnl hlen
  | cons a s ih =>
    rw [readFrom]
    split
    · next hfull => exact .cons hnl hlen hfull (ih [] (by simp) hcap)
    · next hfull =>
      rw [not_or] at hfull
      have hsep : nl ≠ a := fun e => hfull.1 e.symm
      refine ih (cur ++ [a]) (by simp [hnl, hsep]) ?_
      simp only [List.length_append, List.length_singleton]
      omega

theorem cut_read (hcap : 0 < cap) (s : List α) : Cut nl cap (read nl cap s) :=
  cut_readFrom hcap s [] (by simp) hcap

theorem readFrom_full {a : α} {t : List α} : ∀ {c cur : List α}, nl ∉ c →
    cur.length + c.length < cap → (a = nl ∨ cur.length + c.length + 1 = cap) →
    readFrom nl cap cur (c ++ a :: t) = (cur ++ c ++ [a]) :: read nl cap t
  | [], cur, _, _, hfull => by
    rw [List.nil_append, readFrom, if_pos (by simpa using hfull), List.append_nil, read]
  | b :: c, cur, hnl, hlen, hfull => by
    rw [List.mem_cons, not_or] at hnl
    rw [List.length_cons] at hlen hfull
    have hgo : ¬(b = nl ∨ cur.length + 1 = cap) := by
      rintro (h | h)
      · exact hnl.1 h.symm
      · omega
    have ih : readFrom nl cap (cur ++ [b]) (c ++ a :: t) =
        (cur ++ [b] ++ c ++ [a]) :: read nl cap t := by
      refine readFrom_full hnl.2 ?_ (hfull.imp_right fun h => ?_)
      · simp only [List.length_append, List.length_singleton]
        omega
      · simp only [List.length_append, List.length_singleton]
        omega
    rw [List.cons_append, readFrom, if_neg hgo, ih]
    simp

/-- A piece that is not full is what is left in the buffer at the end. -/
theorem readFrom_part : ∀ {c cur : List α}, nl ∉ c → cur.length + c.length < cap →
    readFrom nl cap cur c = if cur ++ c = [] then [] else [cur ++ c]
  | [], cur, _, _ => by rw [readFrom, List.append_nil]
  | b :: c, cur, hnl, hlen => by
    rw [List.mem_cons, not_or] at hnl
    rw [List.length_cons] at hlen
    have hgo : ¬(b = nl ∨ cur.length + 1 = cap) := by
      rintro (h | h)
      · exact hnl.1 h.symm
      · omega
    rw [readFrom, if_neg hgo, readFrom_part hnl.2
      (by simp only [List.length_append, List.length_singleton]; omega)]
    simp

/-- **Pieces that were cut from a stream are cut again where they were.** A file that is written
piece by piece is read as it was. -/
theorem read_flatten {cs : List (List α)} (h : Cut nl cap cs) : read nl cap cs.flatten = cs := by
  induction h with
  | nil => rfl
  | last hne hnl hlen =>
    rw [List.flatten_singleton, read, readFrom_part hnl (by simpa using hlen), List.nil_append,
      if_neg hne]
  | cons hnl hlen hfull _ ih =>
    rw [List.flatten_cons, List.append_assoc, List.singleton_append, read,
      readFrom_full hnl (by simpa using hlen) (by simpa using hfull), ih, List.nil_append]

omit [DecidableEq α] in
/-- Leaving some of the pieces out does not change the others. -/
theorem Cut.sublist {cs ds : List (List α)} (h : Cut nl cap cs) (hsub : ds.Sublist cs) :
    Cut nl cap ds := by
  induction h generalizing ds with
  | nil =>
    rw [List.sublist_nil.mp hsub]
    exact .nil
  | last hne hnl hlen =>
    rcases List.sublist_singleton.mp hsub with rfl | rfl
    · exact .nil
    · exact .last hne hnl hlen
  | cons hnl hlen hfull _ ih =>
    cases hsub with
    | cons _ hsub => exact ih hsub
    | cons_cons _ hsub => exact .cons hnl hlen hfull (ih hsub)

/-! ## Another line at the end -/

/-- Behind a newline the reader starts afresh. -/
theorem readFrom_append {t : List α} : ∀ {s cur : List α}, s.getLast? = some nl →
    readFrom nl cap cur (s ++ t) = readFrom nl cap cur s ++ read nl cap t
  | [], _, h => absurd h (by simp)
  | [a], cur, h => by
    obtain rfl : a = nl := by simpa using h
    simp [readFrom, read]
  | a :: b :: s, cur, h => by
    have hlast : (b :: s).getLast? = some nl := by simpa using h
    rw [List.cons_append, readFrom, readFrom]
    split
    · rw [readFrom_append hlast, List.cons_append]
    · exact readFrom_append hlast

theorem read_line {c : List α} (hnl : nl ∉ c) (hlen : c.length < cap) :
    read nl cap (c ++ [nl]) = [c ++ [nl]] := by
  rw [read, readFrom_full hnl (by simpa using hlen) (Or.inl rfl), List.nil_append]
  rfl

/-- For a reader of lines that takes no notice of the newline, a newline at the end makes no
difference. -/
theorem filterMap_readFrom_newline {v : List α → Option β} (hv : ∀ c, v (c ++ [nl]) = v c)
    (h0 : v [] = none) (s cur : List α) :
    (readFrom nl cap cur (s ++ [nl])).filterMap v = (readFrom nl cap cur s).filterMap v := by
  induction s generalizing cur with
  | nil =>
    have hread : readFrom nl cap cur ([] ++ [nl]) = [cur ++ [nl]] := by simp [readFrom]
    rw [hread, readFrom]
    split
    · next h =>
      have hnone : v [nl] = none := (hv []).trans h0
      simp [h, hnone]
    · simp [List.filterMap_cons, hv]
  | cons a s ih =>
    rw [List.cons_append, readFrom, readFrom]
    split
    · rw [List.filterMap_cons, List.filterMap_cons, ih []]
    · exact ih _

/-- A stream whose last line is ended. -/
def endLine (nl : α) (s : List α) : List α := if s = [] ∨ s.getLast? = some nl then s else s ++ [nl]

/-- **A line appended to a stream is read after all the others.** A stream whose last line was not
ended is ended first, since the new line would otherwise be read as a part of it. -/
theorem filterMap_read_endLine {v : List α → Option β} (hv : ∀ c, v (c ++ [nl]) = v c)
    (h0 : v [] = none) (s : List α) {c : List α} (hnl : nl ∉ c) (hlen : c.length < cap) :
    (read nl cap (endLine nl s ++ (c ++ [nl]))).filterMap v =
      (read nl cap s).filterMap v ++ (v c).toList := by
  have hline : (read nl cap (c ++ [nl])).filterMap v = (v c).toList := by
    rw [read_line hnl hlen, ← hv c]
    cases h : v (c ++ [nl]) <;> simp [h]
  have hend : (read nl cap (endLine nl s)).filterMap v = (read nl cap s).filterMap v := by
    unfold endLine
    split
    · rfl
    · exact filterMap_readFrom_newline hv h0 s []
  by_cases hs : s = []
  · subst hs
    simpa [endLine, read, readFrom] using hline
  · have hlast : (endLine nl s).getLast? = some nl := by
      unfold endLine
      split
      · next h => exact h.resolve_left hs
      · simp
    rw [read, readFrom_append hlast, List.filterMap_append, hline]
    exact congrArg (· ++ (v c).toList) hend

end Chunks
